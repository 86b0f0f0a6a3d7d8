import RocksKV.Storage.CommandLog
/-!
# What `recover` finds in the log's files

A `Layout` lists for every file its number and the entries it holds. On files that hold a layout, each
perhaps with a torn entry at its end, `recover` ends with the greatest sequence number of the layout
(`addFiles_maxSeq`) and an index that maps every entry to the file and the offset it starts at
(`get_addFiles`).
-/

namespace RocksKV.Storage

open Lib

/-! ## Sequence numbers -/

/-- The entries of a log, numbered from 1. -/
def Numbered (es : List CommandEntry) : Prop := es.map (fun e => e.sequence.toNat) = List.range' 1 es.length

theorem Numbered.concat {es : List CommandEntry} (h : Numbered es) {e : CommandEntry}
    (he : e.sequence.toNat = es.length + 1) : Numbered (es ++ [e]) := by
  unfold Numbered at h ⊢
  rw [List.map_append, h, List.length_append, List.length_singleton, List.range'_concat]
  simp [he, Nat.add_comm]

theorem Numbered.of_append {es fs : List CommandEntry} (h : Numbered (es ++ fs)) : Numbered es := by
  unfold Numbered at h ⊢
  rw [List.map_append, List.length_append, ← List.range'_append_1] at h
  exact (List.append_inj h (by simp)).1

theorem Numbered.last {es : List CommandEntry} {e : CommandEntry} (h : Numbered (es ++ [e])) :
    e.sequence.toNat = es.length + 1 := by
  have h1 := h.of_append
  unfold Numbered at h h1
  rw [List.map_append, h1, List.length_append, List.length_singleton, List.range'_concat] at h
  simpa [Nat.add_comm] using h

theorem Numbered.nodup {es : List CommandEntry} (h : Numbered es) : (es.map CommandEntry.sequence).Nodup := by
  have h1 : (es.map fun e => e.sequence.toNat).Nodup := by
    rw [h]
    exact List.nodup_range'
  refine List.Nodup.of_map UInt64.toNat ?_
  rwa [List.map_map]

/-- The greatest number seen, as `recover` keeps it. -/
def maxSequence (m : UInt64) (es : List CommandEntry) : UInt64 :=
  es.foldl (fun m e => if m < e.sequence then e.sequence else m) m

theorem Numbered.maxSequence {es : List CommandEntry} (h : Numbered es) :
    (Storage.maxSequence 0 es).toNat = es.length := by
  induction es using List.reverseRecOn with
  | nil => rfl
  | append_singleton es e ih =>
    have hlt : Storage.maxSequence 0 es < e.sequence := by
      rw [UInt64.lt_iff_toNat_lt, ih h.of_append, h.last]
      omega
    unfold Storage.maxSequence at hlt ⊢
    rw [List.foldl_append, List.foldl_cons, List.foldl_nil, if_pos hlt, h.last]
    simp

/-! ## What `recover` finds -/

/-- For every file its number and its entries. -/
abbrev Layout := List (Nat × List CommandEntry)

def Layout.entries (l : Layout) : List CommandEntry := l.flatMap Prod.snd

/-- The entry `e` starts at `pos`. -/
def Layout.At (l : Layout) (pos : LogPosition) (e : CommandEntry) : Prop :=
  ∃ es₁ es₂, (pos.fileNum, es₁ ++ e :: es₂) ∈ l ∧ pos.offset = (entryCodec.flat es₁).length

@[simp] theorem Layout.entries_append (l m : Layout) : (l ++ m).entries = l.entries ++ m.entries := by
  simp [Layout.entries]

@[simp] theorem Layout.entries_cons (x : Nat × List CommandEntry) (l : Layout) :
    Layout.entries (x :: l) = x.2 ++ l.entries := by
  simp [Layout.entries]

@[simp] theorem Layout.entries_nil : Layout.entries [] = [] := rfl

/-- An entry keeps its place when files are added and the entries of a file extended. -/
theorem Layout.At.mono {l m : Layout} {pos : LogPosition} {e : CommandEntry} (h : l.At pos e)
    (hlm : ∀ num es, (num, es) ∈ l → ∃ more, (num, es ++ more) ∈ m) : m.At pos e := by
  obtain ⟨es₁, es₂, hmem, hoff⟩ := h
  obtain ⟨more, hm⟩ := hlm _ _ hmem
  exact ⟨es₁, es₂ ++ more, by simpa using hm, hoff⟩

/-- A file of the directory holds the entries `l.2` and possibly a torn one. -/
def FileHolds (f : LogFile) (l : Nat × List CommandEntry) : Prop :=
  f.fileNum = l.1 ∧ entryCodec.Holds f.data l.2

namespace CommandLog

/-- The loop of `recover` over the entries of one file. -/
def Recovered.addAll (fileNum : Nat) : Nat → List CommandEntry → Recovered → Recovered
  | _, [], r => r
  | offset, e :: es, r => addAll fileNum (offset + e.size) es (r.add fileNum offset e)

theorem recoverFile_eq {fileNum : Nat} {torn : Bytes} (ht : entryCodec.read torn = none) :
    ∀ {es : List CommandEntry} {fuel offset : Nat} {r : Recovered}, (∀ e ∈ es, e.Ok) →
      (entryCodec.flat es ++ torn).length ≤ fuel →
      recoverFile fileNum fuel (entryCodec.flat es ++ torn) offset r = Recovered.addAll fileNum offset es r
  | [], 0, _, _, _, _ => rfl
  | [], fuel + 1, _, _, _, _ => by
    rw [Codec.flat_nil, List.nil_append, recoverFile, show decodeCommandEntry torn = none from ht]
    rfl
  | e :: es, 0, _, _, _, hf => by
    have hl : (entryCodec.enc e).length = e.size := length_encode e
    rw [Codec.flat_cons, List.append_assoc, List.length_append, hl, CommandEntry.size] at hf
    omega
  | e :: es, fuel + 1, offset, r, hok, hf => by
    have hread := entryCodec.read_enc (hok e List.mem_cons_self) (entryCodec.flat es ++ torn)
    have hl : (entryCodec.enc e).length = e.size := length_encode e
    rw [Codec.flat_cons, List.append_assoc] at hf ⊢
    rw [List.length_append, hl, CommandEntry.size] at hf
    rw [recoverFile, show decodeCommandEntry _ = _ from hread]
    exact recoverFile_eq ht (fun x hx => hok x (List.mem_cons_of_mem _ hx)) (by omega)

theorem addAll_maxSeq {fileNum : Nat} : ∀ {es : List CommandEntry} {offset : Nat} {r : Recovered},
    (Recovered.addAll fileNum offset es r).maxSeq = maxSequence r.maxSeq es
  | [], _, _ => rfl
  | e :: es, offset, r => by
    rw [Recovered.addAll, addAll_maxSeq]
    rfl

theorem get_addAll_of_notMem {fileNum : Nat} {seq : UInt64} : ∀ {es : List CommandEntry} {offset : Nat}
    {r : Recovered}, seq ∉ es.map CommandEntry.sequence →
    (Recovered.addAll fileNum offset es r).index.get seq = r.index.get seq
  | [], _, _, _ => rfl
  | e :: es, offset, r, h => by
    rw [List.map_cons, List.mem_cons, not_or] at h
    rw [Recovered.addAll, get_addAll_of_notMem h.2]
    exact OrdMap.get_insert_ne _ _ h.1

/-- Every entry of a file is indexed at its offset. -/
theorem get_addAll {fileNum : Nat} : ∀ {es : List CommandEntry} {offset : Nat} {r : Recovered},
    (es.map CommandEntry.sequence).Nodup → ∀ e ∈ es, ∃ es₁ es₂, es = es₁ ++ e :: es₂ ∧
      (Recovered.addAll fileNum offset es r).index.get e.sequence
        = some { fileNum := fileNum, offset := offset + (entryCodec.flat es₁).length }
  | x :: es, offset, r, hnd, e, he => by
    rw [List.map_cons, List.nodup_cons] at hnd
    rcases List.mem_cons.1 he with rfl | he
    · refine ⟨[], es, rfl, ?_⟩
      rw [Recovered.addAll, get_addAll_of_notMem hnd.1, Recovered.add, OrdMap.get_insert_self]
      simp
    · obtain ⟨es₁, es₂, rfl, hget⟩ := @get_addAll fileNum es (offset + x.size) (r.add fileNum offset x) hnd.2 e he
      refine ⟨x :: es₁, es₂, rfl, ?_⟩
      have hl : (entryCodec.enc x).length = x.size := length_encode x
      rw [Recovered.addAll, hget, Codec.flat_cons, List.length_append, hl, Nat.add_assoc]

/-- `recover` over the files of a layout. -/
def Recovered.addFiles (l : Layout) (r : Recovered) : Recovered :=
  l.foldl (fun r x => Recovered.addAll x.1 0 x.2 r) r

theorem recover_eq {files : List LogFile} {l : Layout} (hf : List.Forall₂ FileHolds files l)
    (hok : ∀ e ∈ l.entries, e.Ok) : recover files = Recovered.addFiles l { index := OrdMap.empty, maxSeq := 0 } := by
  unfold recover Recovered.addFiles
  generalize ({ index := OrdMap.empty, maxSeq := 0 } : Recovered) = r
  induction hf generalizing r with
  | nil => rfl
  | @cons f x files l hfx _ ih =>
    obtain ⟨hnum, torn, hdata, ht⟩ := hfx
    rw [Layout.entries_cons] at hok
    rw [List.foldl_cons, List.foldl_cons, ← ih (fun e he => hok e (List.mem_append_right _ he)), hdata,
      recoverFile_eq ht (fun e he => hok e (List.mem_append_left _ he)) le_rfl, hnum]

theorem addFiles_maxSeq : ∀ {l : Layout} {r : Recovered},
    (Recovered.addFiles l r).maxSeq = maxSequence r.maxSeq l.entries
  | [], _ => rfl
  | x :: l, r => by
    rw [Recovered.addFiles, List.foldl_cons, ← Recovered.addFiles, addFiles_maxSeq, addAll_maxSeq, Layout.entries_cons]
    simp only [maxSequence, List.foldl_append]

theorem get_addFiles_of_notMem {seq : UInt64} : ∀ {l : Layout} {r : Recovered},
    seq ∉ l.entries.map CommandEntry.sequence → (Recovered.addFiles l r).index.get seq = r.index.get seq
  | [], _, _ => rfl
  | x :: l, r, h => by
    rw [Layout.entries_cons, List.map_append, List.mem_append, not_or] at h
    rw [Recovered.addFiles, List.foldl_cons, ← Recovered.addFiles, get_addFiles_of_notMem h.2,
      get_addAll_of_notMem h.1]

/-- **Every entry is indexed** at the file and the offset it starts at. -/
theorem get_addFiles : ∀ {l : Layout} {r : Recovered}, (l.entries.map CommandEntry.sequence).Nodup →
    ∀ e ∈ l.entries, ∃ pos, (Recovered.addFiles l r).index.get e.sequence = some pos ∧ l.At pos e
  | x :: l, r, hnd, e, he => by
    rw [Layout.entries_cons] at hnd he
    rw [List.map_append, List.nodup_append] at hnd
    obtain ⟨hx, hl, hdisj⟩ := hnd
    rw [Recovered.addFiles, List.foldl_cons, ← Recovered.addFiles]
    rcases List.mem_append.1 he with he | he
    · have hout : e.sequence ∉ (Layout.entries l).map CommandEntry.sequence := fun h =>
        hdisj _ (List.mem_map_of_mem he) _ h rfl
      obtain ⟨es₁, es₂, hes, hget⟩ := @get_addAll x.1 x.2 0 r hx e he
      refine ⟨_, by rw [get_addFiles_of_notMem hout, hget], es₁, es₂, ?_, by simp⟩
      rw [← hes]
      exact List.mem_cons_self
    · obtain ⟨pos, hget, hat⟩ := @get_addFiles l (Recovered.addAll x.1 0 x.2 r) hl e he
      refine ⟨pos, hget, hat.mono fun num es hm => ⟨[], ?_⟩⟩
      simpa using List.mem_cons_of_mem x hm

end CommandLog

end RocksKV.Storage
