import RocksKV.Storage.LogRecovery
/-!
# Reading the log through its index

`ReadFrom` seeks to the position the index gives for the first sequence number from `fromSeq` on and reads
from there; without a position, or when that read comes back empty, it scans every file. In a log that is in
shape both return the same entries (`readFrom_eq`): what lies before the position has smaller numbers, and a
position in the part of the current file that is still buffered reads nothing.
-/

namespace RocksKV.Storage

open Lib CommandLog

theorem Numbered.pairwise {es : List CommandEntry} (h : Numbered es) :
    es.Pairwise fun a b => a.sequence < b.sequence := by
  have h1 : (es.map fun e => e.sequence.toNat).Pairwise (· < ·) := by
    rw [h]
    exact List.pairwise_lt_range'
  rw [List.pairwise_map] at h1
  exact h1.imp fun hab => UInt64.lt_iff_toNat_lt.2 hab

theorem Numbered.sequence_getElem {es : List CommandEntry} (h : Numbered es) {i : Nat} (hi : i < es.length) :
    es[i].sequence.toNat = i + 1 := by
  have hget := congrArg (fun l : List Nat => l[i]?) h
  simp only [List.getElem?_map, List.getElem?_eq_getElem hi, List.getElem?_range' hi, Option.map_some] at hget
  have := Option.some.inj hget
  omega

/-- The entries after the first `seq`. -/
theorem Numbered.filter_lt {es : List CommandEntry} (h : Numbered es) (seq : UInt64) :
    (es.filter fun e => seq < e.sequence) = es.drop seq.toNat := by
  conv_lhs => rw [← List.take_append_drop seq.toNat es]
  have hbefore : ((es.take seq.toNat).filter fun e => seq < e.sequence) = [] := by
    rw [List.filter_eq_nil_iff]
    intro e he
    obtain ⟨i, hi, rfl⟩ := List.getElem_of_mem he
    rw [List.length_take] at hi
    have hseq := h.sequence_getElem (show i < es.length by omega)
    simp only [List.getElem_take, decide_eq_true_eq, UInt64.lt_iff_toNat_lt]
    omega
  have hafter : ((es.drop seq.toNat).filter fun e => seq < e.sequence) = es.drop seq.toNat := by
    rw [List.filter_eq_self]
    intro e he
    obtain ⟨i, hi, rfl⟩ := List.getElem_of_mem he
    rw [List.length_drop] at hi
    have hseq := h.sequence_getElem (show seq.toNat + i < es.length by omega)
    simp only [List.getElem_drop, decide_eq_true_eq, UInt64.lt_iff_toNat_lt]
    omega
  rw [List.filter_append, hbefore, hafter, List.nil_append]

theorem forall₂_split {α β : Type} {R : α → β → Prop} {l m : List α} {x : α} {ys : List β}
    (h : List.Forall₂ R (l ++ x :: m) ys) :
    ∃ l' y m', ys = l' ++ y :: m' ∧ List.Forall₂ R l l' ∧ R x y ∧ List.Forall₂ R m m' := by
  induction l generalizing ys with
  | nil =>
    rw [List.nil_append] at h
    cases h with
    | cons hxy hm => exact ⟨[], _, _, rfl, .nil, hxy, hm⟩
  | cons a l ih =>
    rw [List.cons_append] at h
    cases h with
    | cons hab hrest =>
      obtain ⟨l', y, m', rfl, hl, hxy, hm⟩ := ih hrest
      exact ⟨_ :: l', y, m', rfl, .cons hab hl, hxy, hm⟩

/-- The file with the number sought, and those after it. -/
theorem dropWhile_split {l m : List LogFile} {g : LogFile}
    (hnames : ((l ++ g :: m).map LogFile.fileNum).Pairwise (· < ·)) :
    (l ++ g :: m).dropWhile (fun f => f.fileNum ≠ g.fileNum) = g :: m := by
  rw [List.map_append, List.pairwise_append] at hnames
  rw [List.dropWhile_append_of_pos fun f hf => ?_, List.dropWhile_cons_of_neg (by simp)]
  have hlt := hnames.2.2 f.fileNum (List.mem_map_of_mem hf) g.fileNum (by simp)
  simpa using hlt.ne

theorem dropWhile_files {num : Nat} {es : List CommandEntry} {l m : Layout} {files : List LogFile}
    (h : List.Forall₂ FileHolds files (l ++ (num, es) :: m)) (hnames : (files.map LogFile.fileNum).Pairwise (· < ·)) :
    ∃ f rest, files.dropWhile (fun f => f.fileNum ≠ num) = f :: rest ∧ FileHolds f (num, es) ∧
      List.Forall₂ FileHolds rest m := by
  obtain ⟨l', f, rest, rfl, -, hf, hrest⟩ := forall₂_split h.flip
  obtain rfl : f.fileNum = num := hf.1
  exact ⟨f, rest, dropWhile_split hnames, hf, hrest.flip⟩

/-- An indexed read finds the rest of the file it starts in, and the files after it. -/
theorem readFromIndex_of_dropWhile {cl : CommandLog} {pos : LogPosition} {f : LogFile} {rest : List LogFile}
    (h : cl.files.dropWhile (fun f => f.fileNum ≠ pos.fileNum) = f :: rest) (fromSeq : UInt64) (limit : Nat) :
    cl.readFromIndex pos fromSeq limit =
      .ok (((entryCodec.frames (f.data.drop pos.offset) ++ rest.flatMap fun f => entryCodec.frames f.data).filter
        fun e => fromSeq ≤ e.sequence).take limit) := by
  unfold readFromIndex
  rw [h]
  simp only [readFiles_nil, List.flatMap_cons]

/-- Nothing from `fromSeq` on lies before the position, so reading from there is as good as a full scan. -/
theorem readFromIndex_eq {cl : CommandLog} {l m : Layout} {pos : LogPosition} {es₁ es₂ : List CommandEntry}
    (h : List.Forall₂ FileHolds cl.files (l ++ (pos.fileNum, es₁ ++ es₂) :: m))
    (hnames : (cl.files.map LogFile.fileNum).Pairwise (· < ·))
    (hok : ∀ e ∈ Layout.entries (l ++ (pos.fileNum, es₁ ++ es₂) :: m), e.Ok)
    (hoff : pos.offset = (entryCodec.flat es₁).length) {fromSeq : UInt64}
    (hsmall : ∀ e ∈ l.entries ++ es₁, e.sequence < fromSeq) (limit : Nat) :
    cl.readFromIndex pos fromSeq limit = .ok (cl.readFromFullScan fromSeq limit) := by
  have hscan : cl.readable = (l.entries ++ es₁) ++ (es₂ ++ m.entries) := by
    rw [show cl.readable = _ from frames_files h hok]
    simp
  have hnone : (l.entries ++ es₁).filter (fun e => fromSeq ≤ e.sequence) = [] := by
    rw [List.filter_eq_nil_iff]
    intro e he
    simpa using hsmall e he
  obtain ⟨f, rest, hdrop, ⟨-, torn, hdata, ht⟩, hrest⟩ := dropWhile_files h hnames
  have hok₂ : ∀ e ∈ es₂, e.Ok := fun e he => hok e (by simp [he])
  have hfront : entryCodec.frames (f.data.drop pos.offset) = es₂ := by
    rw [hdata, hoff, Codec.drop_flat]
    exact Codec.Holds.frames ⟨torn, rfl, ht⟩ hok₂
  have hback : (rest.flatMap fun f => entryCodec.frames f.data) = m.entries :=
    frames_files hrest fun e he => hok e (by simp [he])
  rw [readFromFullScan_eq, hscan, List.filter_append, hnone, List.nil_append, readFromIndex_of_dropWhile hdrop, hfront,
    hback]

section
variable {s : LogRun} {old : Layout} {cur : List CommandEntry}

/-- The files of a log in shape: the current one holds the entries that have been flushed whole, and all that
end before its end. -/
theorem Shape.onDisk (h : Shape s old cur) :
    ∃ k ≤ cur.length, List.Forall₂ FileHolds s.log.files (old ++ [(s.log.current.fileNum, cur.take k)]) ∧
      ∀ j ≤ cur.length, (entryCodec.flat (cur.take j)).length ≤ s.log.current.data.length → j ≤ k := by
  obtain ⟨k, hk, hfiles, hmax⟩ := h.cut le_rfl
  refine ⟨k, hk, ?_, hmax⟩
  rwa [CommandLog.surviving, List.take_length] at hfiles

/-- **What can be read** is a prefix of the entries. -/
theorem Shape.readable (h : Shape s old cur) : ∃ k, s.log.readable = s.entries.take k := by
  obtain ⟨k, hk, hfiles, -⟩ := h.onDisk
  have hle : Layout.entries (old ++ [(s.log.current.fileNum, cur.take k)])
      = s.entries.take (old.entries.length + k) := by
    rw [h.entries, List.take_length_add_append]
    simp
  refine ⟨old.entries.length + k, ?_⟩
  rw [← hle]
  exact frames_files hfiles fun e he => h.ok e (List.mem_of_mem_take (hle ▸ he))

/-- **The place of an entry** is in the buffer, behind the end of the current file, or in a file, behind the entries
`es₁` of it. -/
theorem Shape.place (h : Shape s old cur) {pos : LogPosition} {e : CommandEntry}
    (hat : Layout.At (old ++ [(s.log.current.fileNum, cur)]) pos e) :
    (pos.fileNum = s.log.current.fileNum ∧ s.log.current.data.length < pos.offset) ∨
      ∃ l m es₁ es₂ after, List.Forall₂ FileHolds s.log.files (l ++ (pos.fileNum, es₁ ++ es₂) :: m) ∧
        (∀ x ∈ Layout.entries (l ++ (pos.fileNum, es₁ ++ es₂) :: m), x.Ok) ∧
        pos.offset = (entryCodec.flat es₁).length ∧ s.entries = (Layout.entries l ++ es₁) ++ e :: after := by
  obtain ⟨k, hk, hfiles, hmax⟩ := h.onDisk
  obtain ⟨es₁, es₂, hmem, hoff⟩ := hat
  have hok : ∀ x ∈ Layout.entries (old ++ [(s.log.current.fileNum, cur.take k)]), x.Ok := fun x hx =>
    h.ok x (by
      rw [h.entries]
      simp only [Layout.entries_append, Layout.entries_cons, Layout.entries_nil, List.append_nil, List.mem_append] at hx ⊢
      exact hx.imp_right List.mem_of_mem_take)
  rcases List.mem_append.1 hmem with hold | hlast
  · obtain ⟨l, m, rfl⟩ := List.append_of_mem hold
    rw [List.append_assoc, List.cons_append] at hfiles hok
    refine .inr ⟨l, _, es₁, e :: es₂, es₂ ++ (Layout.entries m ++ cur), hfiles, hok, hoff, ?_⟩
    rw [h.entries]
    simp
  · obtain ⟨hnum, rfl⟩ : pos.fileNum = s.log.current.fileNum ∧ es₁ ++ e :: es₂ = cur := by simpa using hlast
    rcases Nat.lt_or_ge s.log.current.data.length pos.offset with hbuf | hdisk
    · exact .inl ⟨hnum, hbuf⟩
    · have hle : es₁.length ≤ k := hmax es₁.length (by simp) (by rw [List.take_left, ← hoff]; exact hdisk)
      rw [List.take_append, List.take_of_length_le hle, ← hnum] at hfiles hok
      refine .inr ⟨old, [], es₁, _, es₂, hfiles, hok, hoff, ?_⟩
      rw [h.entries, List.append_assoc]

theorem Shape.readFromIndex (h : Shape s old cur) {pos : LogPosition} {e : CommandEntry}
    (hat : Layout.At (old ++ [(s.log.current.fileNum, cur)]) pos e) {fromSeq : UInt64}
    (hsmall : ∀ x ∈ s.entries, x.sequence < e.sequence → x.sequence < fromSeq) (limit : Nat) :
    s.log.readFromIndex pos fromSeq limit = .ok [] ∨
      s.log.readFromIndex pos fromSeq limit = .ok (s.log.readFromFullScan fromSeq limit) := by
  rcases h.place hat with ⟨hnum, hbuf⟩ | ⟨l, m, es₁, es₂, after, hfiles, hok, hoff, hentries⟩
  · -- the position is still buffered: the file ends before it
    have hcur : s.log.files.dropWhile (fun f => f.fileNum ≠ pos.fileNum) = [s.log.current] := by
      rw [hnum]
      exact dropWhile_split h.names
    left
    rw [readFromIndex_of_dropWhile hcur, List.drop_eq_nil_of_le hbuf.le, entryCodec.frames_of_none entryCodec.read_nil]
    simp
  · have hp := h.numbered.pairwise
    rw [hentries, List.pairwise_append] at hp
    refine .inr (readFromIndex_eq hfiles h.names hok hoff (fun x hx => hsmall x ?_ ?_) limit)
    · rw [hentries]
      exact List.mem_append_left _ hx
    · exact hp.2.2 x hx e List.mem_cons_self

end

/-- The position found is that of the first sequence number from `fromSeq` on that the index has. -/
theorem startPos_eq {cl : CommandLog} {fromSeq : UInt64} {pos : LogPosition} (h : cl.startPos fromSeq = some pos) :
    ∃ i, fromSeq.toNat + i ≤ cl.currentSeq.toNat ∧ cl.index.get (fromSeq + UInt64.ofNat i) = some pos ∧
      ∀ j < i, cl.index.get (fromSeq + UInt64.ofNat j) = none := by
  unfold startPos at h
  obtain ⟨before, i, after, hrange, hget, hnone⟩ := List.findSome?_eq_some_iff.1 h
  have hi : i ∈ List.range (cl.currentSeq.toNat + 1 - fromSeq.toNat) := by
    rw [hrange]
    exact List.mem_append_right _ List.mem_cons_self
  rw [List.mem_range] at hi
  refine ⟨i, by omega, hget, fun j hj => hnone j ?_⟩
  have hmem : j ∈ before ++ i :: after := by
    rw [← hrange, List.mem_range]
    omega
  have hp : (before ++ i :: after).Pairwise (· < ·) := hrange ▸ List.pairwise_lt_range
  rw [List.pairwise_append, List.pairwise_cons] at hp
  rcases List.mem_append.1 hmem with hb | hb
  · exact hb
  · rcases List.mem_cons.1 hb with rfl | ha
    · omega
    · have := hp.2.1.1 j ha
      omega

/-- Where the index has exactly the entries `es`, at their places in `l`, the position found is that of the first of them
from `fromSeq` on. -/
theorem startPos_entry {cl : CommandLog} {es : List CommandEntry} {l : Layout}
    (hindex : ∀ e ∈ es, ∃ pos, cl.index.get e.sequence = some pos ∧ l.At pos e)
    (hother : ∀ seq ∉ es.map CommandEntry.sequence, cl.index.get seq = none) {fromSeq : UInt64} {pos : LogPosition}
    (h : cl.startPos fromSeq = some pos) :
    ∃ e ∈ es, l.At pos e ∧ fromSeq ≤ e.sequence ∧ ∀ x ∈ es, x.sequence < e.sequence → x.sequence < fromSeq := by
  obtain ⟨i, hi, hget, hnone⟩ := startPos_eq h
  have hlt := cl.currentSeq.toNat_lt
  have hseq : ∀ j ≤ i, (fromSeq + UInt64.ofNat j).toNat = fromSeq.toNat + j := by
    intro j hj
    rw [UInt64.toNat_add, UInt64.toNat_ofNat', Nat.add_mod_mod]
    exact Nat.mod_eq_of_lt (by omega)
  obtain ⟨e, he, hes⟩ : ∃ e ∈ es, e.sequence = fromSeq + UInt64.ofNat i := by
    by_contra hno
    push Not at hno
    rw [hother _ (by simpa using hno)] at hget
    cases hget
  have hat : l.At pos e := by
    obtain ⟨pos', hget', hat⟩ := hindex e he
    rw [hes, hget] at hget'
    cases hget'
    exact hat
  have hfrom : fromSeq ≤ e.sequence := by
    rw [UInt64.le_iff_toNat_le, hes, hseq i le_rfl]
    omega
  refine ⟨e, he, hat, hfrom, fun x hx hxe => ?_⟩
  by_contra hge
  rw [UInt64.lt_iff_toNat_lt, hes, hseq i le_rfl] at hxe
  rw [UInt64.lt_iff_toNat_lt] at hge
  have hxs : x.sequence = fromSeq + UInt64.ofNat (x.sequence.toNat - fromSeq.toNat) := by
    apply UInt64.toNat_inj.1
    rw [hseq _ (by omega)]
    omega
  obtain ⟨pos', hget', -⟩ := hindex x hx
  rw [hxs, hnone _ (by omega)] at hget'
  cases hget'

/-- An indexed read that finds nothing is followed by a scan. -/
theorem readFrom_eq_fullScan {cl : CommandLog} {fromSeq : UInt64} {limit : Nat}
    (h : ∀ pos, cl.startPos fromSeq = some pos →
      cl.readFromIndex pos fromSeq limit = .ok [] ∨
        cl.readFromIndex pos fromSeq limit = .ok (cl.readFromFullScan fromSeq limit)) :
    cl.readFrom fromSeq limit = cl.readFromFullScan fromSeq limit := by
  unfold readFrom
  cases hpos : cl.startPos fromSeq with
  | none => rfl
  | some pos =>
    rcases h pos hpos with hr | hr
    · simp only [hr]
    · simp only [hr]
      cases cl.readFromFullScan fromSeq limit <;> rfl

/-- In a log that is in shape, `ReadFrom` returns what a scan of every file finds. -/
theorem readFrom_eq {s : LogRun} (h : LogInv s) (fromSeq : UInt64) (limit : Nat) :
    s.log.readFrom fromSeq limit = (s.log.readable.filter fun e => fromSeq ≤ e.sequence).take limit := by
  obtain ⟨old, cur, h⟩ := h
  rw [← readFromFullScan_eq]
  refine readFrom_eq_fullScan fun pos hpos => ?_
  -- the position is that of an entry, and all before it are below `fromSeq`
  obtain ⟨e, he, hat, -, hsmall⟩ := startPos_entry h.index h.noOther hpos
  exact h.readFromIndex hat hsmall limit

/-- **A batch is the next stretch of the log**: `ReadFrom` returns the entries after the watermark, up to some place. -/
theorem readFrom_succ {log : LogRun} (h : LogInv log) {seq : UInt64} (hseq : seq < log.log.currentSeq) (limit : Nat) :
    ∃ b ≤ log.entries.length, log.log.readFrom (seq + 1) limit = (log.entries.take b).drop seq.toNat := by
  have hread := readFrom_eq h (seq + 1) limit
  obtain ⟨old, cur, h⟩ := h
  obtain ⟨k, hk⟩ := h.readable
  have hnum : Numbered (log.entries.take k) := Numbered.of_append (by rw [List.take_append_drop]; exact h.numbered)
  have hsucc : (fun e : CommandEntry => decide (seq + 1 ≤ e.sequence)) = fun e => decide (seq < e.sequence) := by
    funext e
    have h1 : (seq + 1).toNat = seq.toNat + 1 := by
      rw [UInt64.toNat_add, show (1 : UInt64).toNat = 1 from rfl]
      have := UInt64.lt_iff_toNat_lt.1 hseq
      have := log.log.currentSeq.toNat_lt
      exact Nat.mod_eq_of_lt (by omega)
    rw [decide_eq_decide, UInt64.le_iff_toNat_le, UInt64.lt_iff_toNat_lt, h1]
    rfl
  rw [hread, hk, hsucc, hnum.filter_lt]
  refine ⟨min (min (seq.toNat + limit) k) log.entries.length, min_le_right _ _, ?_⟩
  rw [List.take_drop, List.take_take, ← List.take_eq_take_min]

theorem LogInv.numbered {log : LogRun} (h : LogInv log) : Numbered log.entries := by
  obtain ⟨old, cur, h⟩ := h
  exact Shape.numbered h

/-- What a stretch of the log holds, by number. -/
theorem Numbered.mem_stretch {es : List CommandEntry} (hnum : Numbered es) {a b : Nat} {x : CommandEntry} (hx : x ∈ es) :
    x ∈ (es.take b).drop a ↔ a < x.sequence.toNat ∧ x.sequence.toNat ≤ b := by
  obtain ⟨i, hi, rfl⟩ := List.getElem_of_mem hx
  rw [hnum.sequence_getElem hi, List.mem_drop_iff_getElem]
  constructor
  · rintro ⟨j, hj, hget⟩
    rw [List.length_take] at hj
    rw [List.getElem_take] at hget
    have hseq := hnum.sequence_getElem (show a + j < es.length by omega)
    rw [hget, hnum.sequence_getElem hi] at hseq
    omega
  · rintro ⟨ha, hb⟩
    refine ⟨i - a, by rw [List.length_take]; omega, ?_⟩
    simp only [List.getElem_take, show a + (i - a) = i by omega]

/-- The last sequence number of a batch is where it ends. -/
theorem last_stretch {es : List CommandEntry} (hnum : Numbered es) {a b : Nat} (hb : b ≤ es.length) {e : CommandEntry}
    {rest : List CommandEntry} (h : (es.take b).drop a = e :: rest) (d : CommandEntry) :
    ((e :: rest).getLastD d).sequence.toNat = b := by
  have hlen := congrArg List.length h
  simp only [List.length_cons, List.length_drop, List.length_take] at hlen
  have hget : (e :: rest).getLast? = es[b - 1]? := by
    rw [← h, List.getLast?_drop, if_neg (by rw [List.length_take]; omega), List.getLast?_take, if_neg (by omega)]
    rw [List.getElem?_eq_getElem (by omega)]
    rfl
  rw [List.getElem?_eq_getElem (by omega)] at hget
  rw [List.getLastD_eq_getLast?, hget, Option.getD_some, hnum.sequence_getElem]
  omega

/-- **The indexed read agrees with the full scan**: in every log that appends, partial flushes, syncs,
rotations, crashes and reopens lead to, both return the first `limit` entries from `fromSeq` on among those
that decode from the files in name order. -/
theorem readFrom_eq_readFromFullScan {partitionID : UInt32} {fileTime : Nat} {as : List LogAct} {s : LogRun}
    (hsane : Along logStep Sane (LogRun.start partitionID fileTime) as)
    (hrun : run logStep (LogRun.start partitionID fileTime) as = some s) (fromSeq : UInt64) (limit : Nat) :
    s.log.readFrom fromSeq limit = s.log.readFromFullScan fromSeq limit ∧
      s.log.readFromFullScan fromSeq limit = (s.log.readable.filter fun e => fromSeq ≤ e.sequence).take limit := by
  have h : LogInv s :=
    run_inv_along (fun _ _ _ hi hc hst => logInv_step hi hc hst) (logInv_start partitionID fileTime) hsane hrun
  constructor
  · rw [readFrom_eq h, readFromFullScan_eq]
  · exact readFromFullScan_eq s.log fromSeq limit

/-- The position of the second entry of `tornWrites` is on disk, but not the whole entry. -/
theorem readFrom_torn_entry : ∃ s, run logStep (LogRun.start 0 1) tornWrites = some s ∧
    s.log.readFrom 2 5 = s.log.readFromFullScan 2 5 ∧
      s.log.readFromFullScan 2 5 = (s.log.readable.filter fun e => 2 ≤ e.sequence).take 5 := by
  refine ⟨_, rfl, @readFrom_eq_readFromFullScan 0 1 tornWrites _ ?_ rfl 2 5⟩
  decide

end RocksKV.Storage
