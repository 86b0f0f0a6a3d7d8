import RocksKV.Lib.Run
import RocksKV.Storage.LogLayout
/-!
# Crash recovery of the command log

A run of the log: appends (with the rotations they cause), flushes of any prefix of the write buffer, syncs,
and crashes, each followed by `NewCommandLog`. A crash takes the buffer and any part of the current file that
its last `fsync` does not cover. `entries` is what has been appended and not been lost to a crash.

`Shape s old cur` ties the bytes on disk, the buffer, the index and the counters to it: every older file
holds the frames of its part of the entries and possibly a torn one, and the current file and the buffer
together hold the frames of the rest. A crash cuts the current file between two frames or inside one
(`Codec.exists_cut`), so what `recover` decodes is a prefix of `entries` that includes everything synced.
-/

namespace RocksKV.Storage

open Lib CommandLog

/-! ## Runs -/

structure LogRun where
  log     : CommandLog
  /-- The entries appended and not lost. -/
  entries : List CommandEntry

/-- A log opened on an empty directory. -/
def LogRun.start (partitionID : UInt32) (fileTime : Nat) : LogRun :=
  { log := newCommandLog partitionID [] fileTime, entries := [] }

inductive LogAct
  | append (timestamp : Int64) (fileTime : Nat) (cmdType : UInt8) (key value : Bytes)
  | flush (n : Nat)
  | sync
  /-- The current file keeps `keep` bytes, and the log is opened again. -/
  | crash (keep fileTime : Nat)

/-- The files after a crash. -/
def CommandLog.surviving (cl : CommandLog) (keep : Nat) : List LogFile :=
  cl.older ++ [{ cl.current with data := cl.current.data.take keep }]

/-- The log opened on them; what it does not find is lost. -/
def LogRun.reopen (s : LogRun) (keep fileTime : Nat) : LogRun :=
  let log := newCommandLog s.log.partitionID (s.log.surviving keep) fileTime
  { log := log, entries := s.entries.take log.currentSeq.toNat }

def logStep (s : LogRun) : LogAct → Option LogRun
  | .append timestamp fileTime cmdType key value =>
    match s.log.append timestamp fileTime cmdType key value with
    | .error _ => none
    | .ok (log, seq) => some { log := log, entries := s.entries ++ [newEntry seq timestamp cmdType key value] }
  | .flush n => some { s with log := s.log.flush n }
  | .sync => some { s with log := s.log.sync }
  | .crash keep fileTime =>
    if s.log.synced ≤ keep ∧ keep ≤ s.log.current.data.length then some (s.reopen keep fileTime) else none

/-- Keys and values fit the length fields, the sequence counter does not wrap, and the clock moves on between
the names of two files. -/
def Sane (s : LogRun) : LogAct → Prop
  | .append _ fileTime _ key value =>
    key.length < 2 ^ 32 ∧ value.length < 2 ^ 32 ∧ s.log.currentSeq.toNat + 1 < 2 ^ 64 ∧
      ∀ f ∈ s.log.files, f.fileNum < fileTime
  | .crash _ fileTime => ∀ f ∈ s.log.files, f.fileNum < fileTime
  | .flush _ => True
  | .sync => True

instance : ∀ (s : LogRun) (a : LogAct), Decidable (Sane s a)
  | s, .append _ fileTime _ key value => inferInstanceAs (Decidable (key.length < 2 ^ 32 ∧ value.length < 2 ^ 32 ∧
      s.log.currentSeq.toNat + 1 < 2 ^ 64 ∧ ∀ f ∈ s.log.files, f.fileNum < fileTime))
  | s, .crash _ fileTime => inferInstanceAs (Decidable (∀ f ∈ s.log.files, f.fileNum < fileTime))
  | _, .flush _ => inferInstanceAs (Decidable True)
  | _, .sync => inferInstanceAs (Decidable True)

/-! ## The invariant -/

structure Shape (s : LogRun) (old : Layout) (cur : List CommandEntry) : Prop where
  older    : List.Forall₂ FileHolds s.log.older old
  current  : s.log.current.data ++ s.log.buffer = entryCodec.flat cur
  size     : s.log.currentSize = (entryCodec.flat cur).length
  entries  : s.entries = old.entries ++ cur
  ok       : ∀ e ∈ s.entries, e.Ok
  numbered : Numbered s.entries
  seq      : s.log.currentSeq.toNat = s.entries.length
  synced   : s.log.synced ≤ s.log.current.data.length
  /-- Every synced entry is in an older file, or in the part of the current one that an `fsync` covers. -/
  durable  : ∃ k ≤ cur.length, (entryCodec.flat (cur.take k)).length ≤ s.log.synced ∧
    s.log.lastSyncSeq.toNat ≤ old.entries.length + k
  index    : ∀ e ∈ s.entries, ∃ pos, s.log.index.get e.sequence = some pos ∧
    Layout.At (old ++ [(s.log.current.fileNum, cur)]) pos e
  noOther  : ∀ seq ∉ s.entries.map CommandEntry.sequence, s.log.index.get seq = none
  names    : (s.log.files.map LogFile.fileNum).Pairwise (· < ·)

def LogInv (s : LogRun) : Prop := ∃ old cur, Shape s old cur

theorem logInv_start (partitionID : UInt32) (fileTime : Nat) : LogInv (LogRun.start partitionID fileTime) :=
  ⟨[], [], by constructor <;> simp [LogRun.start, newCommandLog, Numbered, CommandLog.recover, files]⟩

section
variable {s : LogRun} {old : Layout} {cur : List CommandEntry}

/-- A newer name goes at the end. -/
theorem names_concat {l : List LogFile} (h : (l.map LogFile.fileNum).Pairwise (· < ·)) {f : LogFile}
    (hf : ∀ g ∈ l, g.fileNum < f.fileNum) : ((l ++ [f]).map LogFile.fileNum).Pairwise (· < ·) := by
  rw [List.map_append, List.pairwise_append]
  refine ⟨h, by simp, fun a ha b hb => ?_⟩
  obtain ⟨g, hg, rfl⟩ := List.mem_map.1 ha
  obtain rfl : b = f.fileNum := by simpa using hb
  exact hf g hg

theorem Shape.write (h : Shape s old cur) {e : CommandEntry} (he : e.Ok)
    (hseq : e.sequence.toNat = s.entries.length + 1) :
    Shape { log := s.log.write e, entries := s.entries ++ [e] } old (cur ++ [e]) := by
  have hnum : Numbered (s.entries ++ [e]) := h.numbered.concat hseq
  refine
    { older := h.older
      current := ?_
      size := ?_
      entries := by rw [h.entries, List.append_assoc]
      ok := ?_
      numbered := hnum
      seq := by simpa [CommandLog.write] using hseq
      synced := h.synced
      durable := ?_
      index := ?_
      noOther := ?_
      names := h.names }
  · rw [Codec.flat_append, ← h.current, List.append_assoc]
    simp [CommandLog.write, entryCodec]
  · rw [Codec.flat_append, List.length_append, ← h.size]
    simp [CommandLog.write, entryCodec]
  · intro x hx
    rcases List.mem_append.1 hx with hx | hx
    · exact h.ok x hx
    · obtain rfl : x = e := by simpa using hx
      exact he
  · obtain ⟨k, hk, hlen, hsync⟩ := h.durable
    refine ⟨k, by simp; omega, ?_, hsync⟩
    rw [List.take_append_of_le_length hk]
    exact hlen
  · intro x hx
    rcases List.mem_append.1 hx with hx | hx
    · obtain ⟨pos, hget, hat⟩ := h.index x hx
      have hne : x.sequence ≠ e.sequence := by
        have hnd := hnum.nodup
        rw [List.map_append, List.nodup_append] at hnd
        exact hnd.2.2 _ (List.mem_map_of_mem hx) _ (by simp)
      refine ⟨pos, (OrdMap.get_insert_ne _ _ hne).trans hget, hat.mono fun num es hm => ?_⟩
      rcases List.mem_append.1 hm with hm | hm
      · exact ⟨[], by simpa using Or.inl hm⟩
      · obtain ⟨rfl, rfl⟩ : num = s.log.current.fileNum ∧ es = cur := by simpa using hm
        exact ⟨[e], List.mem_append_right _ List.mem_cons_self⟩
    · obtain rfl : x = e := by simpa using hx
      refine ⟨_, OrdMap.get_insert_self _ _ _, cur, [], ?_, h.size⟩
      exact List.mem_append_right _ List.mem_cons_self
  · intro seq hout
    rw [List.map_append, List.mem_append, not_or] at hout
    have hne : seq ≠ e.sequence := by simpa using hout.2
    exact (OrdMap.get_insert_ne _ _ hne).trans (h.noOther seq hout.1)

theorem Shape.flush (h : Shape s old cur) (n : Nat) : Shape { s with log := s.log.flush n } old cur where
  older    := h.older
  current  := by
    rw [← h.current]
    simp [CommandLog.flush]
  size     := h.size
  entries  := h.entries
  ok       := h.ok
  numbered := h.numbered
  seq      := h.seq
  synced   := by
    have := h.synced
    simp [CommandLog.flush]
    omega
  durable  := h.durable
  index    := h.index
  noOther  := h.noOther
  names    := by simpa [CommandLog.flush, files] using h.names

/-- After `Flush` and `fsync` the current file holds all of its entries, for good. -/
theorem Shape.flushSync (h : Shape s old cur) (seq : UInt64) (hseq : seq.toNat ≤ s.entries.length) :
    Shape { s with log := { s.log.flushSync with lastSyncSeq := seq } } old cur where
  older    := h.older
  current  := by
    rw [← h.current]
    simp [CommandLog.flushSync, CommandLog.flush]
  size     := h.size
  entries  := h.entries
  ok       := h.ok
  numbered := h.numbered
  seq      := h.seq
  synced   := by simp [CommandLog.flushSync, CommandLog.flush]
  durable  := by
    refine ⟨cur.length, le_rfl, ?_, ?_⟩
    · rw [List.take_length, ← h.current]
      rfl
    · rw [h.entries, List.length_append] at hseq
      exact hseq
  index    := h.index
  noOther  := h.noOther
  names    := by simpa [CommandLog.flushSync, CommandLog.flush, files] using h.names

theorem Shape.lastSyncSeq_le (h : Shape s old cur) : s.log.lastSyncSeq.toNat ≤ s.entries.length := by
  obtain ⟨k, hk, -, hsync⟩ := h.durable
  rw [h.entries, List.length_append]
  omega

theorem Shape.rotate (h : Shape s old cur) {fileTime : Nat} (ht : ∀ f ∈ s.log.files, f.fileNum < fileTime) :
    Shape { s with log := s.log.rotateLogFile fileTime } (old ++ [(s.log.current.fileNum, cur)]) [] := by
  have hdata : s.log.flushSync.current.data = entryCodec.flat cur := by
    rw [← h.current]
    simp [CommandLog.flushSync, CommandLog.flush]
  refine
    { older := ?_
      current := by simp [CommandLog.rotateLogFile, CommandLog.flushSync, CommandLog.flush]
      size := rfl
      entries := by simpa using h.entries
      ok := h.ok
      numbered := h.numbered
      seq := h.seq
      synced := le_rfl
      durable := ⟨0, le_rfl, le_rfl, ?_⟩
      index := ?_
      noOther := h.noOther
      names := ?_ }
  · refine List.rel_append h.older (List.Forall₂.cons ⟨rfl, ?_⟩ List.Forall₂.nil)
    rw [hdata]
    exact Codec.holds_flat cur
  · have := h.lastSyncSeq_le
    rw [h.entries] at this
    simpa [CommandLog.rotateLogFile, CommandLog.flushSync, CommandLog.flush] using this
  · intro e he
    obtain ⟨pos, hget, hat⟩ := h.index e he
    refine ⟨pos, hget, hat.mono fun num es hm => ⟨[], ?_⟩⟩
    rw [List.append_nil]
    exact List.mem_append_left _ hm
  · refine names_concat (l := s.log.older ++ [s.log.flushSync.current]) ?_ fun g hg => ?_
    · simpa [CommandLog.flushSync, CommandLog.flush, files] using h.names
    · rcases List.mem_append.1 hg with hg | hg
      · exact ht g (List.mem_append_left _ hg)
      · obtain rfl : g = s.log.flushSync.current := by simpa using hg
        exact ht s.log.current (List.mem_append_right _ (by simp))

/-- **An append** adds its entry, after a rotation if the file is full. -/
theorem Shape.append (h : Shape s old cur) {timestamp : Int64} {fileTime : Nat} {cmdType : UInt8} {key value : Bytes}
    (hs : Sane s (.append timestamp fileTime cmdType key value)) {log : CommandLog} {seq : UInt64}
    (ha : s.log.append timestamp fileTime cmdType key value = .ok (log, seq)) :
    seq.toNat = s.entries.length + 1 ∧
      LogInv { log := log, entries := s.entries ++ [newEntry seq timestamp cmdType key value] } := by
  obtain ⟨hk, hv, hwrap, ht⟩ := hs
  unfold CommandLog.append at ha
  split_ifs at ha
  obtain ⟨hlog, rfl⟩ : _ = log ∧ s.log.currentSeq + 1 = seq := by simpa using ha
  have hseq : (s.log.currentSeq + 1).toNat = s.entries.length + 1 := by
    rw [UInt64.toNat_add, h.seq, show (1 : UInt64).toNat = 1 from rfl]
    rw [h.seq] at hwrap
    exact Nat.mod_eq_of_lt hwrap
  refine ⟨hseq, ?_⟩
  have hok := @newEntry_ok (s.log.currentSeq + 1) timestamp cmdType key value hk hv
  rw [← hlog]
  split_ifs
  · exact ⟨_, _, (h.rotate ht).write hok hseq⟩
  · exact ⟨_, _, h.write hok hseq⟩

/-! ## What can be read -/

/-- The current file, cut after any number of bytes, holds some of its entries, and all that end before the
cut. -/
theorem Shape.cut (h : Shape s old cur) {keep : Nat} (hkeep : keep ≤ s.log.current.data.length) :
    ∃ k ≤ cur.length,
      List.Forall₂ FileHolds (s.log.surviving keep) (old ++ [(s.log.current.fileNum, cur.take k)]) ∧
      ∀ j ≤ cur.length, (entryCodec.flat (cur.take j)).length ≤ keep → j ≤ k := by
  have hok : ∀ e ∈ cur, e.Ok := fun e he => h.ok e (by rw [h.entries]; exact List.mem_append_right _ he)
  obtain ⟨k, hk, hholds, hmax⟩ := Codec.exists_cut (c := entryCodec) hok keep
  refine ⟨k, hk, List.rel_append h.older (List.Forall₂.cons ⟨rfl, ?_⟩ List.Forall₂.nil), hmax⟩
  rwa [← h.current, List.take_append_of_le_length hkeep] at hholds

/-- A file of the layout is on disk. -/
theorem exists_file {files : List LogFile} {l : Layout} (h : List.Forall₂ FileHolds files l)
    {x : Nat × List CommandEntry} (hx : x ∈ l) : ∃ f ∈ files, FileHolds f x := by
  induction h with
  | nil => cases hx
  | @cons f y files l hfy _ ih =>
    rcases List.mem_cons.1 hx with rfl | hx
    · exact ⟨f, List.mem_cons_self, hfy⟩
    · obtain ⟨g, hg, hgx⟩ := ih hx
      exact ⟨g, List.mem_cons_of_mem _ hg, hgx⟩

theorem frames_files {files : List LogFile} {l : Layout} (h : List.Forall₂ FileHolds files l)
    (hok : ∀ e ∈ l.entries, e.Ok) : (files.flatMap fun f => entryCodec.frames f.data) = l.entries := by
  induction h with
  | nil => rfl
  | @cons f x files l hfx _ ih =>
    rw [Layout.entries_cons] at hok ⊢
    rw [List.flatMap_cons, ih fun e he => hok e (List.mem_append_right _ he),
      hfx.2.frames fun e he => hok e (List.mem_append_left _ he)]

theorem find_file : ∀ {files : List LogFile} {f : LogFile}, (files.map LogFile.fileNum).Pairwise (· < ·) →
    f ∈ files → files.find? (fun g => g.fileNum = f.fileNum) = some f
  | g :: files, f, hp, hf => by
    rw [List.map_cons, List.pairwise_cons] at hp
    rcases List.mem_cons.1 hf with rfl | hf
    · simp
    · have hlt := hp.1 f.fileNum (List.mem_map_of_mem hf)
      rw [List.find?_cons_of_neg (by simpa using hlt.ne)]
      exact find_file hp.2 hf

/-- On files that hold the layout the index leads to the entries. -/
theorem entryAt_of_at {cl : CommandLog} {l : Layout} (h : List.Forall₂ FileHolds cl.files l)
    (hnames : (cl.files.map LogFile.fileNum).Pairwise (· < ·)) (hok : ∀ e ∈ l.entries, e.Ok)
    {pos : LogPosition} {e : CommandEntry} (hat : l.At pos e) : cl.entryAt pos = some e := by
  obtain ⟨es₁, es₂, hmem, hoff⟩ := hat
  obtain ⟨f, hf, hnum, torn, hdata, -⟩ := exists_file h hmem
  have he : e.Ok := hok e (List.mem_flatMap.2 ⟨_, hmem, by simp⟩)
  have hread : decodeCommandEntry (f.data.drop pos.offset) = some (e, entryCodec.flat es₂ ++ torn) := by
    rw [hdata, hoff, Codec.drop_flat, Codec.flat_cons, List.append_assoc]
    exact entryCodec.read_enc he _
  have hfind := find_file hnames hf
  rw [hnum] at hfind
  simp only [entryAt, hfind, hread, Option.map_some]

/-! ## Recovery -/

/-- **A reopened log** has found a prefix of the entries with everything that was synced, and is in shape. -/
theorem Shape.reopen (h : Shape s old cur) {keep fileTime : Nat} (hsync : s.log.synced ≤ keep)
    (hkeep : keep ≤ s.log.current.data.length) (ht : ∀ f ∈ s.log.files, f.fileNum < fileTime) :
    ∃ k ≤ cur.length, s.log.lastSyncSeq.toNat ≤ old.entries.length + k ∧
      (s.reopen keep fileTime).log.currentSeq.toNat = old.entries.length + k ∧
      (s.reopen keep fileTime).entries = s.entries.take (old.entries.length + k) ∧
      Shape (s.reopen keep fileTime) (old ++ [(s.log.current.fileNum, cur.take k)]) [] := by
  obtain ⟨k, hk, hfiles, hmax⟩ := h.cut hkeep
  set l := old ++ [(s.log.current.fileNum, cur.take k)] with hl
  have hle : l.entries = s.entries.take (old.entries.length + k) := by
    rw [h.entries, List.take_length_add_append, hl]
    simp
  have hlen : l.entries.length = old.entries.length + k := by
    rw [hl]
    simp [hk]
  have hok : ∀ e ∈ l.entries, e.Ok := fun e he => h.ok e (List.mem_of_mem_take (hle ▸ he))
  have hnum : Numbered l.entries := by
    rw [hle]
    exact Numbered.of_append (by rw [List.take_append_drop]; exact h.numbered)
  have hrec := recover_eq hfiles hok
  have hmaxSeq : (recover (s.log.surviving keep)).maxSeq.toNat = old.entries.length + k := by
    rw [hrec, addFiles_maxSeq, hnum.maxSequence, hlen]
  have hent : (s.reopen keep fileTime).entries = l.entries := by
    rw [hle, ← hmaxSeq]
    rfl
  refine ⟨k, hk, ?_, hmaxSeq, hent.trans hle, ?_⟩
  · obtain ⟨j, hj, hjlen, hjsync⟩ := h.durable
    have := hmax j hj (hjlen.trans hsync)
    omega
  · refine
      { older := hfiles
        current := rfl
        size := rfl
        entries := by rw [hent, List.append_nil]
        ok := by rwa [hent]
        numbered := by rwa [hent]
        seq := by rw [hent, hlen]; exact hmaxSeq
        synced := le_rfl
        durable := ⟨0, le_rfl, le_rfl, by rw [hlen]; exact hmaxSeq.le⟩
        index := ?_
        noOther := ?_
        names := ?_ }
    · intro e he
      rw [hent] at he
      obtain ⟨pos, hget, hat⟩ := @get_addFiles l { index := OrdMap.empty, maxSeq := 0 } hnum.nodup e he
      refine ⟨pos, ?_, hat.mono fun num es hm => ⟨[], ?_⟩⟩
      · rw [← hget, ← hrec]
        rfl
      · rw [List.append_nil]
        exact List.mem_append_left _ hm
    · intro seq hout
      rw [hent] at hout
      change (recover (s.log.surviving keep)).index.get seq = none
      rw [hrec, get_addFiles_of_notMem hout]
      rfl
    · refine names_concat (l := s.log.surviving keep) ?_ fun g hg => ?_
      · simpa [CommandLog.surviving, files] using h.names
      · rcases List.mem_append.1 hg with hg | hg
        · exact ht g (List.mem_append_left _ hg)
        · obtain rfl : g = { s.log.current with data := s.log.current.data.take keep } := by simpa using hg
          exact ht s.log.current (List.mem_append_right _ (by simp))

end

theorem logInv_step {s s' : LogRun} {a : LogAct} (h : LogInv s) (hs : Sane s a) (hst : logStep s a = some s') :
    LogInv s' := by
  obtain ⟨old, cur, h⟩ := h
  cases a with
  | append timestamp fileTime cmdType key value =>
    simp only [logStep] at hst
    split at hst
    · cases hst
    · rename_i log seq ha
      cases hst
      exact (h.append hs ha).2
  | flush n =>
    cases hst
    exact ⟨old, cur, h.flush n⟩
  | sync =>
    cases hst
    exact ⟨old, cur, h.flushSync s.log.currentSeq h.seq.le⟩
  | crash keep fileTime =>
    simp only [logStep] at hst
    split_ifs at hst with hc
    cases hst
    obtain ⟨k, -, -, -, -, h'⟩ := h.reopen hc.1 hc.2 hs
    exact ⟨_, _, h'⟩

/-- What `s'`, the log reopened after a crash, must have of `s`. -/
structure RecoveryExact (s s' : LogRun) : Prop where
  synced   : s.log.lastSyncSeq ≤ s'.log.currentSeq
  readable : s'.log.readable = s.entries.take s'.log.currentSeq.toNat
  numbered : s'.log.readable.map (fun e => e.sequence.toNat) = List.range' 1 s'.log.currentSeq.toNat
  indexed  : ∀ e ∈ s'.log.readable, ∃ pos, s'.log.index.get e.sequence = some pos ∧ s'.log.entryAt pos = some e
  next     : ∀ timestamp fileTime cmdType key value, ∃ log,
    s'.log.append timestamp fileTime cmdType key value = .ok (log, s'.log.currentSeq + 1)

/-- **Crash recovery is exact**: after any run, a crash at any point the last `fsync` allows leaves a log
whose files decode to the entries `1..n` in order, where `n` is the recovered sequence number and not below
the last synced one, whose index leads to each of them, and that goes on with `n + 1`. -/
theorem recovery_exact {partitionID : UInt32} {fileTime : Nat} {as : List LogAct} {s s' : LogRun}
    (hsane : Along logStep Sane (LogRun.start partitionID fileTime) as)
    (hrun : run logStep (LogRun.start partitionID fileTime) as = some s) {keep now : Nat}
    (hnow : Sane s (.crash keep now)) (hcrash : logStep s (.crash keep now) = some s') : RecoveryExact s s' := by
  obtain ⟨old, cur, h⟩ : LogInv s :=
    run_inv_along (fun _ _ _ hi hc hst => logInv_step hi hc hst) (logInv_start partitionID fileTime) hsane hrun
  simp only [logStep] at hcrash
  split_ifs at hcrash with hc
  cases hcrash
  obtain ⟨k, hk, hsync, hseq, hent, h'⟩ := h.reopen hc.1 hc.2 hnow
  set s' := s.reopen keep now with hs'
  -- nothing is buffered, so the files hold the whole layout
  have hfiles : List.Forall₂ FileHolds s'.log.files
      ((old ++ [(s.log.current.fileNum, cur.take k)]) ++ [(s'.log.current.fileNum, [])]) :=
    List.rel_append h'.older (List.Forall₂.cons ⟨rfl, Codec.holds_flat []⟩ List.Forall₂.nil)
  have hall : Layout.entries ((old ++ [(s.log.current.fileNum, cur.take k)]) ++ [(s'.log.current.fileNum, [])])
      = s'.entries := by
    rw [h'.entries]
    simp
  have hread : s'.log.readable = s'.entries := by
    rw [← hall]
    exact frames_files hfiles (by rw [hall]; exact h'.ok)
  refine ⟨?_, ?_, ?_, ?_, fun timestamp fileTime cmdType key value => ⟨_, rfl⟩⟩
  · rw [UInt64.le_iff_toNat_le, hseq]
    exact hsync
  · rw [hread, hseq, hent]
  · rw [hread, h'.seq]
    exact h'.numbered
  · intro e he
    rw [hread] at he
    obtain ⟨pos, hget, hat⟩ := h'.index e he
    exact ⟨pos, hget, entryAt_of_at hfiles h'.names (by rw [hall]; exact h'.ok) hat⟩

/-- A synced entry, and ten bytes of a second one. -/
def tornWrites : List LogAct := [.append 0 2 1 [1] [2], .sync, .append 0 2 1 [3] [], .flush 10]

/-- Five of the ten bytes survive. -/
theorem recovery_drops_torn_entry : ∃ s s', run logStep (LogRun.start 0 1) tornWrites = some s ∧
    logStep s (.crash 36 3) = some s' ∧ RecoveryExact s s' := by
  refine ⟨_, _, rfl, rfl, @recovery_exact 0 1 tornWrites _ _ (by decide) rfl 36 3 ?_ rfl⟩
  decide

end RocksKV.Storage
