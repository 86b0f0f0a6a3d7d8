import RocksKV.Lib.Decimal
import RocksKV.Storage.LogRecovery
/-!
# The directory of a log (`pkg/storage/command_log.go:545-617`, `pkg/storage/command_log_replicator.go:382-437`)

| here | there |
| --- | --- |
| `Dir`                        | the directory `partition_<id>`: the log's files, the checkpoint and its temporary file |
| `logFileName`, `parseFileNum` | `openNewLogFile` (`:546`); `parseFileNum` (`:611-616`), and `getFileNum` (`:599-608`) |
| `logFiles`                   | `filepath.Glob` and `sort.Strings` (`:480-490`, `:324-329`, `:385-390`), with the number of each file |
| `OpenLog`                    | `type CommandLog` (`:141-163`) without the files |
| `DirAct.log`                 | `Append`, a flush of the writer, `Sync`; a crash and `NewCommandLog` |
| `DirAct.save`, `writeTemp`, `rename`, `removeTemp` | `saveCheckpoint` (`:408-437`), one file operation at a time |
| `loadCheckpoint`             | `loadCheckpoint` (`:382-405`) |

`CommandLog` keeps the files of the directory as a list in the order of their numbers, and `CommandLogReplicator` the
checkpoint as a number. Here both are what the directory holds, under the names the code gives them; every look at
the log lists the directory. `dir_refines_log` says that the two agree in every run, crashes between any two file
operations included, as long as the clock moves on between two files.

Names that start with a sign or with white space, which `Sscanf` would read, are not modelled: the log writes none.
-/

namespace RocksKV.Storage

open Lib CommandLog

/-- File names and contents, in the order of the names. -/
abbrev Dir := OrdMap Bytes Bytes

def ascii (s : String) : Bytes := s.toList.map fun c => UInt8.ofNat c.toNat

def logFileSuffix : Bytes := ascii ".cmdlog"

def replicationCheckpointFile : Bytes := ascii "replication.checkpoint"

def tempPath : Bytes := replicationCheckpointFile ++ ascii ".tmp"

/-- `%020d` and the suffix. -/
def logFileName (fileTime : Nat) : Bytes := zeroPad 20 (decimal fileTime) ++ logFileSuffix

/-- `Sscanf` with `%020d` takes at most 20 digits; a number that is not an `int64` leaves the result at 0. -/
def parseFileNum (name : Bytes) : Nat :=
  match parseDecimal ((name.take 20).takeWhile isDigit) with
  | some n => if n < 2 ^ 63 then n else 0
  | none => 0

def isLogFile (name : Bytes) : Bool := logFileSuffix.isSuffixOf name

def logFiles (d : Dir) : List LogFile :=
  (d.entries.filter fun e => isLogFile e.1).map fun e => { fileNum := parseFileNum e.1, data := e.2 }

/-- A number that does not parse, or not as a `uint64`, counts as none. -/
def loadCheckpoint (d : Dir) : UInt64 :=
  match d.get replicationCheckpointFile with
  | none => 0
  | some data =>
    match parseDecimal data with
    | some seq => if seq < 2 ^ 64 then UInt64.ofNat seq else 0
    | none => 0

namespace Dir

/-- A write at the end of an open file. -/
def append (d : Dir) (name b : Bytes) : Dir := d.insert name ((d.get name).getD [] ++ b)

/-- `O_CREATE` without `O_TRUNC`. -/
def create (d : Dir) (name : Bytes) : Dir := if d.contains name then d else d.insert name []

end Dir

/-- What the process has of its log. -/
structure OpenLog where
  partitionID : UInt32
  currentName : Bytes
  buffer      : Bytes
  currentSize : Nat
  currentSeq  : UInt64
  lastSyncSeq : UInt64
  index       : OrdMap UInt64 LogPosition

/-- How far `saveCheckpoint` is. -/
inductive SavePhase
  | idle
  | started (seq : UInt64)
  | written (seq : UInt64)
  | renameFailed

structure DirSys where
  dir        : Dir
  log        : OpenLog
  saving     : SavePhase
  /-- The bytes of the current file that its last `fsync` covers. -/
  synced     : Nat
  /-- The number `saveCheckpoint` has put in place last. -/
  checkpoint : Option UInt64

namespace DirSys

def flush (s : DirSys) (n : Nat) : DirSys :=
  { s with
    dir := s.dir.append s.log.currentName (s.log.buffer.take n)
    log := { s.log with buffer := s.log.buffer.drop n } }

def flushSync (s : DirSys) : DirSys :=
  let s := s.flush s.log.buffer.length
  { s with synced := ((s.dir.get s.log.currentName).getD []).length }

def openNewLogFile (s : DirSys) (fileTime : Nat) : DirSys :=
  { s with
    dir := s.dir.create (logFileName fileTime)
    log := { s.log with currentName := logFileName fileTime, currentSize := 0, buffer := [] }
    synced := 0 }

def write (s : DirSys) (entry : CommandEntry) : DirSys :=
  { s with
    log :=
      { s.log with
        currentSeq := entry.sequence
        buffer := s.log.buffer ++ entry.encode
        currentSize := s.log.currentSize + entry.encode.length
        index := s.log.index.insert entry.sequence
          { fileNum := parseFileNum s.log.currentName, offset := s.log.currentSize } } }

/-- `NewCommandLog` on the directory; the process that was before is gone. -/
def newCommandLog (partitionID : UInt32) (dir : Dir) (checkpoint : Option UInt64) (fileTime : Nat) : DirSys :=
  let r := recover (logFiles dir)
  let s : DirSys :=
    { dir := dir
      log :=
        { partitionID := partitionID, currentName := [], buffer := [], currentSize := 0, currentSeq := r.maxSeq,
          lastSyncSeq := r.maxSeq, index := r.index }
      saving := .idle
      synced := 0
      checkpoint := checkpoint }
  s.openNewLogFile fileTime

def start (partitionID : UInt32) (fileTime : Nat) : DirSys := newCommandLog partitionID .empty none fileTime

end DirSys

inductive DirAct
  | log (a : LogAct)
  | save (seq : UInt64)
  /-- `os.WriteFile`, which truncates; `some n` is an error after `n` bytes. -/
  | writeTemp (failed : Option Nat)
  | rename (ok : Bool)
  | removeTemp (ok : Bool)

def dirStep (s : DirSys) : DirAct → Option DirSys
  | .log (.append timestamp fileTime cmdType key value) =>
    let seq := s.log.currentSeq + 1
    let entry := newEntry seq timestamp cmdType key value
    let s := if logFileMaxSize < s.log.currentSize + entry.encode.length then s.flushSync.openNewLogFile fileTime else s
    some (s.write entry)
  | .log (.flush n) => some (s.flush n)
  | .log .sync => some { s.flushSync with log := { s.flushSync.log with lastSyncSeq := s.log.currentSeq } }
  | .log (.crash keep fileTime) =>
    let data := (s.dir.get s.log.currentName).getD []
    if s.synced ≤ keep ∧ keep ≤ data.length then
      some (.newCommandLog s.log.partitionID (s.dir.insert s.log.currentName (data.take keep)) s.checkpoint fileTime)
    else none
  | .save seq =>
    match s.saving with
    | .idle => some { s with saving := .started seq }
    | _ => none
  | .writeTemp failed =>
    match s.saving, failed with
    | .started seq, none =>
      some { s with dir := s.dir.insert tempPath (decimal seq.toNat), saving := .written seq }
    | .started seq, some n =>
      some { s with dir := s.dir.insert tempPath ((decimal seq.toNat).take n), saving := .idle }
    | _, _ => none
  | .rename ok =>
    match s.saving with
    | .written seq =>
      if ok then
        some { s with
          dir := (s.dir.erase tempPath).insert replicationCheckpointFile ((s.dir.get tempPath).getD [])
          saving := .idle
          checkpoint := some seq }
      else some { s with saving := .renameFailed }
    | _ => none
  | .removeTemp ok =>
    match s.saving with
    | .renameFailed => some { s with dir := if ok then s.dir.erase tempPath else s.dir, saving := .idle }
    | _ => none

/-- What the log is asked to do. -/
def DirAct.logAct : DirAct → Option LogAct
  | log a => some a
  | _ => none

/-- A file that is made, or might be, is newer than those of the directory. -/
def ClockMovesOn (s : DirSys) : DirAct → Prop
  | .log (.append _ fileTime _ _ _) | .log (.crash _ fileTime) =>
    (∀ f ∈ logFiles s.dir, f.fileNum < fileTime) ∧ fileTime < 2 ^ 63
  | _ => True

instance : ∀ (s : DirSys) (a : DirAct), Decidable (ClockMovesOn s a)
  | s, .log (.append _ fileTime _ _ _) | s, .log (.crash _ fileTime) =>
    inferInstanceAs (Decidable ((∀ f ∈ logFiles s.dir, f.fileNum < fileTime) ∧ fileTime < 2 ^ 63))
  | _, .log (.flush _) | _, .log .sync | _, .save _ | _, .writeTemp _ | _, .rename _ | _, .removeTemp _ => isTrue trivial

/-! ## Names -/

theorem isLogFile_iff {name : Bytes} : isLogFile name = true ↔ logFileSuffix <:+ name := List.isSuffixOf_iff_suffix

theorem isLogFile_logFileName (n : Nat) : isLogFile (logFileName n) = true := isLogFile_iff.2 (List.suffix_append _ _)

theorem length_decimal_int64 {n : Nat} (h : n < 2 ^ 63) : (decimal n).length ≤ 20 :=
  length_decimal_le (Nat.lt_trans h (by norm_num))

/-- **The number of a file can be read off its name.** -/
theorem parseFileNum_logFileName {n : Nat} (h : n < 2 ^ 63) : parseFileNum (logFileName n) = n := by
  have hlen : (zeroPad 20 (decimal n)).length = 20 := length_zeroPad (length_decimal_int64 h)
  have hdigits := forall_mem_zeroPad (w := 20) (forall_mem_decimal n)
  have hne : zeroPad 20 (decimal n) ≠ [] := by
    intro hnil
    rw [hnil] at hlen
    cases hlen
  have htake : (logFileName n).take 20 = zeroPad 20 (decimal n) := List.take_left' hlen
  rw [parseFileNum, htake, List.takeWhile_eq_self_iff.2 hdigits, parseDecimal,
    if_pos ⟨hne, List.all_eq_true.2 hdigits⟩, ofDecimal_zeroPad, ofDecimal_decimal]
  exact if_pos h

/-- **The names sort as the numbers do.** -/
theorem logFileName_lt {m n : Nat} (hn : n < 2 ^ 63) (h : m < n) : logFileName m < logFileName n := by
  refine lt_append_of_lt ?_ (zeroPad_lt_zeroPad (Nat.lt_trans hn (by norm_num)) h) _ _
  rw [length_zeroPad (length_decimal_int64 (Nat.lt_trans h hn)), length_zeroPad (length_decimal_int64 hn)]

/-! ## What the listing of a directory returns -/

/-- The directory holds these files of the log, by their names, and no others. -/
structure Named (d : Dir) (files : List LogFile) : Prop where
  sorted  : (files.map LogFile.fileNum).Pairwise (· < ·)
  bounded : ∀ f ∈ files, f.fileNum < 2 ^ 63
  content : ∀ name data : Bytes, isLogFile name = true →
    (d.get name = some data ↔ ∃ f ∈ files, name = logFileName f.fileNum ∧ data = f.data)

/-- **The listing is the list of the files, in order.** -/
theorem Named.logFiles {d : Dir} {files : List LogFile} (h : Named d files) : logFiles d = files := by
  have hentries : d.entries.filter (fun e => isLogFile e.1) = files.map fun f => (logFileName f.fileNum, f.data) := by
    refine OrdMap.eq_of_mem_iff (d.sorted.filter _) ?_ fun e => ?_
    · rw [List.pairwise_map]
      refine (List.pairwise_map.1 h.sorted).imp_of_mem fun hf hg hlt => logFileName_lt (h.bounded _ hg) hlt
    · obtain ⟨name, data⟩ := e
      rw [List.mem_filter, List.mem_map, OrdMap.mem_entries]
      constructor
      · rintro ⟨hget, hlog⟩
        obtain ⟨f, hf, rfl, rfl⟩ := (h.content name data hlog).1 hget
        exact ⟨f, hf, rfl⟩
      · rintro ⟨f, hf, heq⟩
        cases heq
        have hlog := isLogFile_logFileName f.fileNum
        exact ⟨(h.content _ _ hlog).2 ⟨f, hf, rfl, rfl⟩, hlog⟩
  rw [Storage.logFiles, hentries, List.map_map]
  refine (List.map_congr_left fun f hf => ?_).trans (List.map_id files)
  simp [parseFileNum_logFileName (h.bounded f hf)]

/-- A file of the log is written, or a new one made. -/
theorem Named.insert {d : Dir} {files files' : List LogFile} (h : Named d files) {f : LogFile}
    (hsorted : (files'.map LogFile.fileNum).Pairwise (· < ·)) (hbounded : ∀ g ∈ files', g.fileNum < 2 ^ 63) (hf : f ∈ files')
    (hsame : ∀ g : LogFile, g.fileNum ≠ f.fileNum → (g ∈ files' ↔ g ∈ files)) :
    Named (d.insert (logFileName f.fileNum) f.data) files' where
  sorted := hsorted
  bounded := hbounded
  content name data hlog := by
    by_cases hname : name = logFileName f.fileNum
    · rw [hname, OrdMap.get_insert_self]
      constructor
      · intro heq
        cases heq
        exact ⟨f, hf, rfl, rfl⟩
      · rintro ⟨g, hg, heq, rfl⟩
        have hnum := congrArg parseFileNum heq
        rw [parseFileNum_logFileName (hbounded f hf), parseFileNum_logFileName (hbounded g hg)] at hnum
        rw [List.inj_on_of_nodup_map (hsorted.imp Nat.ne_of_lt) hf hg hnum]
    · rw [OrdMap.get_insert_ne _ _ hname, h.content name data hlog]
      refine exists_congr fun g => and_congr_left fun hg => (hsame g fun hnum => hname ?_).symm
      rw [hg.1, hnum]

theorem Named.set {d : Dir} {older : List LogFile} {f : LogFile} (h : Named d (older ++ [f])) (data : Bytes) :
    Named (d.insert (logFileName f.fileNum) data) (older ++ [{ f with data := data }]) := by
  refine Named.insert (f := { f with data := data }) h ?_ (fun g hg => ?_) (List.mem_append_right _ List.mem_cons_self)
    fun g hg => ?_
  · simpa using h.sorted
  · rcases List.mem_append.1 hg with hg | hg
    · exact h.bounded g (List.mem_append_left _ hg)
    · rw [List.mem_singleton.1 hg]
      exact h.bounded f (List.mem_append_right _ List.mem_cons_self)
  · have hne : ∀ f' : LogFile, f'.fileNum = f.fileNum → g ≠ f' := fun f' hf' heq => hg (heq ▸ hf')
    simp [hne f rfl, hne { f with data := data } rfl]

theorem Named.get_current {d : Dir} {older : List LogFile} {f : LogFile} (h : Named d (older ++ [f])) :
    d.get (logFileName f.fileNum) = some f.data :=
  (h.content _ _ (isLogFile_logFileName _)).2 ⟨f, List.mem_append_right _ List.mem_cons_self, rfl, rfl⟩

theorem Named.create {d : Dir} {files : List LogFile} (h : Named d files) {fileTime : Nat}
    (hclock : ∀ f ∈ files, f.fileNum < fileTime) (hbound : fileTime < 2 ^ 63) :
    Named (d.create (logFileName fileTime)) (files ++ [{ fileNum := fileTime, data := [] }]) := by
  have hfree : d.contains (logFileName fileTime) = false := by
    rw [OrdMap.contains_eq_false, Option.eq_none_iff_forall_not_mem]
    intro data hget
    obtain ⟨f, hf, hname, -⟩ := (h.content _ data (isLogFile_logFileName _)).1 hget
    have hnum := congrArg parseFileNum hname
    rw [parseFileNum_logFileName hbound, parseFileNum_logFileName (h.bounded f hf)] at hnum
    exact Nat.ne_of_lt (hclock f hf) hnum.symm
  rw [Dir.create, hfree]
  refine Named.insert (f := { fileNum := fileTime, data := [] }) h (names_concat h.sorted hclock) (fun g hg => ?_)
    (List.mem_append_right _ List.mem_cons_self) fun g hg => ?_
  · rcases List.mem_append.1 hg with hg | hg
    · exact h.bounded g hg
    · rw [List.mem_singleton.1 hg]
      exact hbound
  · have hne : g ≠ { fileNum := fileTime, data := [] } := fun heq => hg (by rw [heq])
    simp [hne]

/-- Files that are none of the log's make no difference. -/
theorem Named.of_same {d d' : Dir} {files : List LogFile} (h : Named d files)
    (hsame : ∀ name : Bytes, isLogFile name = true → d'.get name = d.get name) : Named d' files where
  sorted := h.sorted
  bounded := h.bounded
  content name data hlog := by rw [hsame name hlog, h.content name data hlog]

/-! ## The two logs agree -/

/-- The process and its directory hold the log `cl`. -/
structure Agrees (s : DirSys) (cl : CommandLog) : Prop where
  named       : Named s.dir cl.files
  currentName : s.log.currentName = logFileName cl.current.fileNum
  partitionID : s.log.partitionID = cl.partitionID
  buffer      : s.log.buffer = cl.buffer
  currentSize : s.log.currentSize = cl.currentSize
  currentSeq  : s.log.currentSeq = cl.currentSeq
  lastSyncSeq : s.log.lastSyncSeq = cl.lastSyncSeq
  index       : s.log.index = cl.index
  synced      : s.synced = cl.synced
  closed      : cl.closed = false

section
variable {s : DirSys} {cl : CommandLog}

theorem Agrees.get_current (h : Agrees s cl) : s.dir.get s.log.currentName = some cl.current.data := by
  rw [h.currentName]
  exact h.named.get_current

theorem Agrees.flush (h : Agrees s cl) (n : Nat) : Agrees (s.flush n) (cl.flush n) :=
  { h with
    named := by
      have hset := h.named.set (cl.current.data ++ cl.buffer.take n)
      show Named (s.dir.insert s.log.currentName ((s.dir.get s.log.currentName).getD [] ++ s.log.buffer.take n)) _
      rw [h.get_current, h.buffer, h.currentName]
      exact hset
    buffer := congrArg (List.drop n) h.buffer }

theorem Agrees.flushSync (h : Agrees s cl) : Agrees s.flushSync cl.flushSync := by
  have hflush := h.flush s.log.buffer.length
  have hlen : cl.flush s.log.buffer.length = cl.flush cl.buffer.length := by rw [h.buffer]
  rw [hlen] at hflush
  refine { hflush with synced := ?_ }
  show ((((s.flush _).dir).get (s.flush _).log.currentName).getD []).length = _
  rw [hflush.get_current]
  simp [CommandLog.flush, CommandLog.flushSync]

theorem Agrees.rotateLogFile (h : Agrees s cl) {fileTime : Nat} (hclock : ∀ f ∈ cl.files, f.fileNum < fileTime)
    (hbound : fileTime < 2 ^ 63) : Agrees (s.flushSync.openNewLogFile fileTime) (cl.rotateLogFile fileTime) := by
  have hsync := h.flushSync
  refine { hsync with named := ?_, currentName := rfl, buffer := ?_, currentSize := rfl, synced := rfl }
  · refine hsync.named.create (fun f hf => ?_) hbound
    have hnums : f.fileNum ∈ cl.files.map LogFile.fileNum := by
      have hmem := List.mem_map_of_mem (f := LogFile.fileNum) hf
      simpa [CommandLog.flushSync, CommandLog.flush, files] using hmem
    obtain ⟨g, hg, hnum⟩ := List.mem_map.1 hnums
    rw [← hnum]
    exact hclock g hg
  · simp [DirSys.openNewLogFile, CommandLog.rotateLogFile, CommandLog.flushSync, CommandLog.flush]

theorem Agrees.write (h : Agrees s cl) (entry : CommandEntry) : Agrees (s.write entry) (cl.write entry) := by
  have hnum : parseFileNum s.log.currentName = cl.current.fileNum := by
    rw [h.currentName]
    exact parseFileNum_logFileName (h.named.bounded _ (List.mem_append_right _ List.mem_cons_self))
  refine { h with buffer := ?_, currentSize := ?_, currentSeq := rfl, index := ?_ }
  · simp [DirSys.write, CommandLog.write, h.buffer]
  · simp [DirSys.write, CommandLog.write, h.currentSize]
  · simp [DirSys.write, CommandLog.write, h.index, hnum, h.currentSize]

/-- `NewCommandLog` finds in the directory what `newCommandLog` is given. -/
theorem agrees_newCommandLog {dir : Dir} {files : List LogFile} (h : Named dir files) (partitionID : UInt32)
    (checkpoint : Option UInt64) {fileTime : Nat} (hclock : ∀ f ∈ files, f.fileNum < fileTime) (hbound : fileTime < 2 ^ 63) :
    Agrees (.newCommandLog partitionID dir checkpoint fileTime) (CommandLog.newCommandLog partitionID files fileTime) where
  named := h.create hclock hbound
  currentName := rfl
  partitionID := rfl
  buffer := rfl
  currentSize := rfl
  currentSeq := by
    show (recover (logFiles dir)).maxSeq = (recover files).maxSeq
    rw [h.logFiles]
  lastSyncSeq := by
    show (recover (logFiles dir)).maxSeq = (recover files).maxSeq
    rw [h.logFiles]
  index := by
    show (recover (logFiles dir)).index = (recover files).index
    rw [h.logFiles]
  synced := rfl
  closed := rfl

/-- **Step of the log**: what an action does to the process and the directory it does to the log. -/
theorem agrees_logStep {r : LogRun} (h : Agrees s r.log) {a : LogAct} {s' : DirSys} (hclock : ClockMovesOn s (.log a))
    (hstep : dirStep s (.log a) = some s') : ∃ r', logStep r a = some r' ∧ Agrees s' r'.log := by
  cases a with
  | append timestamp fileTime cmdType key value =>
    obtain ⟨hnewer, hbound⟩ := hclock
    rw [h.named.logFiles] at hnewer
    simp only [dirStep, h.currentSeq, h.currentSize] at hstep
    simp only [logStep, CommandLog.append, h.closed, Bool.false_eq_true, if_false]
    refine ⟨_, rfl, ?_⟩
    cases hstep
    split_ifs
    · exact (h.rotateLogFile hnewer hbound).write _
    · exact h.write _
  | flush n =>
    cases hstep
    exact ⟨_, rfl, h.flush n⟩
  | sync =>
    cases hstep
    exact ⟨_, rfl, { h.flushSync with lastSyncSeq := h.currentSeq }⟩
  | crash keep fileTime =>
    obtain ⟨hnewer, hbound⟩ := hclock
    rw [h.named.logFiles] at hnewer
    simp only [dirStep, h.get_current, Option.getD_some, h.synced] at hstep
    split_ifs at hstep with hkeep
    cases hstep
    refine ⟨_, if_pos hkeep, ?_⟩
    rw [h.currentName, h.partitionID]
    refine agrees_newCommandLog (h.named.set (r.log.current.data.take keep)) _ _ (fun f hf => ?_) hbound
    rcases List.mem_append.1 hf with hf | hf
    · exact hnewer f (List.mem_append_left _ hf)
    · rw [List.mem_singleton.1 hf]
      exact hnewer r.log.current (List.mem_append_right _ List.mem_cons_self)

/-- A step of `saveCheckpoint` leaves the log alone. -/
theorem agrees_saveStep (h : Agrees s cl) {a : DirAct} {s' : DirSys} (ha : a.logAct = none)
    (hstep : dirStep s a = some s') : Agrees s' cl := by
  have hother : ∀ {name : Bytes} {d : Dir}, isLogFile name = false → (∀ x, x ≠ name → d.get x = s.dir.get x) →
      Named d cl.files := fun hname hsame =>
    h.named.of_same fun x hx => hsame x (by rintro rfl; rw [hname] at hx; cases hx)
  cases a with
  | log a => cases ha
  | save seq =>
    simp only [dirStep] at hstep
    split at hstep <;> cases hstep
    exact { h with }
  | writeTemp failed =>
    simp only [dirStep] at hstep
    split at hstep <;> cases hstep <;>
      exact { h with named := @hother tempPath _ (by decide) fun x hx => OrdMap.get_insert_ne _ _ hx }
  | rename ok =>
    simp only [dirStep] at hstep
    split at hstep
    · split_ifs at hstep <;> cases hstep
      · refine { h with named := h.named.of_same fun x hx => ?_ }
        have htemp : x ≠ tempPath := by
          rintro rfl
          exact absurd hx (by decide)
        have hfile : x ≠ replicationCheckpointFile := by
          rintro rfl
          exact absurd hx (by decide)
        rw [OrdMap.get_insert_ne _ _ hfile, OrdMap.get_erase, if_neg htemp]
      · exact { h with }
    · cases hstep
  | removeTemp ok =>
    simp only [dirStep] at hstep
    split at hstep <;> cases hstep
    cases ok
    · exact { h with }
    · exact { h with named := @hother tempPath _ (by decide) fun x hx => by simp [OrdMap.get_erase, hx] }

end

/-! ## The checkpoint -/

/-- The checkpoint file holds the number that was put in place last, and the temporary file the next one when it is to
be renamed. -/
structure Checkpointed (s : DirSys) : Prop where
  file : s.dir.get replicationCheckpointFile = s.checkpoint.map fun seq => decimal seq.toNat
  temp : ∀ seq, s.saving = .written seq → s.dir.get tempPath = some (decimal seq.toNat)

section
variable {s s' : DirSys}

theorem get_append_ne {d : Dir} {name x b : Bytes} (h : x ≠ name) : (d.append name b).get x = d.get x :=
  OrdMap.get_insert_ne _ _ h

theorem get_create_ne {d : Dir} {name x : Bytes} (h : x ≠ name) : (d.create name).get x = d.get x := by
  unfold Dir.create
  split_ifs
  · rfl
  · exact OrdMap.get_insert_ne _ _ h

theorem get_openNewLogFile {x : Bytes} (hx : isLogFile x = false) (fileTime : Nat) :
    (s.openNewLogFile fileTime).dir.get x = s.dir.get x :=
  get_create_ne fun heq => by
    rw [heq, isLogFile_logFileName] at hx
    cases hx

/-- The log writes its own files only. -/
theorem get_logStep (hcurrent : isLogFile s.log.currentName = true) {a : LogAct} (hstep : dirStep s (.log a) = some s')
    {x : Bytes} (hx : isLogFile x = false) :
    s'.dir.get x = s.dir.get x ∧ s'.checkpoint = s.checkpoint ∧ (s'.saving = s.saving ∨ s'.saving = .idle) := by
  have hne : x ≠ s.log.currentName := by
    rintro rfl
    rw [hx] at hcurrent
    cases hcurrent
  cases a with
  | append timestamp fileTime cmdType key value =>
    simp only [dirStep] at hstep
    cases hstep
    split_ifs
    · exact ⟨(get_openNewLogFile hx fileTime).trans (get_append_ne hne), rfl, .inl rfl⟩
    · exact ⟨rfl, rfl, .inl rfl⟩
  | flush n =>
    cases hstep
    exact ⟨get_append_ne hne, rfl, .inl rfl⟩
  | sync =>
    cases hstep
    exact ⟨get_append_ne hne, rfl, .inl rfl⟩
  | crash keep fileTime =>
    simp only [dirStep] at hstep
    split_ifs at hstep
    cases hstep
    exact ⟨(get_openNewLogFile hx fileTime).trans (OrdMap.get_insert_ne _ _ hne), rfl, .inr rfl⟩

theorem Checkpointed.logStep (h : Checkpointed s) (hcurrent : isLogFile s.log.currentName = true) {a : LogAct}
    (hstep : dirStep s (.log a) = some s') : Checkpointed s' := by
  obtain ⟨hfile, hcheckpoint, -⟩ := get_logStep hcurrent hstep (x := replicationCheckpointFile) (by decide)
  obtain ⟨htemp, -, hsaving⟩ := get_logStep hcurrent hstep (x := tempPath) (by decide)
  refine ⟨by rw [hfile, hcheckpoint, h.file], fun seq hwritten => ?_⟩
  rcases hsaving with hsame | hidle
  · rw [htemp, h.temp seq (hsame ▸ hwritten)]
  · rw [hidle] at hwritten
    cases hwritten

/-- **A checkpoint is replaced as a whole**: the old number stays until the new one is in place. -/
theorem Checkpointed.saveStep (h : Checkpointed s) {a : DirAct} (ha : a.logAct = none) (hstep : dirStep s a = some s') :
    Checkpointed s' := by
  have hne : replicationCheckpointFile ≠ tempPath := by decide
  cases a with
  | log a => cases ha
  | save seq =>
    simp only [dirStep] at hstep
    split at hstep <;> cases hstep
    exact ⟨h.file, nofun⟩
  | writeTemp failed =>
    simp only [dirStep] at hstep
    split at hstep <;> cases hstep
    · refine ⟨(OrdMap.get_insert_ne _ _ hne).trans h.file, fun seq hwritten => ?_⟩
      cases hwritten
      exact OrdMap.get_insert_self ..
    · exact ⟨(OrdMap.get_insert_ne _ _ hne).trans h.file, nofun⟩
  | rename ok =>
    simp only [dirStep] at hstep
    split at hstep
    · rename_i seq hsaving
      split_ifs at hstep <;> cases hstep
      · refine ⟨?_, nofun⟩
        rw [h.temp seq hsaving]
        exact OrdMap.get_insert_self ..
      · exact ⟨h.file, nofun⟩
    · cases hstep
  | removeTemp ok =>
    simp only [dirStep] at hstep
    split at hstep <;> cases hstep
    refine ⟨?_, nofun⟩
    cases ok
    · exact h.file
    · exact (OrdMap.get_erase _ _ _).trans ((if_neg hne).trans h.file)

theorem Checkpointed.loadCheckpoint (h : Checkpointed s) : loadCheckpoint s.dir = s.checkpoint.getD 0 := by
  rw [Storage.loadCheckpoint, h.file]
  cases s.checkpoint with
  | none => rfl
  | some seq =>
    simp only [Option.map_some, parseDecimal_decimal, if_pos seq.toNat_lt, Option.getD_some, UInt64.ofNat_toNat]

end

/-! ## Runs -/

theorem agrees_run : ∀ {as : List DirAct} {s s' : DirSys} {r : LogRun}, Agrees s r.log → Checkpointed s →
    Along dirStep ClockMovesOn s as → run dirStep s as = some s' →
    ∃ r', run logStep r (as.filterMap DirAct.logAct) = some r' ∧ Agrees s' r'.log ∧ Checkpointed s'
  | [], _, _, r, hagrees, hcheckpointed, _, hrun => by
    cases hrun
    exact ⟨r, rfl, hagrees, hcheckpointed⟩
  | a :: as, s, s', r, hagrees, hcheckpointed, hclock, hrun => by
    obtain ⟨t, hstep, hrest⟩ := run_cons.1 hrun
    cases hact : a.logAct with
    | none =>
      rw [List.filterMap_cons_none hact]
      exact agrees_run (agrees_saveStep hagrees hact hstep) (hcheckpointed.saveStep hact hstep) (hclock.2 t hstep) hrest
    | some l =>
      obtain rfl : a = .log l := by
        cases a <;> cases hact
        rfl
      have hcurrent : isLogFile s.log.currentName = true := by
        rw [hagrees.currentName]
        exact isLogFile_logFileName _
      obtain ⟨u, hu, hagrees'⟩ := agrees_logStep hagrees hclock.1 hstep
      obtain ⟨r', hr', hend⟩ :=
        agrees_run hagrees' (hcheckpointed.logStep hcurrent hstep) (hclock.2 t hstep) hrest
      exact ⟨r', run_cons.2 ⟨u, hu, hr'⟩, hend⟩

theorem agrees_of_start {partitionID : UInt32} {fileTime : Nat} {as : List DirAct} {s : DirSys} (hbound : fileTime < 2 ^ 63)
    (hrun : run dirStep (.start partitionID fileTime) as = some s)
    (hclock : Along dirStep ClockMovesOn (.start partitionID fileTime) as) :
    ∃ r, run logStep (LogRun.start partitionID fileTime) (as.filterMap DirAct.logAct) = some r ∧ Agrees s r.log ∧
      Checkpointed s := by
  have hempty : Named .empty [] := ⟨.nil, nofun, fun _ _ _ => by simp⟩
  have hstart : Agrees (.start partitionID fileTime) (LogRun.start partitionID fileTime).log :=
    agrees_newCommandLog hempty partitionID none nofun hbound
  have hnone : Checkpointed (.start partitionID fileTime) :=
    ⟨(get_openNewLogFile (by decide) fileTime).trans (OrdMap.get_empty _), nofun⟩
  exact agrees_run hstart hnone hclock hrun

/-- **The directory refines the log.** Let appends, flushes, syncs, rotations, crashes with `NewCommandLog`, and the file
operations of `saveCheckpoint`, failing or not, be interleaved in any order, with a clock that moves on between two
files. The log with its list of files makes the same run; listing the directory, sorting the names and reading the
numbers off them returns that list; the process has the log's sequence numbers, index and buffer; and `loadCheckpoint`
returns the number of the last rename that took place. -/
theorem dir_refines_log {partitionID : UInt32} {fileTime : Nat} {as : List DirAct} {s : DirSys} (hbound : fileTime < 2 ^ 63)
    (hrun : run dirStep (.start partitionID fileTime) as = some s)
    (hclock : Along dirStep ClockMovesOn (.start partitionID fileTime) as) :
    ∃ r, run logStep (LogRun.start partitionID fileTime) (as.filterMap DirAct.logAct) = some r ∧
      logFiles s.dir = r.log.files ∧ Agrees s r.log ∧ loadCheckpoint s.dir = s.checkpoint.getD 0 := by
  obtain ⟨r, hr, hagrees, hcheckpointed⟩ := agrees_of_start hbound hrun hclock
  exact ⟨r, hr, hagrees.named.logFiles, hagrees, hcheckpointed.loadCheckpoint⟩

/-- Checkpoint 12 is put in place; the next save fails after a byte and the one after it ends with the process. -/
def tornSaves : List DirAct :=
  [.log (.append 1 2 1 [107] [118]), .log (.flush 10), .save 12, .writeTemp none, .rename true,
    .save 345, .writeTemp (some 1), .log (.crash 4 3), .save 7, .writeTemp none, .log (.crash 0 5)]

theorem dir_refines_log_torn_saves : ∃ (s : DirSys) (r : LogRun), run dirStep (.start 0 1) tornSaves = some s ∧
    s.checkpoint = some 12 ∧ logFiles s.dir = r.log.files ∧ loadCheckpoint s.dir = s.checkpoint.getD 0 := by
  obtain ⟨s, hs, hcheckpoint⟩ := @exists_run _ _ dirStep (fun s => s.checkpoint = some 12) _ (.start 0 1) tornSaves
    (by decide +kernel)
  obtain ⟨r, -, hfiles, -, hload⟩ := dir_refines_log (by norm_num) hs (by decide +kernel)
  exact ⟨s, r, hs, hcheckpoint, hfiles, hload⟩

end RocksKV.Storage
