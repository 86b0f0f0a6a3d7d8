import RocksKV.Storage.CommandEntry
/-!
# The command log and its files (`pkg/storage/command_log.go`)

| here | there |
| --- | --- |
| `CommandLog`                        | `type CommandLog` (`:141-163`) with the files of its directory |
| `newCommandLog`                     | `NewCommandLog` (`:171-205`) |
| `append`, `write`                   | `Append` (`:208-261`), up to and from the rotation |
| `readFrom`                          | `ReadFrom` (`:292-317`) |
| `readFromIndex`, `readFromFullScan` | `readFromIndex` (`:320-378`), `readFromFullScan` (`:381-421`) |
| `sync`, `close`                     | `Sync` (`:424-442`), `Close` (`:445-467`) |
| `recover`                           | `recover` (`:479-542`) |
| `rotateLogFile`                     | `openNewLogFile` (`:545-558`), `rotateLogFile` (`:561-577`) |

A file is named by the time it was opened; the names sort as the times do, so `files` lists the directory
in `sort.Strings` order. `buffer` is what the `bufio.Writer` has not handed to the file yet: any part of it
may be flushed at any time. `synced` counts the bytes of the current file that its last `fsync` covers.
File operations succeed.
-/

namespace RocksKV.Storage

open Lib

structure LogPosition where
  fileNum : Nat
  offset  : Nat
  deriving DecidableEq

structure LogFile where
  fileNum : Nat
  data    : Bytes
  deriving DecidableEq

structure CommandLog where
  partitionID : UInt32
  /-- The files opened before the current one. -/
  older       : List LogFile
  current     : LogFile
  buffer      : Bytes
  currentSize : Nat
  currentSeq  : UInt64
  lastSyncSeq : UInt64
  index       : OrdMap UInt64 LogPosition
  closed      : Bool
  synced      : Nat

def logFileMaxSize : Nat := 64 * 1024 * 1024

namespace CommandLog

def files (cl : CommandLog) : List LogFile := cl.older ++ [cl.current]

/-! ## Writing -/

/-- The first `n` buffered bytes reach the file. -/
def flush (cl : CommandLog) (n : Nat) : CommandLog :=
  { cl with
    current := { cl.current with data := cl.current.data ++ cl.buffer.take n }
    buffer := cl.buffer.drop n }

/-- `Flush` and `fsync`. -/
def flushSync (cl : CommandLog) : CommandLog :=
  { cl.flush cl.buffer.length with synced := (cl.current.data ++ cl.buffer).length }

def rotateLogFile (cl : CommandLog) (fileTime : Nat) : CommandLog :=
  { cl.flushSync with
    older := cl.older ++ [cl.flushSync.current]
    current := { fileNum := fileTime, data := [] }
    currentSize := 0
    synced := 0 }

/-- The buffered write of an entry, and its place in the index. -/
def write (cl : CommandLog) (entry : CommandEntry) : CommandLog :=
  { cl with
    currentSeq := entry.sequence
    buffer := cl.buffer ++ entry.encode
    currentSize := cl.currentSize + entry.encode.length
    index := cl.index.insert entry.sequence { fileNum := cl.current.fileNum, offset := cl.currentSize } }

/-- `timestamp` and `fileTime` are the two readings of the clock. -/
def append (cl : CommandLog) (timestamp : Int64) (fileTime : Nat) (cmdType : UInt8) (key value : Bytes) :
    Except String (CommandLog × UInt64) :=
  if cl.closed then .error "command log is closed"
  else
    let seq := cl.currentSeq + 1
    let entry := newEntry seq timestamp cmdType key value
    let cl := if logFileMaxSize < cl.currentSize + entry.encode.length then cl.rotateLogFile fileTime else cl
    .ok (cl.write entry, seq)

def sync (cl : CommandLog) : CommandLog := { cl.flushSync with lastSyncSeq := cl.currentSeq }

def close (cl : CommandLog) : CommandLog := { cl.flushSync with closed := true }

/-! ## Opening -/

/-- What `recover` has found so far. -/
structure Recovered where
  index  : OrdMap UInt64 LogPosition
  maxSeq : UInt64

def Recovered.add (r : Recovered) (fileNum offset : Nat) (entry : CommandEntry) : Recovered :=
  { index := r.index.insert entry.sequence { fileNum := fileNum, offset := offset }
    maxSeq := if r.maxSeq < entry.sequence then entry.sequence else r.maxSeq }

/-- The loop over one file. Every entry takes a byte, so the file's length is enough fuel. -/
def recoverFile (fileNum : Nat) : Nat → Bytes → Nat → Recovered → Recovered
  | 0, _, _, r => r
  | fuel + 1, b, offset, r =>
    match decodeCommandEntry b with
    | none => r
    | some (entry, rest) => recoverFile fileNum fuel rest (offset + entry.size) (r.add fileNum offset entry)

def recover (files : List LogFile) : Recovered :=
  files.foldl (fun r f => recoverFile f.fileNum f.data.length f.data 0 r) { index := OrdMap.empty, maxSeq := 0 }

def newCommandLog (partitionID : UInt32) (files : List LogFile) (fileTime : Nat) : CommandLog :=
  { partitionID := partitionID
    older := files
    current := { fileNum := fileTime, data := [] }
    buffer := []
    currentSize := 0
    currentSeq := (recover files).maxSeq
    lastSyncSeq := (recover files).maxSeq
    index := (recover files).index
    closed := false
    synced := 0 }

/-! ## Reading -/

/-- The inner loop of both readers. -/
def readLoop (fromSeq : UInt64) (limit : Nat) : Nat → Bytes → List CommandEntry → List CommandEntry
  | 0, _, entries => entries
  | fuel + 1, b, entries =>
    if entries.length < limit then
      match decodeCommandEntry b with
      | none => entries
      | some (entry, rest) =>
        readLoop fromSeq limit fuel rest (if fromSeq ≤ entry.sequence then entries ++ [entry] else entries)
    else entries

def readFiles (fromSeq : UInt64) (limit : Nat) (files : List LogFile) (entries : List CommandEntry) :
    List CommandEntry :=
  files.foldl (fun entries f => readLoop fromSeq limit f.data.length f.data entries) entries

def readFromFullScan (cl : CommandLog) (fromSeq : UInt64) (limit : Nat) : List CommandEntry :=
  readFiles fromSeq limit cl.files []

/-- The start file is sought to the offset; without it there is an error. -/
def readFromIndex (cl : CommandLog) (startPos : LogPosition) (fromSeq : UInt64) (limit : Nat) :
    Except String (List CommandEntry) :=
  match cl.files.dropWhile (fun f => f.fileNum ≠ startPos.fileNum) with
  | [] => .error "indexed file not found"
  | f :: rest => .ok (readFiles fromSeq limit ({ f with data := f.data.drop startPos.offset } :: rest) [])

/-- The first indexed sequence from `fromSeq` on. -/
def startPos (cl : CommandLog) (fromSeq : UInt64) : Option LogPosition :=
  (List.range (cl.currentSeq.toNat + 1 - fromSeq.toNat)).findSome? fun i => cl.index.get (fromSeq + UInt64.ofNat i)

def readFrom (cl : CommandLog) (fromSeq : UInt64) (limit : Nat) : List CommandEntry :=
  match cl.startPos fromSeq with
  | none => cl.readFromFullScan fromSeq limit
  | some pos =>
    match cl.readFromIndex pos fromSeq limit with
    | .ok (entry :: entries) => entry :: entries
    | _ => cl.readFromFullScan fromSeq limit

/-- Every entry that decodes, in file order. -/
def readable (cl : CommandLog) : List CommandEntry := cl.files.flatMap fun f => entryCodec.frames f.data

/-- The entry at a position of the index. -/
def entryAt (cl : CommandLog) (pos : LogPosition) : Option CommandEntry :=
  match cl.files.find? (fun f => f.fileNum = pos.fileNum) with
  | none => none
  | some f => (decodeCommandEntry (f.data.drop pos.offset)).map Prod.fst

/-! ## What the readers return -/

theorem readLoop_eq {fromSeq : UInt64} {limit : Nat} : ∀ {fuel : Nat} {b : Bytes} {entries : List CommandEntry},
    b.length ≤ fuel → entries.length ≤ limit →
    readLoop fromSeq limit fuel b entries
      = (entries ++ (entryCodec.frames b).filter fun e => fromSeq ≤ e.sequence).take limit := by
  intro fuel
  induction fuel with
  | zero =>
    intro b entries hb hl
    obtain rfl : b = [] := by simpa using hb
    rw [entryCodec.frames_of_none entryCodec.read_nil]
    simpa [readLoop] using (List.take_of_length_le hl).symm
  | succ fuel ih =>
    intro b entries hb hl
    simp only [readLoop]
    split_ifs with hlt
    · cases h : decodeCommandEntry b with
      | none =>
        rw [entryCodec.frames_of_none h]
        simpa using (List.take_of_length_le hl).symm
      | some q =>
        obtain ⟨entry, rest⟩ := q
        have hrest := takes_decodeCommandEntry _ _ _ h
        rw [entryCodec.frames_of_some h]
        simp only
        by_cases hs : fromSeq ≤ entry.sequence
        · rw [if_pos hs, ih (by omega) (by simp; omega)]
          simp [hs]
        · rw [if_neg hs, ih (by omega) hl]
          simp [hs]
    · rw [List.take_append_of_le_length (by omega), List.take_of_length_le hl]

theorem readFiles_eq {fromSeq : UInt64} {limit : Nat} : ∀ {files : List LogFile} {entries : List CommandEntry},
    entries.length ≤ limit → readFiles fromSeq limit files entries =
      (entries ++ (files.flatMap fun f => entryCodec.frames f.data).filter fun e => fromSeq ≤ e.sequence).take limit
  | [], entries, h => by simpa [readFiles] using (List.take_of_length_le h).symm
  | f :: files, entries, h => by
    have ih := @readFiles_eq fromSeq limit files (readLoop fromSeq limit f.data.length f.data entries)
    rw [readLoop_eq le_rfl h] at ih
    rw [readFiles, List.foldl_cons, ← readFiles, readLoop_eq le_rfl h, ih (List.length_take_le _ _)]
    set xs := (entryCodec.frames f.data).filter fun e => fromSeq ≤ e.sequence
    set ys := (files.flatMap fun f => entryCodec.frames f.data).filter fun e => fromSeq ≤ e.sequence
    rw [List.flatMap_cons, List.filter_append, ← List.append_assoc]
    exact take_take_append _ _ _
where
  take_take_append {α : Type} (n : Nat) (xs ys : List α) : (xs.take n ++ ys).take n = (xs ++ ys).take n := by
    rw [List.take_append, List.take_append, List.take_take, min_self, List.length_take]
    rcases Nat.le_total n xs.length with h | h
    · simp [h]
    · simp [h]

theorem readFiles_nil (fromSeq : UInt64) (limit : Nat) (files : List LogFile) : readFiles fromSeq limit files [] =
    ((files.flatMap fun f => entryCodec.frames f.data).filter fun e => fromSeq ≤ e.sequence).take limit := by
  rw [readFiles_eq (Nat.zero_le limit), List.nil_append]

/-- **A full scan** returns the first `limit` readable entries from `fromSeq` on. -/
theorem readFromFullScan_eq (cl : CommandLog) (fromSeq : UInt64) (limit : Nat) :
    cl.readFromFullScan fromSeq limit = (cl.readable.filter fun e => fromSeq ≤ e.sequence).take limit :=
  readFiles_nil fromSeq limit cl.files

end CommandLog

end RocksKV.Storage
