import RocksKV.Storage.LogLayout
import RocksKV.Storage.Server
/-!
# Recovery from the command log (`CommandLog.ReplayTo`, `command_log.go:619-697`)

| here | there |
| --- | --- |
| `replayEntry` | the `switch` over an entry's type (`:650-683`) |
| `replayTo`    | `ReplayTo`; every file is read until it does not decode (`CommandLog.readable`) |
| `replayTrace` | the entries it comes to the `switch` with |

**Bug**: a `Put` or `Delete` is logged with the user's key and replayed on that key as it stands, where the
live path (`PartitionManager.Put`) and the replica (`Replicate`) build the partition's storage key. Field
batches carry their partition and are replayed on the right keys.

`Settled` is the exact condition under which the bug does not show (`recovers_iff_settled`): every plain key
has been deleted again, and where a plain key has the storage key of a document field, it is written after
the field on both paths or on neither.
-/

namespace RocksKV.Storage

open Lib

/-- The command an entry carries; an unknown type is none. -/
def CommandEntry.command (e : CommandEntry) : Option Command :=
  (CmdType.ofByte e.cmdType).map fun t => { cmdType := t, key := e.key, value := e.value }

def replayCommand (partitionID : UInt32) (db : RocksDB) (c : Command) : Except String RocksDB :=
  match c.cmdType with
  | .put => .ok (db.write [.put c.key c.value])
  | .delete => .ok (db.write [.delete c.key])
  | .fieldBatch =>
    match decodeFieldBatch c.value with
    | .error e => .error e
    | .ok fb => .ok (applyFieldBatch db (if fb.partitionID = 0 then partitionID else fb.partitionID) fb)

def replayEntry (partitionID : UInt32) (db : RocksDB) (entry : CommandEntry) : Except String RocksDB :=
  match entry.command with
  | none => .ok db
  | some c =>
    match replayCommand partitionID db c with
    | .error e => .error s!"replay field batch decode failed at seq {entry.sequence}: {e}"
    | .ok db => .ok db

/-- The loop, with the database as the first failure leaves it and the last sequence number replayed. -/
def replayLoop (partitionID : UInt32) (fromSeq : UInt64) : RocksDB → UInt64 → List CommandEntry →
    RocksDB × Except String UInt64
  | db, lastSeq, [] => (db, .ok lastSeq)
  | db, lastSeq, entry :: rest =>
    if entry.sequence ≤ fromSeq then replayLoop partitionID fromSeq db lastSeq rest
    else match replayEntry partitionID db entry with
      | .error e => (db, .error e)
      | .ok db => replayLoop partitionID fromSeq db entry.sequence rest

def CommandLog.replayTo (cl : CommandLog) (db : RocksDB) (fromSeq : UInt64) : RocksDB × Except String UInt64 :=
  replayLoop cl.partitionID fromSeq db 0 cl.readable

/-- The entries that the loop comes to apply, up to the one it fails on. -/
def replayTrace (partitionID : UInt32) (fromSeq : UInt64) : RocksDB → List CommandEntry → List CommandEntry
  | _, [] => []
  | db, entry :: rest =>
    if entry.sequence ≤ fromSeq then replayTrace partitionID fromSeq db rest
    else entry :: match replayEntry partitionID db entry with
      | .error _ => []
      | .ok db => replayTrace partitionID fromSeq db rest

def CommandLog.replayTrace (cl : CommandLog) (db : RocksDB) (fromSeq : UInt64) : List CommandEntry :=
  Storage.replayTrace cl.partitionID fromSeq db cl.readable

/-- The other entries make no difference. -/
theorem replayLoop_replayTrace (partitionID : UInt32) (fromSeq : UInt64) (db : RocksDB) (lastSeq : UInt64)
    (entries : List CommandEntry) :
    replayLoop partitionID fromSeq db lastSeq (replayTrace partitionID fromSeq db entries) =
      replayLoop partitionID fromSeq db lastSeq entries := by
  induction entries generalizing db lastSeq with
  | nil => rfl
  | cons entry rest ih =>
    unfold replayTrace
    split_ifs with hseq
    · rw [ih, replayLoop, if_pos hseq]
    · rw [replayLoop, replayLoop, if_neg hseq, if_neg hseq]
      cases hentry : replayEntry partitionID db entry with
      | error e => rfl
      | ok db' => exact ih db' entry.sequence

theorem CommandLog.replayTo_eq_trace (cl : CommandLog) (db : RocksDB) (fromSeq : UInt64) :
    cl.replayTo db fromSeq = replayLoop cl.partitionID fromSeq db 0 (cl.replayTrace db fromSeq) :=
  (replayLoop_replayTrace cl.partitionID fromSeq db 0 cl.readable).symm

/-- It comes to the entries behind `fromSeq`, in their order. -/
theorem replayTrace_initial (partitionID : UInt32) (fromSeq : UInt64) (db : RocksDB) (entries : List CommandEntry) :
    replayTrace partitionID fromSeq db entries <+: entries.filter fun e => fromSeq < e.sequence := by
  induction entries generalizing db with
  | nil => exact List.prefix_refl _
  | cons entry rest ih =>
    unfold replayTrace
    split_ifs with hseq
    · rw [List.filter_cons_of_neg (by simpa using hseq)]
      exact ih db
    · rw [List.filter_cons_of_pos (by simpa using hseq), List.prefix_cons_inj]
      split
      · exact List.nil_prefix
      · exact ih _

/-- It comes to the first of them, whatever that is. -/
theorem head?_replayTrace (partitionID : UInt32) (fromSeq : UInt64) (db : RocksDB) (entries : List CommandEntry) :
    (replayTrace partitionID fromSeq db entries).head? = (entries.filter fun e => fromSeq < e.sequence).head? := by
  induction entries generalizing db with
  | nil => rfl
  | cons entry rest ih =>
    unfold replayTrace
    split_ifs with hseq
    · rw [List.filter_cons_of_neg (by simpa using hseq)]
      exact ih db
    · rw [List.filter_cons_of_pos (by simpa using hseq)]
      rfl

/-! ## Events -/

/-- What a request does, in the order it does it: plain writes under the user's key, field writes under their
storage key. -/
inductive Event
  | plain (w : Write Bytes Bytes)
  | field (w : Write Bytes Bytes)

def WriteOp.events (p : UInt32) : WriteOp → List Event
  | .put key value => [.plain (.put key value)]
  | .delete key => [.plain (.delete key)]
  | .setFields pk fields => (fieldWrites p (setBatch p pk fields)).map .field
  | .deleteField pk name => [.field (.delete (makeFieldKey p pk name))]
  | .batchPut items => items.map fun item => .plain (.put item.key item.value)

/-- The same write under the partition's storage key. -/
def onStorageKey (p : UInt32) : Write Bytes Bytes → Write Bytes Bytes
  | .put k v => .put (makePartitionKey p k) v
  | .delete k => .delete (makePartitionKey p k)

@[simp] theorem key_onStorageKey (p : UInt32) (w : Write Bytes Bytes) :
    (onStorageKey p w).key = makePartitionKey p w.key := by
  cases w <;> rfl

@[simp] theorem val_onStorageKey (p : UInt32) (w : Write Bytes Bytes) : (onStorageKey p w).val = w.val := by
  cases w <;> rfl

/-- The event on the primary's database. -/
def Event.live (p : UInt32) : Event → Write Bytes Bytes
  | .plain w => onStorageKey p w
  | .field w => w

/-- The event on the database the log is replayed to. -/
def Event.replayed : Event → Write Bytes Bytes
  | .plain w => w
  | .field w => w

def plains (evs : List Event) : List (Write Bytes Bytes) :=
  evs.filterMap fun ev => match ev with
    | .plain w => some w
    | .field _ => none

/-- The field names and values fit the words the log writes their lengths in. -/
def WriteOp.Fits (p : UInt32) : WriteOp → Prop
  | .setFields pk fields => (setBatch p pk fields).Fits
  | .deleteField pk name => (deleteBatch p pk name).Fits
  | _ => True

instance (p : UInt32) : ∀ op : WriteOp, Decidable (op.Fits p)
  | .setFields pk fields => inferInstanceAs (Decidable (setBatch p pk fields).Fits)
  | .deleteField pk name => inferInstanceAs (Decidable (deleteBatch p pk name).Fits)
  | .put _ _ => inferInstanceAs (Decidable True)
  | .delete _ => inferInstanceAs (Decidable True)
  | .batchPut _ => inferInstanceAs (Decidable True)

theorem writes_eq_events (p : UInt32) (op : WriteOp) : op.writes p = (op.events p).map (Event.live p) := by
  cases op with
  | put key value => rfl
  | delete key => rfl
  | setFields pk fields =>
    simp only [WriteOp.writes, WriteOp.events, List.map_map]
    exact (List.map_id _).symm
  | deleteField pk name => rfl
  | batchPut items =>
    simp only [WriteOp.writes, WriteOp.events, List.map_map]
    rfl

theorem foldlM_replay_puts (p : UInt32) : ∀ (items : List KeyValueItem) (db : RocksDB),
    (items.map fun item => ({ cmdType := .put, key := item.key, value := item.value } : Command)).foldlM
        (replayCommand p) db
      = .ok (db.write (items.map fun item => .put item.key item.value))
  | [], _ => rfl
  | item :: items, db => by
    rw [List.map_cons, List.foldlM_cons, List.map_cons, write_cons]
    exact foldlM_replay_puts p items _

/-- **A request's commands replay** to its plain writes on the user's keys and its field writes in place. -/
theorem replay_commands {p : UInt32} {op : WriteOp} (h : op.Fits p) (db : RocksDB) :
    (op.commands p).foldlM (replayCommand p) db = .ok (db.write ((op.events p).map Event.replayed)) := by
  cases op with
  | put key value => rfl
  | delete key => rfl
  | setFields pk fields =>
    have hdec := @decodeFieldBatch_encode (setBatch p pk fields) h
    have hpart : (if (setBatch p pk fields).partitionID = 0 then p else (setBatch p pk fields).partitionID) = p :=
      ite_self p
    simp only [WriteOp.commands, WriteOp.events, List.foldlM_cons, List.foldlM_nil, replayCommand, hdec, hpart,
      List.map_map]
    rw [show (fieldWrites p (setBatch p pk fields)).map (Event.replayed ∘ Event.field) = _ from List.map_id _]
    rfl
  | deleteField pk name =>
    have hdec := @decodeFieldBatch_encode (deleteBatch p pk name) h
    have hpart : (if (deleteBatch p pk name).partitionID = 0 then p else (deleteBatch p pk name).partitionID) = p :=
      ite_self p
    simp only [WriteOp.commands, WriteOp.events, List.foldlM_cons, List.foldlM_nil, replayCommand, hdec, hpart]
    rfl
  | batchPut items =>
    rw [WriteOp.commands, foldlM_replay_puts, WriteOp.events, List.map_map]
    rfl

theorem replayEntry_ok {p : UInt32} {db db' : RocksDB} {e : CommandEntry} {c : Command} (hc : e.command = some c)
    (h : replayCommand p db c = .ok db') : replayEntry p db e = .ok db' := by
  simp only [replayEntry, hc, h]

/-- Replaying a log from the start is running its commands. -/
theorem replayLoop_eq {p : UInt32} : ∀ {entries : List CommandEntry} {cs : List Command} {db db' : RocksDB}
    {lastSeq : UInt64}, entries.map CommandEntry.command = cs.map some → (∀ e ∈ entries, 0 < e.sequence) →
    cs.foldlM (replayCommand p) db = .ok db' → (replayLoop p 0 db lastSeq entries).1 = db'
  | [], [], db, db', lastSeq, _, _, h => by
    cases h
    rfl
  | e :: entries, c :: cs, db, db', lastSeq, hc, hpos, h => by
    rw [List.map_cons, List.map_cons, List.cons.injEq] at hc
    have hlt : ¬ e.sequence ≤ 0 := UInt64.not_le.2 (hpos e List.mem_cons_self)
    rw [List.foldlM_cons] at h
    rw [replayLoop, if_neg hlt]
    cases hr : replayCommand p db c with
    | error err =>
      rw [hr] at h
      cases h
    | ok db₁ =>
      rw [hr] at h
      rw [replayEntry_ok hc.1 hr]
      exact replayLoop_eq hc.2 (fun x hx => hpos x (List.mem_cons_of_mem _ hx)) h
  | [], _ :: _, _, _, _, hc, _, _ => by simp at hc
  | _ :: _, [], _, _, _, hc, _, _ => by simp at hc

theorem foldlM_flatMap_ok {α β γ ε : Type} {f : γ → β → Except ε γ} {g : α → List β} {h : γ → α → γ} :
    ∀ {as : List α} {s : γ}, (∀ a ∈ as, ∀ s, (g a).foldlM f s = .ok (h s a)) →
      (as.flatMap g).foldlM f s = .ok (as.foldl h s)
  | [], s, _ => rfl
  | a :: as, s, hok => by
    rw [List.flatMap_cons, List.foldlM_append, hok a List.mem_cons_self]
    exact foldlM_flatMap_ok fun b hb => hok b (List.mem_cons_of_mem _ hb)

theorem foldl_write_flatMap {α : Type} {g : α → List (Write Bytes Bytes)} : ∀ {as : List α} {db : RocksDB},
    as.foldl (fun db a => db.write (g a)) db = db.write (as.flatMap g)
  | [], _ => rfl
  | a :: as, db => by rw [List.foldl_cons, foldl_write_flatMap, List.flatMap_cons, write_append]

end RocksKV.Storage
