import RocksKV.Storage.CommandEntry
import RocksKV.Storage.PartitionManager
/-!
# The storage server's write path (`pkg/storage/server.go`)

| here | there |
| --- | --- |
| `WriteOp.put`, `delete`, `setFields`, `deleteField`, `batchPut` | `Put` (`:354-416`), `Delete` (`:419-481`), `SetFields` (`:530-608`), `DeleteField` (`:611-681`), `BatchPut` (`:730-804`) |
| `checkWrite`                  | the four checks each of them starts with: lease, partition, role, epoch |
| `writeDB`                     | the RocksDB half of each handler |
| `enqueue`                     | its log half: `enqueueReplication`, `enqueueFieldBatchReplication` (`:1328-1370`) |
| `replicate`                   | `Replicate` on the replica (`:1373-1433`) |

The partition manager and the server share one `*RocksDB`, here `pm.db`. A partition's command log is
the sequence of its commands (`logs`); it lives on disk and outlives the replicator that writes it. Its
files are the subject of `Storage.CommandLog`.
-/

namespace RocksKV.Storage

open Lib

/-- What the server keeps of a `CommandLogReplicator`; after `Stop` its log is closed. -/
structure Replicator where
  isPrimary   : Bool
  replicaAddr : String
  closed      : Bool
  deriving DecidableEq, Repr

structure Server where
  pm            : PartitionManager
  nodeLease     : Nat
  nodeLeaseLost : Bool
  replicators   : OrdMap UInt32 Replicator
  /-- The command log of each partition. -/
  logs          : OrdMap UInt32 (List Command)

inductive WriteOp
  | put (key value : Bytes)
  | delete (key : Bytes)
  | setFields (primaryKey : Bytes) (fields : List FieldUpdate)
  | deleteField (primaryKey fieldName : Bytes)
  | batchPut (items : List KeyValueItem)
  deriving DecidableEq, Repr

structure WriteRequest where
  partitionId : UInt32
  epoch       : UInt64
  op          : WriteOp
  deriving DecidableEq, Repr

/-- The batch `SetFields` builds. -/
def setBatch (p : UInt32) (pk : Bytes) (fields : List FieldUpdate) : FieldBatch :=
  { partitionID := p, primaryKey := pk, updates := fields }

/-- The batch `DeleteField` logs. -/
def deleteBatch (p : UInt32) (pk name : Bytes) : FieldBatch :=
  { partitionID := p, primaryKey := pk, updates := [{ fieldName := name, value := [], isDelete := true }] }

namespace Server

/-- `s.db`. -/
def db (s : Server) : RocksDB := s.pm.db

def canWrite (s : Server) : Bool := !s.nodeLeaseLost && decide (s.nodeLease ≠ 0)

def checkWrite (s : Server) (partitionId : UInt32) (epoch : UInt64) : Except Pb.ErrorCode Unit :=
  if !s.canWrite then .error .internalError
  else if !s.pm.hasPartition partitionId then .error .partitionNotFound
  else if !s.pm.isPrimary partitionId then .error .notPrimary
  else match s.pm.validateEpoch partitionId epoch with
    | .error _ => .error .epochFenced
    | .ok () => .ok ()

/-! ## The log half -/

/-- The partition's log. -/
def log (s : Server) (partitionID : UInt32) : List Command := (s.logs.get partitionID).getD []

/-- Append through the partition's replicator; without one, or with a closed one, nothing is logged and the
write is still acknowledged. -/
def append (s : Server) (partitionID : UInt32) (c : Command) : Server :=
  match s.replicators.get partitionID with
  | none => s
  | some replicator =>
    if replicator.closed then s
    else { s with logs := s.logs.insert partitionID (s.log partitionID ++ [c]) }

def enqueueReplication (s : Server) (partitionID : UInt32) (key value : Bytes) (isDelete : Bool) : Server :=
  if isDelete then s.append partitionID { cmdType := .delete, key := key, value := [] }
  else s.append partitionID { cmdType := .put, key := key, value := value }

/-- The primary key is in the batch, so the entry's key is empty. -/
def enqueueFieldBatchReplication (s : Server) (partitionID : UInt32) (batchData : Bytes) : Server :=
  s.append partitionID { cmdType := .fieldBatch, key := [], value := batchData }

def enqueue (s : Server) (p : UInt32) : WriteOp → Server
  | .put key value => s.enqueueReplication p key value false
  | .delete key => s.enqueueReplication p key [] true
  | .setFields pk fields => s.enqueueFieldBatchReplication p (setBatch p pk fields).encode
  | .deleteField pk name => s.enqueueFieldBatchReplication p (deleteBatch p pk name).encode
  | .batchPut items => items.foldl (fun s item => s.enqueueReplication p item.key item.value false) s

/-! ## The RocksDB half and the handler -/

/-- The field handlers do not look at the partition's status. -/
def writeDB (s : Server) (p : UInt32) : WriteOp → Except String PartitionManager
  | .put key value => s.pm.put key value p
  | .delete key => s.pm.delete key p
  | .setFields pk fields => .ok { s.pm with db := applyFieldBatch s.db p (setBatch p pk fields) }
  | .deleteField pk name => .ok { s.pm with db := deleteField s.db p pk name }
  | .batchPut items => s.pm.batchPut items p

/-- A write RPC; `ok` is `Success: true`. -/
def handleWrite (s : Server) (req : WriteRequest) : Except Pb.ErrorCode Server :=
  match s.checkWrite req.partitionId req.epoch with
  | .error e => .error e
  | .ok () =>
    match s.writeDB req.partitionId req.op with
    | .error _ => .error .internalError
    | .ok pm => .ok ({ s with pm := pm }.enqueue req.partitionId req.op)

end Server

/-! ## What a write stores and what it logs -/

/-- The writes of an operation on partition `p`. -/
def WriteOp.writes (p : UInt32) : WriteOp → List (Write Bytes Bytes)
  | .put key value => [.put (makePartitionKey p key) value]
  | .delete key => [.delete (makePartitionKey p key)]
  | .setFields pk fields => fieldWrites p (setBatch p pk fields)
  | .deleteField pk name => [.delete (makeFieldKey p pk name)]
  | .batchPut items => items.map fun item => .put (makePartitionKey p item.key) item.value

/-- The commands it appends to the log of `p`. -/
def WriteOp.commands (p : UInt32) : WriteOp → List Command
  | .put key value => [{ cmdType := .put, key := key, value := value }]
  | .delete key => [{ cmdType := .delete, key := key, value := [] }]
  | .setFields pk fields => [{ cmdType := .fieldBatch, key := [], value := (setBatch p pk fields).encode }]
  | .deleteField pk name => [{ cmdType := .fieldBatch, key := [], value := (deleteBatch p pk name).encode }]
  | .batchPut items => items.map fun item => { cmdType := .put, key := item.key, value := item.value }

namespace Server

theorem writeIf_ok {pm pm' : PartitionManager} {p : UInt32} {sts : List Pb.PartitionStatus}
    {ws : List (Write Bytes Bytes)} (h : pm.writeIf p sts ws = .ok pm') : pm' = { pm with db := pm.db.write ws } := by
  unfold PartitionManager.writeIf at h
  split at h
  · cases h
  · split_ifs at h
    cases h; rfl

/-- **The RocksDB half** applies the operation's writes and nothing else. -/
theorem writeDB_ok {s : Server} {p : UInt32} {op : WriteOp} {pm : PartitionManager} (h : s.writeDB p op = .ok pm) :
    pm = { s.pm with db := s.db.write (op.writes p) } := by
  cases op with
  | put key value => exact writeIf_ok h
  | delete key => exact writeIf_ok h
  | setFields pk fields => cases h; rfl
  | deleteField pk name => cases h; rfl
  | batchPut items => exact writeIf_ok h

theorem checkWrite_ok {s : Server} {p : UInt32} {epoch : UInt64} (h : s.checkWrite p epoch = .ok ()) :
    ∃ partition, s.pm.partitions.get p = some partition ∧ partition.isPrime = true ∧ epoch = partition.epoch := by
  unfold checkWrite at h
  split_ifs at h with hw hh hp
  cases hg : s.pm.partitions.get p with
  | none => simp [PartitionManager.hasPartition, OrdMap.contains, hg] at hh
  | some partition =>
    refine ⟨partition, rfl, ?_, ?_⟩
    · simpa [PartitionManager.isPrimary, hg] using hp
    · by_contra hne
      simp [PartitionManager.validateEpoch, hg, hne] at h

@[simp] theorem append_pm (s : Server) (p : UInt32) (c : Command) : (s.append p c).pm = s.pm := by
  unfold append
  split
  · rfl
  · split_ifs <;> rfl

@[simp] theorem append_replicators (s : Server) (p : UInt32) (c : Command) :
    (s.append p c).replicators = s.replicators := by
  unfold append
  split
  · rfl
  · split_ifs <;> rfl

theorem append_canWrite (s : Server) (p : UInt32) (c : Command) : (s.append p c).canWrite = s.canWrite := by
  unfold append
  split
  · rfl
  · split_ifs <;> rfl

/-- The log half is the operation's commands, appended one by one. -/
theorem enqueue_eq (s : Server) (p : UInt32) (op : WriteOp) :
    s.enqueue p op = (op.commands p).foldl (fun s c => s.append p c) s := by
  cases op with
  | batchPut items => simp only [enqueue, WriteOp.commands, List.foldl_map]; rfl
  | _ => rfl

theorem foldl_append_pm (p : UInt32) : ∀ (cs : List Command) (s : Server),
    (cs.foldl (fun s c => s.append p c) s).pm = s.pm
  | [], _ => rfl
  | c :: cs, s => by rw [List.foldl_cons, foldl_append_pm p cs, append_pm]

/-- An open replicator of the partition. -/
def Logging (s : Server) (p : UInt32) : Prop := ∃ r, s.replicators.get p = some r ∧ r.closed = false

theorem Logging.append {s : Server} {p : UInt32} (h : s.Logging p) (c : Command) :
    (s.append p c).Logging p ∧ (s.append p c).log p = s.log p ++ [c] := by
  obtain ⟨r, hr, hc⟩ := h
  refine ⟨⟨r, by rw [append_replicators, hr], hc⟩, ?_⟩
  unfold Server.append
  rw [hr]
  simp [hc, log]

theorem Logging.foldl_append {p : UInt32} : ∀ {s : Server} (cs : List Command), s.Logging p →
    (cs.foldl (fun s c => s.append p c) s).Logging p ∧ (cs.foldl (fun s c => s.append p c) s).log p = s.log p ++ cs
  | s, [], h => ⟨h, by simp⟩
  | s, c :: cs, h => by
    obtain ⟨h1, h2⟩ := h.append c
    obtain ⟨h3, h4⟩ := Logging.foldl_append cs h1
    exact ⟨h3, by rw [List.foldl_cons, h4, h2]; simp⟩

/-- **An acknowledged write** was checked against the node's partition, applied to the store, and handed to the
log; it leaves the partitions alone. -/
theorem handleWrite_ok {s s' : Server} {req : WriteRequest} (h : s.handleWrite req = .ok s') :
    s.checkWrite req.partitionId req.epoch = .ok () ∧
    s'.pm = { s.pm with db := s.db.write (req.op.writes req.partitionId) } ∧
    s' = (req.op.commands req.partitionId).foldl (fun s c => s.append req.partitionId c) { s with pm := s'.pm } := by
  unfold handleWrite at h
  split at h
  · cases h
  · rename_i hc
    split at h
    · cases h
    · rename_i pm hw
      cases h
      have hpm := writeDB_ok hw
      have e : ({ s with pm := pm }.enqueue req.partitionId req.op).pm = pm := by rw [enqueue_eq, foldl_append_pm]
      refine ⟨hc, by rw [e, hpm], ?_⟩
      rw [e, enqueue_eq]

/-- Requests one after another, all of them acknowledged. -/
def handleAll (s : Server) (reqs : List WriteRequest) : Except Pb.ErrorCode Server :=
  reqs.foldlM (fun s req => s.handleWrite req) s

/-- **Acknowledged requests on one partition** are all in its store and, in order, in its log. -/
theorem handleAll_ok {p : UInt32} : ∀ {reqs : List WriteRequest} {s s' : Server}, (∀ req ∈ reqs, req.partitionId = p) →
    s.Logging p → s.handleAll reqs = .ok s' →
    s'.db = s.db.write (reqs.flatMap fun req => req.op.writes p) ∧
      s'.log p = s.log p ++ reqs.flatMap fun req => req.op.commands p
  | [], s, s', _, _, h => by
    cases h
    simp
  | req :: reqs, s, s', hp, hl, h => by
    obtain rfl := hp req List.mem_cons_self
    rw [handleAll, List.foldlM_cons] at h
    cases hw : s.handleWrite req with
    | error e =>
      rw [hw] at h
      cases h
    | ok t =>
      rw [hw] at h
      obtain ⟨-, hpm, ht⟩ := handleWrite_ok hw
      have hl0 : ({ s with pm := t.pm } : Server).Logging req.partitionId := hl
      obtain ⟨hlt, hlog⟩ := Logging.foldl_append (req.op.commands req.partitionId) hl0
      rw [← ht] at hlt hlog
      obtain ⟨hdb, hlog'⟩ := handleAll_ok (fun r hr => hp r (List.mem_cons_of_mem _ hr)) hlt h
      have hdbt : t.db = s.db.write (req.op.writes req.partitionId) := by rw [db, hpm]
      refine ⟨?_, ?_⟩
      · rw [hdb, hdbt, List.flatMap_cons, write_append]
      · rw [hlog', hlog, List.flatMap_cons, ← List.append_assoc]
        rfl

end Server

/-- A node that holds an empty partition 7 as primary. -/
def primaryOfSeven : Server :=
  { pm :=
      { nodeID := "A"
        partitions := OrdMap.empty.insert 7 { id := 7, status := .normal, isPrime := true, epoch := 0 }
        db := OrdMap.empty }
    nodeLease := 1
    nodeLeaseLost := false
    replicators := OrdMap.empty.insert 7 { isPrimary := true, replicaAddr := "B", closed := false }
    logs := OrdMap.empty }

/-! ## The replica -/

/-- One entry of `Replicate`'s loop. -/
def Server.replicateEntry (s : Server) (partitionId : UInt32) (entry : Pb.ReplicationEntry) :
    Except String Server :=
  match entry.opType with
  | .delete =>
    match s.pm.delete entry.key partitionId with
    | .error e => .error e
    | .ok pm => .ok { s with pm := pm }
  | .put =>
    match s.pm.put entry.key entry.value partitionId with
    | .error e => .error e
    | .ok pm => .ok { s with pm := pm }
  | .fieldBatch =>
    match decodeFieldBatch entry.value with
    | .error e => .error e
    | .ok fb =>
      -- a batch of partition 0 falls back to the request's partition
      let partitionID := if fb.partitionID = 0 then partitionId else fb.partitionID
      .ok { s with pm := { s.pm with db := applyFieldBatch s.db partitionID fb } }

/-- `Replicate`'s loop: the first failing entry ends it, with the entries before it applied. -/
def Server.replicateFrom (s : Server) (partitionId : UInt32) (lastApplied : Int) :
    List Pb.ReplicationEntry → Server × Pb.ReplicateResponse
  | [] => (s, { success := true, lastAppliedOffset := lastApplied, errorMessage := "" })
  | entry :: rest =>
    match s.replicateEntry partitionId entry with
    | .error e => (s, { success := false, lastAppliedOffset := lastApplied, errorMessage := e })
    | .ok s' => s'.replicateFrom partitionId entry.offset rest

def Server.replicate (s : Server) (partitionId : UInt32) (entries : List Pb.ReplicationEntry) :
    Server × Pb.ReplicateResponse :=
  if !s.pm.hasPartition partitionId then
    (s, { success := false, lastAppliedOffset := 0, errorMessage := "partition not found" })
  else s.replicateFrom partitionId 0 entries

end RocksKV.Storage
