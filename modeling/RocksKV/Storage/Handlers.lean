import RocksKV.Storage.Server
/-!
# The write RPCs on a disk that may fail (`pkg/storage/server.go`)

| here | there |
| --- | --- |
| `put`, `delete`            | `Put` (`:354-416`), `Delete` (`:419-481`) |
| `setFields`, `deleteField` | `SetFields` (`:530-608`), `DeleteField` (`:611-681`) |
| `batchPut`                 | `BatchPut` (`:730-804`) |
| `respond`                  | what the five have in common |

`Storage.Server.handleWrite` is a write RPC whose disk works. Here RocksDB may refuse the write, which ends the
request with `INTERNAL_ERROR`, and the command log may refuse an append, which is reported to the node's own log
only (`:1345-1351`, `:1364-1369`): the client still gets `Success: true`.
-/

namespace RocksKV.Storage

open Lib

/-- The disk while one request runs. -/
structure Disk where
  /-- A RocksDB write that takes the first store to the second: what it leaves, and its error. -/
  commit        : RocksDB → RocksDB → RocksDB × Option String
  /-- A write is applied as a whole or not at all. -/
  commit_atomic : ∀ before after, commit before after = (after, none) ∨ ∃ e, commit before after = (before, some e)
  /-- The request's `i`-th append to the command log fails. -/
  appendFails   : Nat → Bool

namespace Disk

def working : Disk where
  commit _ after := (after, none)
  commit_atomic _ _ := .inl rfl
  appendFails _ := false

/-- The RocksDB half of a handler on this disk: an error of its own checks comes before the write. -/
def run (disk : Disk) (pm : PartitionManager) : Except String PartitionManager → PartitionManager × Option String
  | .error e => (pm, some e)
  | .ok written => ({ pm with db := (disk.commit pm.db written.db).1 }, (disk.commit pm.db written.db).2)

theorem run_failed {disk : Disk} {pm pm' : PartitionManager} {write : Except String PartitionManager} {e : String}
    (h : disk.run pm write = (pm', some e)) : pm' = pm := by
  cases write with
  | error e' => exact (Prod.mk.inj h).1.symm
  | ok written =>
    obtain ⟨hpm, he⟩ := Prod.mk.inj h
    rcases disk.commit_atomic pm.db written.db with hc | ⟨e', hc⟩
    · rw [hc] at he
      cases he
    · rw [← hpm, hc]

theorem run_done {disk : Disk} {pm pm' : PartitionManager} {write : Except String PartitionManager}
    (h : disk.run pm write = (pm', none)) : ∃ written, write = .ok written ∧ pm' = { pm with db := written.db } := by
  cases write with
  | error e => cases (Prod.mk.inj h).2
  | ok written =>
    obtain ⟨hpm, he⟩ := Prod.mk.inj h
    refine ⟨written, rfl, ?_⟩
    rcases disk.commit_atomic pm.db written.db with hc | ⟨e', hc⟩
    · rw [← hpm, hc]
    · rw [hc] at he
      cases he

end Disk

/-- `StoragePutResponse` and its siblings; only `StorageBatchPutResponse` has a count. -/
structure WriteResponse where
  success : Bool
  count   : Int32
  /-- `none` is `OK`. -/
  error   : Option Pb.ErrorCode
  deriving DecidableEq, Repr

namespace WriteResponse

def refused (error : Pb.ErrorCode) : WriteResponse := { success := false, count := 0, error := some error }

def accepted (count : Int32) : WriteResponse := { success := true, count := count, error := none }

end WriteResponse

namespace Server

/-- The shape of the five handlers: the checks, the RocksDB half, the log half. -/
def respond (s : Server) (disk : Disk) (partitionId : UInt32) (epoch : UInt64)
    (write : Except String PartitionManager) (log : Server → Server) (count : Int32) : Server × WriteResponse :=
  match s.checkWrite partitionId epoch with
  | .error e => (s, .refused e)
  | .ok () =>
    match disk.run s.pm write with
    | (pm, some _) => ({ s with pm := pm }, .refused .internalError)
    | (pm, none) => (log { s with pm := pm }, .accepted count)

/-- One call of `enqueueReplication` or `enqueueFieldBatchReplication`; its error does not reach the handler. -/
def tryLog (disk : Disk) (i : Nat) (append : Server → Server) (s : Server) : Server :=
  if disk.appendFails i then s else append s

def put (s : Server) (disk : Disk) (partitionId : UInt32) (epoch : UInt64) (key value : Bytes) :
    Server × WriteResponse :=
  s.respond disk partitionId epoch (s.pm.put key value partitionId)
    (tryLog disk 0 fun s => s.enqueueReplication partitionId key value false) 0

def delete (s : Server) (disk : Disk) (partitionId : UInt32) (epoch : UInt64) (key : Bytes) :
    Server × WriteResponse :=
  s.respond disk partitionId epoch (s.pm.delete key partitionId)
    (tryLog disk 0 fun s => s.enqueueReplication partitionId key [] true) 0

/-- The two field handlers write through a `FieldStorage` of their own, past the partition's status. -/
def setFields (s : Server) (disk : Disk) (partitionId : UInt32) (epoch : UInt64) (primaryKey : Bytes)
    (fields : List FieldUpdate) : Server × WriteResponse :=
  let fb := setBatch partitionId primaryKey fields
  s.respond disk partitionId epoch (.ok { s.pm with db := applyFieldBatch s.db partitionId fb })
    (tryLog disk 0 fun s => s.enqueueFieldBatchReplication partitionId fb.encode) 0

def deleteField (s : Server) (disk : Disk) (partitionId : UInt32) (epoch : UInt64) (primaryKey fieldName : Bytes) :
    Server × WriteResponse :=
  let fb := deleteBatch partitionId primaryKey fieldName
  s.respond disk partitionId epoch (.ok { s.pm with db := Storage.deleteField s.db partitionId primaryKey fieldName })
    (tryLog disk 0 fun s => s.enqueueFieldBatchReplication partitionId fb.encode) 0

/-- One RocksDB batch, then one append for each item. -/
def batchPut (s : Server) (disk : Disk) (partitionId : UInt32) (epoch : UInt64) (items : List KeyValueItem) :
    Server × WriteResponse :=
  s.respond disk partitionId epoch (s.pm.batchPut items partitionId)
    (fun s => items.zipIdx.foldl (fun s item =>
      tryLog disk item.2 (fun s => s.enqueueReplication partitionId item.1.key item.1.value false) s) s)
    (Int32.ofNat items.length)

/-- The RPC of a request. -/
def serve (s : Server) (disk : Disk) (req : WriteRequest) : Server × WriteResponse :=
  match req.op with
  | .put key value => s.put disk req.partitionId req.epoch key value
  | .delete key => s.delete disk req.partitionId req.epoch key
  | .setFields primaryKey fields => s.setFields disk req.partitionId req.epoch primaryKey fields
  | .deleteField primaryKey fieldName => s.deleteField disk req.partitionId req.epoch primaryKey fieldName
  | .batchPut items => s.batchPut disk req.partitionId req.epoch items

/-! ## What a request can do -/

/-- The log half of an operation. -/
def logOn (s : Server) (disk : Disk) (p : UInt32) : WriteOp → Server
  | .batchPut items => items.zipIdx.foldl (fun s item =>
      tryLog disk item.2 (fun s => s.enqueueReplication p item.1.key item.1.value false) s) s
  | op => tryLog disk 0 (fun s => s.enqueue p op) s

/-- The count of its response. -/
def countOf : WriteOp → Int32
  | .batchPut items => Int32.ofNat items.length
  | _ => 0

/-- **The five handlers are one**: each is the common shape around the operation's two halves. -/
theorem serve_eq (s : Server) (disk : Disk) (req : WriteRequest) :
    s.serve disk req = s.respond disk req.partitionId req.epoch (s.writeDB req.partitionId req.op)
      (fun s => s.logOn disk req.partitionId req.op) (countOf req.op) := by
  obtain ⟨p, epoch, op⟩ := req
  cases op <;> rfl

/-- **A request** either is refused and leaves the server as it was, or it passed the checks, its writes are in the
store, and it was handed to the log. -/
theorem serve_cases (s : Server) (disk : Disk) (req : WriteRequest) :
    (∃ e, s.serve disk req = (s, .refused e)) ∨
    s.checkWrite req.partitionId req.epoch = .ok () ∧
      s.serve disk req =
        ({ s with pm := { s.pm with db := s.db.write (req.op.writes req.partitionId) } }.logOn disk req.partitionId
          req.op, .accepted (countOf req.op)) := by
  rw [serve_eq]
  unfold respond
  cases hc : s.checkWrite req.partitionId req.epoch with
  | error e => exact .inl ⟨e, rfl⟩
  | ok u =>
    rcases hr : disk.run s.pm (s.writeDB req.partitionId req.op) with ⟨pm, _ | e⟩
    · right
      obtain ⟨written, hw, rfl⟩ := Disk.run_done hr
      refine ⟨rfl, ?_⟩
      rw [writeDB_ok hw]
    · left
      refine ⟨.internalError, ?_⟩
      rw [Disk.run_failed hr]

/-- The node holds a lease. -/
theorem checkWrite_lease {s : Server} {p : UInt32} {epoch : UInt64} (h : s.checkWrite p epoch = .ok ()) :
    s.nodeLeaseLost = false ∧ s.nodeLease ≠ 0 := by
  unfold checkWrite at h
  split_ifs at h with hw
  simpa [canWrite] using hw

/-- The log half leaves the store and the partitions alone. -/
theorem logOn_pm (s : Server) (disk : Disk) (p : UInt32) (op : WriteOp) : (s.logOn disk p op).pm = s.pm := by
  have htry : ∀ i (s : Server) (op : WriteOp), (tryLog disk i (fun s => s.enqueue p op) s).pm = s.pm := by
    intro i s op
    unfold tryLog
    split_ifs
    · rfl
    · show (s.enqueue p op).pm = s.pm
      rw [enqueue_eq, foldl_append_pm]
  cases op with
  | batchPut items =>
    refine List.foldlRecOn (motive := fun t : Server => t.pm = s.pm) items.zipIdx _ rfl fun t ht item _ => ?_
    exact (htry item.2 t (.put item.1.key item.1.value)).trans ht
  | _ => exact htry 0 s _

/-- Nor does it touch the lease. -/
theorem logOn_canWrite (s : Server) (disk : Disk) (p : UInt32) (op : WriteOp) :
    (s.logOn disk p op).canWrite = s.canWrite := by
  have htry : ∀ i (s : Server) (op : WriteOp), (tryLog disk i (fun s => s.enqueue p op) s).canWrite = s.canWrite := by
    intro i s op
    unfold tryLog
    split_ifs
    · rfl
    · show (s.enqueue p op).canWrite = s.canWrite
      rw [enqueue_eq]
      exact List.foldlRecOn (motive := fun t : Server => t.canWrite = s.canWrite) _ _ rfl fun t ht c _ =>
        (t.append_canWrite p c).trans ht
  cases op with
  | batchPut items =>
    refine List.foldlRecOn (motive := fun t : Server => t.canWrite = s.canWrite) items.zipIdx _ rfl fun t ht item _ => ?_
    exact (htry item.2 t (.put item.1.key item.1.value)).trans ht
  | _ => exact htry 0 s _

/-- Where every append works the log half is `enqueue`. -/
theorem logOn_of_appends {disk : Disk} (happend : ∀ i, disk.appendFails i = false) (s : Server) (p : UInt32)
    (op : WriteOp) : s.logOn disk p op = s.enqueue p op := by
  have htry : ∀ i append (s : Server), tryLog disk i append s = append s := by
    intro i append s
    rw [tryLog, happend, if_neg (by simp)]
  cases op with
  | batchPut items =>
    simp only [logOn, htry]
    conv_rhs => rw [enqueue, ← List.zipIdx_map_fst 0 items, List.foldl_map]
  | _ => exact htry 0 (fun s => s.enqueue p _) s

/-- **A handler on a disk that works** is `handleWrite`. -/
theorem serve_working (s : Server) (req : WriteRequest) :
    s.serve .working req =
      match s.handleWrite req with
      | .error e => (s, .refused e)
      | .ok s' => (s', .accepted (countOf req.op)) := by
  rw [serve_eq]
  unfold respond handleWrite
  cases s.checkWrite req.partitionId req.epoch with
  | error e => rfl
  | ok u =>
    cases hw : s.writeDB req.partitionId req.op with
    | error e => rfl
    | ok pm =>
      obtain rfl := writeDB_ok hw
      exact congrArg (·, WriteResponse.accepted (countOf req.op)) (logOn_of_appends (fun _ => rfl) _ _ _)

/-! ## Fencing -/

/-- **Every write path is fenced**: the store or a command log changes only under a valid lease, for a partition
the node is primary of, at that partition's epoch; and a request that is not acknowledged changes nothing. -/
theorem serve_fenced (s : Server) (disk : Disk) (req : WriteRequest) :
    ((s.serve disk req).1.db ≠ s.db ∨ (s.serve disk req).1.logs ≠ s.logs →
      (s.nodeLeaseLost = false ∧ s.nodeLease ≠ 0) ∧
      ∃ partition, s.pm.partitions.get req.partitionId = some partition ∧ partition.isPrime = true ∧
        req.epoch = partition.epoch) ∧
    ((s.serve disk req).2.success = false →
      (s.serve disk req).1.db = s.db ∧ (s.serve disk req).1.pm.partitions = s.pm.partitions ∧
      (s.serve disk req).1.logs = s.logs) := by
  rcases s.serve_cases disk req with ⟨e, h⟩ | ⟨hc, h⟩
  · rw [h]
    refine ⟨fun hchanged => ?_, fun _ => ⟨rfl, rfl, rfl⟩⟩
    rcases hchanged with hdb | hlogs
    · exact absurd rfl hdb
    · exact absurd rfl hlogs
  · refine ⟨fun _ => ⟨checkWrite_lease hc, checkWrite_ok hc⟩, fun hrefused => ?_⟩
    rw [h] at hrefused
    cases hrefused

/-- A put at the partition's epoch, 0, is logged; one at epoch 1 is fenced. -/
theorem serve_fenced_primaryOfSeven :
    ((primaryOfSeven.serve .working ⟨7, 0, .put [1] [2]⟩).1.logs ≠ primaryOfSeven.logs ∧
      ∃ partition, primaryOfSeven.pm.partitions.get 7 = some partition ∧ partition.isPrime = true ∧ 0 = partition.epoch) ∧
    (primaryOfSeven.serve .working ⟨7, 1, .put [1] [2]⟩).2 = .refused .epochFenced ∧
      (primaryOfSeven.serve .working ⟨7, 1, .put [1] [2]⟩).1.db = primaryOfSeven.db := by
  have hlogged : (primaryOfSeven.serve .working ⟨7, 0, .put [1] [2]⟩).1.logs ≠ primaryOfSeven.logs := by decide
  refine ⟨⟨hlogged, ?_⟩, by decide, ?_⟩
  · exact ((serve_fenced primaryOfSeven .working ⟨7, 0, .put [1] [2]⟩).1 (.inr hlogged)).2
  · exact ((serve_fenced primaryOfSeven .working ⟨7, 1, .put [1] [2]⟩).2 (by decide)).1

/-! ## Runs -/

/-- Requests one after another, each on the disk it finds; with the requests that were acknowledged. -/
def serveAll (s : Server) : List (Disk × WriteRequest) → Server × List WriteRequest
  | [] => (s, [])
  | (disk, req) :: rest =>
    let (s', response) := s.serve disk req
    let (last, acknowledged) := s'.serveAll rest
    (last, if response.success then req :: acknowledged else acknowledged)

/-- **The store is what was acknowledged**: whatever the disk does, a run of requests leaves the acknowledged ones'
writes, in order, and the partitions as they were. -/
theorem serveAll_pm (reqs : List (Disk × WriteRequest)) (s : Server) :
    (s.serveAll reqs).1.pm =
      { s.pm with db := s.db.write ((s.serveAll reqs).2.flatMap fun req => req.op.writes req.partitionId) } := by
  induction reqs generalizing s with
  | nil => rfl
  | cons r reqs ih =>
    obtain ⟨disk, req⟩ := r
    rcases s.serve_cases disk req with ⟨e, h⟩ | ⟨-, h⟩
    · simp only [serveAll, h]
      exact ih s
    · simp only [serveAll, h]
      rw [ih]
      simp only [db, logOn_pm, WriteResponse.accepted, if_true, List.flatMap_cons, write_append]

end Server

end RocksKV.Storage
