import RocksKV.Lib.Writes
import RocksKV.Proto
import RocksKV.Storage.FieldBatch
/-!
# Partitions on a storage node (`pkg/storage/partition.go`, `rocksdb.go`, `field_storage.go`)

| here | there |
| --- | --- |
| `RocksDB`                  | the store behind `rocksdb.go`: a map, iterated in bytewise key order |
| `addPartition`, `addPartitionWithEpoch` | `AddPartition`, `AddPartitionWithEpoch` (`partition.go:126-172`) |
| `updatePartitionEpoch`, `validateEpoch` | `UpdatePartitionEpoch`, `ValidateEpoch` (`partition.go:175-216`) |
| `removePartition`, `setPartitionStatus` | `RemovePartition`, `SetPartitionStatus` (`partition.go:219-304`) |
| `get`, `put`, `delete`, `batchPut`      | the data operations (`partition.go:306-370`) |
| `updateFromRouteTable`                  | `UpdateFromRouteTable` (`partition.go:389-436`) |
| `applyFieldBatch`, `deleteField`        | `FieldStorage` over the same store (`field_storage.go:305-308`, `:378-394`) |

A write batch is applied atomically and in order; RocksDB calls succeed.
-/

namespace RocksKV.Storage

open Lib

abbrev RocksDB := OrdMap Bytes Bytes

structure KeyValueItem where
  key   : Bytes
  value : Bytes
  deriving DecidableEq, Repr

structure Partition where
  id      : UInt32
  status  : Pb.PartitionStatus
  /-- This node is the primary of the partition. -/
  isPrime : Bool
  epoch   : UInt64
  deriving DecidableEq, Repr

structure PartitionManager where
  nodeID     : String
  partitions : OrdMap UInt32 Partition
  db         : RocksDB

namespace PartitionManager

def hasPartition (pm : PartitionManager) (partitionID : UInt32) : Bool := pm.partitions.contains partitionID

def isPrimary (pm : PartitionManager) (partitionID : UInt32) : Bool :=
  match pm.partitions.get partitionID with
  | none => false
  | some partition => partition.isPrime

def listPartitions (pm : PartitionManager) : List UInt32 := pm.partitions.keys

def addPartitionWithEpoch (pm : PartitionManager) (partitionID : UInt32) (isPrimary : Bool) (epoch : UInt64) :
    Except String PartitionManager :=
  if pm.hasPartition partitionID then .error s!"partition {partitionID} already exists"
  else
    let partition : Partition := { id := partitionID, status := .normal, isPrime := isPrimary, epoch := epoch }
    .ok { pm with partitions := pm.partitions.insert partitionID partition }

/-- `AddPartition` leaves the epoch at its zero value. -/
def addPartition (pm : PartitionManager) (partitionID : UInt32) (isPrimary : Bool) : Except String PartitionManager :=
  pm.addPartitionWithEpoch partitionID isPrimary 0

/-- Rewrite a hosted partition in place. -/
def modify (pm : PartitionManager) (partitionID : UInt32) (f : Partition → Partition) :
    Except String PartitionManager :=
  match pm.partitions.get partitionID with
  | none => .error s!"partition {partitionID} not found"
  | some partition => .ok { pm with partitions := pm.partitions.insert partitionID (f partition) }

def updatePartitionEpoch (pm : PartitionManager) (partitionID : UInt32) (epoch : UInt64) :
    Except String PartitionManager :=
  pm.modify partitionID fun partition =>
    if partition.epoch < epoch then { partition with epoch := epoch } else partition

def setPartitionStatus (pm : PartitionManager) (partitionID : UInt32) (status : Pb.PartitionStatus) :
    Except String PartitionManager :=
  pm.modify partitionID fun partition => { partition with status := status }

def removePartition (pm : PartitionManager) (partitionID : UInt32) : Except String PartitionManager :=
  if pm.hasPartition partitionID then .ok { pm with partitions := pm.partitions.erase partitionID }
  else .error s!"partition {partitionID} not found"

def validateEpoch (pm : PartitionManager) (partitionID : UInt32) (requestEpoch : UInt64) : Except String Unit :=
  match pm.partitions.get partitionID with
  | none => .error s!"partition {partitionID} not found"
  | some partition =>
    if requestEpoch ≠ partition.epoch then
      .error s!"epoch mismatch: request={requestEpoch}, current={partition.epoch}"
    else .ok ()

theorem hasPartition_eq_true {pm : PartitionManager} {p : UInt32} :
    pm.hasPartition p = true ↔ ∃ q, pm.partitions.get p = some q := Option.isSome_iff_exists

theorem hasPartition_eq_false {pm : PartitionManager} {p : UInt32} :
    pm.hasPartition p = false ↔ pm.partitions.get p = none := OrdMap.contains_eq_false

theorem addPartitionWithEpoch_of_absent {pm : PartitionManager} {p : UInt32} (h : pm.hasPartition p = false)
    (isPrimary : Bool) (epoch : UInt64) :
    pm.addPartitionWithEpoch p isPrimary epoch =
      .ok { pm with partitions := pm.partitions.insert p ⟨p, .normal, isPrimary, epoch⟩ } := by
  simp [addPartitionWithEpoch, h]

theorem modify_of_hosted {pm : PartitionManager} {p : UInt32} {q : Partition} (h : pm.partitions.get p = some q)
    (f : Partition → Partition) :
    pm.modify p f = .ok { pm with partitions := pm.partitions.insert p (f q) } := by
  simp [modify, h]

/-! ## Data -/

def get (pm : PartitionManager) (key : Bytes) (partitionID : UInt32) : Except String (Option Bytes) :=
  if pm.hasPartition partitionID then .ok (pm.db.get (makePartitionKey partitionID key))
  else .error s!"partition {partitionID} not found on this node"

/-- The shape of `Put`, `Delete` and `BatchPut`: the partition must be here and in one of the
`writable` states, then the writes go to the store. -/
def writeIf (pm : PartitionManager) (partitionID : UInt32) (writable : List Pb.PartitionStatus)
    (writes : List (Write Bytes Bytes)) : Except String PartitionManager :=
  match pm.partitions.get partitionID with
  | none => .error s!"partition {partitionID} not found on this node"
  | some partition =>
    if partition.status ∈ writable then .ok { pm with db := pm.db.write writes }
    else .error s!"partition {partitionID} is not writable (status: {partition.status.string})"

def put (pm : PartitionManager) (key value : Bytes) (partitionID : UInt32) : Except String PartitionManager :=
  pm.writeIf partitionID [.normal, .migratingIn] [.put (makePartitionKey partitionID key) value]

def delete (pm : PartitionManager) (key : Bytes) (partitionID : UInt32) : Except String PartitionManager :=
  pm.writeIf partitionID [.normal] [.delete (makePartitionKey partitionID key)]

def batchPut (pm : PartitionManager) (items : List KeyValueItem) (partitionID : UInt32) :
    Except String PartitionManager :=
  pm.writeIf partitionID [.normal, .migratingIn]
    (items.map fun item => .put (makePartitionKey partitionID item.key) item.value)

end PartitionManager

/-- The batch `ApplyFieldBatch` writes; the keys use the partition of the field storage, not the batch's. -/
def fieldWrites (partitionID : UInt32) (fb : FieldBatch) : List (Write Bytes Bytes) :=
  fb.updates.map fun update =>
    let key := makeFieldKey partitionID fb.primaryKey update.fieldName
    if update.isDelete then .delete key else .put key update.value

def applyFieldBatch (db : RocksDB) (partitionID : UInt32) (fb : FieldBatch) : RocksDB :=
  db.write (fieldWrites partitionID fb)

def deleteField (db : RocksDB) (partitionID : UInt32) (pk fieldName : Bytes) : RocksDB :=
  db.write [.delete (makeFieldKey partitionID pk fieldName)]

/-! ## Route tables -/

/-- One entry of `UpdateFromRouteTable`'s loop: a partition of this node is added with the table's status,
or its status and role are set. -/
def PartitionManager.updateFromEntry (pm : PartitionManager) (p : Pb.PartitionInfo) : PartitionManager :=
  let isPrimary := decide (p.primary = pm.nodeID)
  let isReplica := decide (p.replica = pm.nodeID)
  if isPrimary || isReplica then
    let partition : Partition :=
      match pm.partitions.get p.partitionId with
      | none => { id := p.partitionId, status := p.status, isPrime := isPrimary, epoch := 0 }
      | some existing => { existing with status := p.status, isPrime := isPrimary }
    { pm with partitions := pm.partitions.insert p.partitionId partition }
  else pm

/-- The ids of the partitions a table places on `addr`. -/
def placedOn (partitions : List Pb.PartitionInfo) (addr : String) : List UInt32 :=
  (partitions.filter fun p => decide (p.primary = addr) || decide (p.replica = addr)).map Pb.PartitionInfo.partitionId

def PartitionManager.updateFromRouteTable (pm : PartitionManager) (partitions : List Pb.PartitionInfo) :
    PartitionManager :=
  let shouldExist := placedOn partitions pm.nodeID
  let pm := partitions.foldl PartitionManager.updateFromEntry pm
  { pm with partitions := pm.partitions.keep fun id => decide (id ∈ shouldExist) }

end RocksKV.Storage
