import RocksKV.Lib.Bytes
/-!
# Wire messages (`pkg/proto/rockskv.pb.go`)

The messages the modelled services exchange, with the fields their handlers read. Versions (`uint64`) are
natural numbers: they start at zero and grow by one, and no run is long enough to wrap them.
-/

namespace RocksKV.Pb

open Lib

inductive ErrorCode
  | partitionNotFound | partitionMoved | keyNotFound | internalError | notPrimary | epochFenced
  deriving DecidableEq, Repr

inductive PartitionStatus
  | normal | migratingOut | migratingIn | offline
  deriving DecidableEq, Repr

/-- `PartitionStatus.String`. -/
def PartitionStatus.string : PartitionStatus → String
  | normal => "NORMAL"
  | migratingOut => "MIGRATING_OUT"
  | migratingIn => "MIGRATING_IN"
  | offline => "OFFLINE"

inductive MigrationState
  | none | preparing | copying | catchup | switching | complete | failed
  deriving DecidableEq, Repr

structure PartitionInfo where
  partitionId     : UInt32
  primary         : String
  replica         : String
  status          : PartitionStatus
  migrationTarget : String
  migrationState  : MigrationState
  /-- Fencing token; zero when the sender leaves it out. -/
  epoch           : UInt64 := 0
  deriving DecidableEq, Repr

structure RouteUpdate where
  version    : Nat
  partitions : List PartitionInfo
  deriving DecidableEq, Repr

inductive ReplicationOpType
  | put | delete | fieldBatch
  deriving DecidableEq, Repr

structure ReplicationEntry where
  offset   : Int
  key      : Bytes
  value    : Bytes
  opType   : ReplicationOpType
  deriving DecidableEq, Repr

structure ReplicateResponse where
  success           : Bool
  lastAppliedOffset : Int
  errorMessage      : String
  deriving DecidableEq, Repr

/-- A piece of an exported partition; the name of the file and the progress counters play no part. -/
structure SSTChunk where
  data        : Bytes
  isLast      : Bool
  partitionId : UInt32
  deriving DecidableEq, Repr

end RocksKV.Pb
