import RocksKV.Compute.Router
import RocksKV.Storage.FieldStorage
import RocksKV.Storage.Handlers
/-!
# Gets and puts on a compute server (`pkg/compute/server.go:145-265`)

| here | there |
| --- | --- |
| `calculatePartition` | `CalculatePartition` (`router.go:114-116`); the hash, xxHash64, is a parameter |
| `get`, `doGet` | `Server.Get` (`:145-175`): the primary, and the replica if that fails; `doGet` (`:178-208`) |
| `put`, `doPut` | `Server.Put` (`:211-233`): the primary only; `doPut` (`:236-265`) |

`fails` says which calls to a storage node end without its answer, with the text `doGet` or `doPut` makes of that.
An error is given by the text of its status, whose code is always `Internal`.
-/

namespace RocksKV.Pb

/-- `ErrorCode.String`. -/
def ErrorCode.string : ErrorCode → String
  | partitionNotFound => "PARTITION_NOT_FOUND"
  | partitionMoved => "PARTITION_MOVED"
  | keyNotFound => "KEY_NOT_FOUND"
  | internalError => "INTERNAL_ERROR"
  | notPrimary => "NOT_PRIMARY"
  | epochFenced => "EPOCH_FENCED"

end RocksKV.Pb

namespace RocksKV.Compute

open Lib Storage

/-- The storage nodes by address. -/
abbrev Nodes := String → Storage.Server

def calculatePartition (sum64 : Bytes → UInt64) (key : Bytes) : UInt32 := (sum64 key % 4096).toUInt32

/-- A key of partition 7. -/
def keyOfSeven : Bytes := [151, 54]

/-- A key of partition 8. -/
def keyOfEight : Bytes := [230, 57]

/-- What xxHash64 gives for the two keys. -/
def sum64OfTwo (key : Bytes) : UInt64 := if key = keyOfEight then 0x163494d572622008 else 0x462245eb3ab47007

example : calculatePartition sum64OfTwo keyOfSeven = 7 ∧ calculatePartition sum64OfTwo keyOfEight = 8 := by decide

def doGet (nodes : Nodes) (fails : String → Option String) (nodeID : String) (key : Bytes) (partitionID : UInt32) :
    Except String (Option Bytes) :=
  match fails nodeID with
  | some err => .error err
  | none =>
    match (nodes nodeID).get partitionID key with
    | .error code => .error s!"storage error: {code.string}"
    | .ok value => .ok value

def get (sum64 : Bytes → UInt64) (table : RouteTable) (nodes : Nodes) (fails : String → Option String) (key : Bytes) :
    Except String (Option Bytes) :=
  let partitionID := calculatePartition sum64 key
  match getPartitionNodesByID table partitionID with
  | .error err => .error s!"routing failed: {err}"
  | .ok (primary, replica, _) =>
    match doGet nodes fails primary key partitionID with
    | .ok value => .ok value
    | .error _ =>
      match doGet nodes fails replica key partitionID with
      | .ok value => .ok value
      | .error err => .error s!"get failed on both replicas: {err}"

def doPut (nodes : Nodes) (fails : String → Option String) (disk : Disk) (nodeID : String) (key value : Bytes)
    (partitionID : UInt32) (epoch : UInt64) : Except String Nodes :=
  match fails nodeID with
  | some err => .error err
  | none =>
    let (server, resp) := (nodes nodeID).put disk partitionID epoch key value
    if !resp.success || resp.error.isSome then
      let code := (resp.error.map Pb.ErrorCode.string).getD "OK"
      .error s!"storage error: {code}"
    else .ok (Function.update nodes nodeID server)

def put (sum64 : Bytes → UInt64) (table : RouteTable) (nodes : Nodes) (fails : String → Option String) (disk : Disk)
    (key value : Bytes) : Except String Nodes :=
  let partitionID := calculatePartition sum64 key
  match getPartitionNodesByID table partitionID with
  | .error err => .error s!"routing failed: {err}"
  | .ok (primary, _, epoch) =>
    match doPut nodes fails disk primary key value partitionID epoch with
    | .ok nodes => .ok nodes
    | .error err => .error s!"put failed: {err}"

variable {sum64 : Bytes → UInt64} {table : RouteTable} {nodes nodes' : Nodes} {fails : String → Option String}
  {home replica : String} {epoch : UInt64} {key : Bytes}

/-- **A get whose primary answers** reads the primary. -/
theorem get_of_primary (hroute : getPartitionNodesByID table (calculatePartition sum64 key) = .ok (home, replica, epoch))
    (hup : fails home = none) (hhost : (nodes home).pm.hasPartition (calculatePartition sum64 key) = true) :
    get sum64 table nodes fails key = .ok ((nodes home).db.get (makePartitionKey (calculatePartition sum64 key) key)) := by
  simp only [get, hroute, doGet, hup, Server.get_of_hosted hhost]

/-- **A put** is one request to the primary, which has stored the value. -/
theorem put_of_primary {disk : Disk} {value : Bytes}
    (hroute : getPartitionNodesByID table (calculatePartition sum64 key) = .ok (home, replica, epoch))
    (h : put sum64 table nodes fails disk key value = .ok nodes') :
    (nodes' home).db = (nodes home).db.write [.put (makePartitionKey (calculatePartition sum64 key) key) value] ∧
      (nodes' home).pm.partitions = (nodes home).pm.partitions ∧ ∀ n, n ≠ home → nodes' n = nodes n := by
  simp only [put, hroute] at h
  split at h
  · rename_i stored hput
    cases h
    unfold doPut at hput
    split at hput
    · cases hput
    · dsimp only at hput
      split_ifs at hput with hrefused
      cases hput
      have hserve : (nodes home).put disk (calculatePartition sum64 key) epoch key value =
          (nodes home).serve disk ⟨calculatePartition sum64 key, epoch, .put key value⟩ := rfl
      rcases (nodes home).serve_cases disk ⟨calculatePartition sum64 key, epoch, .put key value⟩ with ⟨e, he⟩ | ⟨-, hok⟩
      · rw [hserve, he] at hrefused
        exact absurd rfl hrefused
      · rw [hserve, hok, Function.update_self]
        refine ⟨?_, ?_, fun n hn => Function.update_of_ne hn ..⟩
        · rw [Server.db, Server.logOn_pm]
          rfl
        · rw [Server.logOn_pm]
  · cases h

end RocksKV.Compute
