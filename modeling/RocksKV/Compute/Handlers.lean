import RocksKV.Compute.Server
/-!
# The other handlers of a compute server (`pkg/compute/server.go:268-626`)

| here | there |
| --- | --- |
| `doWrite`, `write` | what `doPut`, `doDelete`, `doSetFields`, `doDeleteField` and their callers have in common |
| `delete`, `doDelete` | `Delete` (`:268-290`), `doDelete` (`:293-321`) |
| `setField`, `setFields`, `doSetFields` | `SetField` (`:393-417`), `SetFields` (`:420-442`), `doSetFields` (`:445-474`) |
| `deleteField`, `doDeleteField` | `DeleteField` (`:477-499`), `doDeleteField` (`:502-531`) |
| `doRead`, `read` | what `doGet`, `doGetField`, `doGetAllFields` and their callers have in common |
| `getField`, `doGetField` | `GetField` (`:324-356`), `doGetField` (`:359-390`) |
| `getAllFields`, `doGetAllFields` | `GetAllFields` (`:534-564`), `doGetAllFields` (`:567-596`); `Found` says whether there are fields |
| `batchGet` | `BatchGet` (`:600-626`) |

A write goes to the primary only, a read to the replica if the primary gives no answer or an error. `BatchGet` has no
error of its own: a key whose `Get` fails is reported as not found.
-/

namespace RocksKV.Compute

open Lib Storage

/-! ## Writes -/

def doWrite (nodes : Nodes) (fails : String → Option String) (disk : Disk) (nodeID : String) (partitionID : UInt32)
    (epoch : UInt64) (op : WriteOp) : Except String Nodes :=
  match fails nodeID with
  | some err => .error err
  | none =>
    let (server, resp) := (nodes nodeID).serve disk ⟨partitionID, epoch, op⟩
    if !resp.success || resp.error.isSome then
      let code := (resp.error.map Pb.ErrorCode.string).getD "OK"
      .error s!"storage error: {code}"
    else .ok (Function.update nodes nodeID server)

def doDelete (nodes : Nodes) (fails : String → Option String) (disk : Disk) (nodeID : String) (key : Bytes)
    (partitionID : UInt32) (epoch : UInt64) : Except String Nodes :=
  doWrite nodes fails disk nodeID partitionID epoch (.delete key)

def doSetFields (nodes : Nodes) (fails : String → Option String) (disk : Disk) (nodeID : String) (pk : Bytes)
    (fields : List FieldUpdate) (partitionID : UInt32) (epoch : UInt64) : Except String Nodes :=
  doWrite nodes fails disk nodeID partitionID epoch (.setFields pk fields)

def doDeleteField (nodes : Nodes) (fails : String → Option String) (disk : Disk) (nodeID : String)
    (pk fieldName : Bytes) (partitionID : UInt32) (epoch : UInt64) : Except String Nodes :=
  doWrite nodes fails disk nodeID partitionID epoch (.deleteField pk fieldName)

/-- A handler that routes `key` and calls the primary; `failed` introduces the error of the call. -/
def write (sum64 : Bytes → UInt64) (table : RouteTable) (key : Bytes) (failed : String)
    (call : String → UInt32 → UInt64 → Except String Nodes) : Except String Nodes :=
  let partitionID := calculatePartition sum64 key
  match getPartitionNodesByID table partitionID with
  | .error err => .error s!"routing failed: {err}"
  | .ok (primary, _, epoch) =>
    match call primary partitionID epoch with
    | .ok nodes => .ok nodes
    | .error err => .error s!"{failed}: {err}"

def delete (sum64 : Bytes → UInt64) (table : RouteTable) (nodes : Nodes) (fails : String → Option String) (disk : Disk)
    (key : Bytes) : Except String Nodes :=
  write sum64 table key "delete failed" fun primary partitionID epoch =>
    doDelete nodes fails disk primary key partitionID epoch

def setField (sum64 : Bytes → UInt64) (table : RouteTable) (nodes : Nodes) (fails : String → Option String)
    (disk : Disk) (primaryKey fieldName value : Bytes) : Except String Nodes :=
  write sum64 table primaryKey "set_field failed" fun primary partitionID epoch =>
    doSetFields nodes fails disk primary primaryKey [⟨fieldName, value, false⟩] partitionID epoch

def setFields (sum64 : Bytes → UInt64) (table : RouteTable) (nodes : Nodes) (fails : String → Option String)
    (disk : Disk) (primaryKey : Bytes) (fields : List FieldUpdate) : Except String Nodes :=
  write sum64 table primaryKey "set_fields failed" fun primary partitionID epoch =>
    doSetFields nodes fails disk primary primaryKey fields partitionID epoch

def deleteField (sum64 : Bytes → UInt64) (table : RouteTable) (nodes : Nodes) (fails : String → Option String)
    (disk : Disk) (primaryKey fieldName : Bytes) : Except String Nodes :=
  write sum64 table primaryKey "delete_field failed" fun primary partitionID epoch =>
    doDeleteField nodes fails disk primary primaryKey fieldName partitionID epoch

/-- `Put` has the same shape. -/
theorem put_eq_write (sum64 : Bytes → UInt64) (table : RouteTable) (nodes : Nodes) (fails : String → Option String)
    (disk : Disk) (key value : Bytes) : put sum64 table nodes fails disk key value =
      write sum64 table key "put failed" fun primary partitionID epoch =>
        doWrite nodes fails disk primary partitionID epoch (.put key value) := rfl

/-! ## Reads -/

def doRead {α : Type} (nodes : Nodes) (fails : String → Option String) (nodeID : String)
    (handler : Storage.Server → Except Pb.ErrorCode α) : Except String α :=
  match fails nodeID with
  | some err => .error err
  | none =>
    match handler (nodes nodeID) with
    | .error code => .error s!"storage error: {code.string}"
    | .ok answer => .ok answer

theorem doGet_eq_doRead (nodes : Nodes) (fails : String → Option String) (nodeID : String) (key : Bytes)
    (partitionID : UInt32) :
    doGet nodes fails nodeID key partitionID = doRead nodes fails nodeID fun server => server.get partitionID key := by
  unfold doGet doRead
  cases fails nodeID with
  | some err => rfl
  | none =>
    dsimp only
    cases (nodes nodeID).get partitionID key <;> rfl

def doGetField (nodes : Nodes) (fails : String → Option String) (nodeID : String) (pk fieldName : Bytes)
    (partitionID : UInt32) : Except String (Option Bytes) :=
  doRead nodes fails nodeID fun server => server.getField partitionID pk fieldName

def doGetAllFields (nodes : Nodes) (fails : String → Option String) (nodeID : String) (pk : Bytes)
    (partitionID : UInt32) : Except String (OrdMap Bytes Bytes) :=
  doRead nodes fails nodeID fun server => server.getAllFields partitionID pk

/-- A handler that routes `key` and calls the primary, and the replica if that fails; `failed` makes one error of the
two. -/
def read {α : Type} (sum64 : Bytes → UInt64) (table : RouteTable) (key : Bytes) (failed : String → String → String)
    (call : String → UInt32 → Except String α) : Except String α :=
  let partitionID := calculatePartition sum64 key
  match getPartitionNodesByID table partitionID with
  | .error err => .error s!"routing failed: {err}"
  | .ok (primary, replica, _) =>
    match call primary partitionID with
    | .ok answer => .ok answer
    | .error primaryErr =>
      match call replica partitionID with
      | .ok answer => .ok answer
      | .error replicaErr => .error (failed primaryErr replicaErr)

/-- The one handler that reports both errors. -/
def getField (sum64 : Bytes → UInt64) (table : RouteTable) (nodes : Nodes) (fails : String → Option String)
    (primaryKey fieldName : Bytes) : Except String (Option Bytes) :=
  read sum64 table primaryKey
    (fun primaryErr replicaErr => s!"get_field failed on primary ({primaryErr}) and replica ({replicaErr})")
    fun nodeID partitionID => doGetField nodes fails nodeID primaryKey fieldName partitionID

def getAllFields (sum64 : Bytes → UInt64) (table : RouteTable) (nodes : Nodes) (fails : String → Option String)
    (primaryKey : Bytes) : Except String (OrdMap Bytes Bytes) :=
  read sum64 table primaryKey (fun _ err => s!"get_all_fields failed on both replicas: {err}")
    fun nodeID partitionID => doGetAllFields nodes fails nodeID primaryKey partitionID

/-- `Get` has the same shape. -/
theorem get_eq_read (sum64 : Bytes → UInt64) (table : RouteTable) (nodes : Nodes) (fails : String → Option String)
    (key : Bytes) : get sum64 table nodes fails key =
      read sum64 table key (fun _ err => s!"get failed on both replicas: {err}") fun nodeID partitionID =>
        doRead nodes fails nodeID fun server => server.get partitionID key := by
  simp only [get, read, doGet_eq_doRead]
  cases getPartitionNodesByID table (calculatePartition sum64 key) with
  | error err => rfl
  | ok route =>
    dsimp only
    cases doRead nodes fails route.1 fun server => server.get (calculatePartition sum64 key) key with
    | ok value => rfl
    | error err =>
      dsimp only
      cases doRead nodes fails route.2.1 fun server => server.get (calculatePartition sum64 key) key <;> rfl

/-- `fails i` is for the `i`-th key. -/
def batchGet (sum64 : Bytes → UInt64) (table : RouteTable) (nodes : Nodes) (fails : Nat → String → Option String)
    (keys : List Bytes) : List (Bytes × Option Bytes) :=
  keys.zipIdx.map fun (key, i) =>
    match get sum64 table nodes (fails i) key with
    | .error _ => (key, none)
    | .ok value => (key, value)

end RocksKV.Compute
