import RocksKV.Cluster.Store
import RocksKV.Compute.Handlers
import RocksKV.Storage.Documents
/-!
# Requests to the cluster (`pkg/compute/server.go:145-713` over `pkg/storage/server.go:308-804`)

| here | there |
| --- | --- |
| `Request`, `State.request` | the ten handlers of `KVService` on a compute server whose routing table does not change |
| `State.unanswered` | calls to a storage node that timed out or whose connection broke (`err != nil` after `client.Put` and its siblings) |
| `StoreAct.late`    | the storage node serves such a call after all |
| `contentsOf`       | what the primaries hold |

Cells are stored under different keys (`Cell.userKey_inj`) unless a plain key has the shape of a field's
(`Storage.Separation`), so a call changes the cells it names (`contentsOf_serve`), and a read that the replica does not
answer in the primary's place reads the cell (`read_direct`).
-/

namespace RocksKV.Cluster

open Lib Storage Compute

/-- What a write does to the store. -/
def changes : WriteOp → List Change
  | .put key value => [(.plain key, some value)]
  | .delete key => [(.plain key, none)]
  | .setFields pk fields => fields.map fun u => (.field pk u.fieldName, if u.isDelete then none else some u.value)
  | .deleteField pk name => [(.field pk name, none)]
  | .batchPut items => itemChanges items

inductive Request
  | put (key value : Bytes)
  | delete (key : Bytes)
  | setField (primaryKey fieldName value : Bytes)
  | setFields (primaryKey : Bytes) (fields : List FieldUpdate)
  | deleteField (primaryKey fieldName : Bytes)
  | batchPut (items : List KeyValueItem)
  | get (key : Bytes)
  | getField (primaryKey fieldName : Bytes)
  | getAllFields (primaryKey : Bytes)
  | batchGet (keys : List Bytes)

/-- What a request meets: calls without an answer, the disk behind each call, and the orders Go leaves open. -/
structure Env where
  /-- For the `i`-th key of a `BatchGet`; 0 for the other requests. -/
  fails         : Nat → String → Option String
  disk          : UInt32 → Disk
  order         : List (UInt32 × List KeyValueItem) → List (UInt32 × List KeyValueItem)
  order_perm    : ∀ groups, (order groups).Perm groups
  schedule      : List GroupCall → List GroupCall
  schedule_perm : ∀ calls, (schedule calls).Perm calls

structure State where
  nodes      : Nodes
  /-- The node a call was sent to, and the call. -/
  unanswered : List (String × WriteRequest)

inductive StoreAct
  | request (env : Env) (req : Request)
  | late (i : Nat) (disk : Disk)

section
variable (sum64 : Bytes → UInt64) (table : RouteTable)

/-- The call of a write to `key`, if it was made and not answered. -/
def lostCall (fails : String → Option String) (key : Bytes) (op : WriteOp) : List (String × WriteRequest) :=
  match getPartitionNodesByID table (calculatePartition sum64 key) with
  | .error _ => []
  | .ok (primary, _, epoch) =>
    if (fails primary).isSome then [(primary, ⟨calculatePartition sum64 key, epoch, op⟩)] else []

/-- The calls of a batch that were made and not answered. -/
def lostCalls (fails : String → Option String) (calls : List GroupCall) : List (String × WriteRequest) :=
  (calls.filter fun call => (fails call.nodeID).isSome).map fun call =>
    (call.nodeID, ⟨call.partitionID, call.epoch, .batchPut call.items⟩)

/-- The state after a write to `key`, whose handler has returned `result`. -/
def State.written (s : State) (env : Env) (key : Bytes) (op : WriteOp) (result : Except String Nodes) : State × Event :=
  match result with
  | .ok nodes => ({ s with nodes := nodes }, .write (changes op) (.ok ()))
  | .error err =>
    ({ s with unanswered := s.unanswered ++ lostCall sum64 table (env.fails 0) key op }, .write (changes op) (.error err))

def State.request (s : State) (env : Env) : Request → State × Event
  | .put key value => s.written sum64 table env key (.put key value)
      (put sum64 table s.nodes (env.fails 0) (env.disk (calculatePartition sum64 key)) key value)
  | .delete key => s.written sum64 table env key (.delete key)
      (Compute.delete sum64 table s.nodes (env.fails 0) (env.disk (calculatePartition sum64 key)) key)
  | .setField pk name value => s.written sum64 table env pk (.setFields pk [⟨name, value, false⟩])
      (Compute.setField sum64 table s.nodes (env.fails 0) (env.disk (calculatePartition sum64 pk)) pk name value)
  | .setFields pk fields => s.written sum64 table env pk (.setFields pk fields)
      (Compute.setFields sum64 table s.nodes (env.fails 0) (env.disk (calculatePartition sum64 pk)) pk fields)
  | .deleteField pk name => s.written sum64 table env pk (.deleteField pk name)
      (Compute.deleteField sum64 table s.nodes (env.fails 0) (env.disk (calculatePartition sum64 pk)) pk name)
  | .batchPut items =>
    let (nodes, answer) := Compute.batchPut sum64 table (env.fails 0) env.disk env.order env.schedule s.nodes items
    let calls := (batchCalls sum64 table env.order env.schedule items).1
    ({ nodes := nodes, unanswered := s.unanswered ++ lostCalls (env.fails 0) calls }, .batchPut items answer)
  | .get key => (s, .get key (get sum64 table s.nodes (env.fails 0) key))
  | .getField pk name => (s, .getField pk name (Compute.getField sum64 table s.nodes (env.fails 0) pk name))
  | .getAllFields pk => (s, .getAllFields pk (Compute.getAllFields sum64 table s.nodes (env.fails 0) pk))
  | .batchGet keys => (s, .batchGet (batchGet sum64 table s.nodes env.fails keys))

def storeStep (s : State) : StoreAct → Option State
  | .request env req => some (s.request sum64 table env req).1
  | .late i disk =>
    match s.unanswered[i]? with
    | none => none
    | some (node, req) => some
        { nodes := Function.update s.nodes node ((s.nodes node).serve disk req).1
          unanswered := s.unanswered.eraseIdx i }

def storeEvents (s : State) : StoreAct → List Event
  | .request env req => [(s.request sum64 table env req).2]
  | .late _ _ => [.settle]

/-! ## What is compared -/

namespace Cell

/-- What its partition is computed from. -/
def owner : Cell → Bytes
  | plain key => key
  | field pk _ => pk

/-- Its key behind the partition's prefix. -/
def userKey : Cell → Bytes
  | plain key => key
  | field pk name => documentPrefix pk ++ name

/-- No other cell is stored under its key. -/
def Proper : Cell → Prop
  | plain key => ¬ FieldShaped key
  | field pk _ => pk.length < 2 ^ 32

instance : ∀ c : Cell, Decidable c.Proper
  | plain _ => inferInstanceAs (Decidable (¬ _))
  | field _ _ => inferInstanceAs (Decidable (_ < _))

end Cell

/-- What the primaries hold. -/
def contentsOf (dbs : String → RocksDB) : Contents := fun c =>
  if c.Proper then
    match getPartitionNodesByID table (calculatePartition sum64 c.owner) with
    | .error _ => none
    | .ok (primary, _, _) => (dbs primary).get (makePartitionKey (calculatePartition sum64 c.owner) c.userKey)
  else none

def State.store (s : State) : Store :=
  { contents := contentsOf sum64 table fun n => (s.nodes n).db
    unsettled := s.unanswered.map fun call => changes call.2.op }

/-- The node answers reads of the partition. -/
def Answers (nodes : Nodes) (fails : String → Option String) (node : String) (p : UInt32) : Prop :=
  fails node = none ∧ (nodes node).pm.hasPartition p = true

instance (nodes : Nodes) (fails : String → Option String) (node : String) (p : UInt32) :
    Decidable (Answers nodes fails node p) := inferInstanceAs (Decidable (_ ∧ _))

/-- The replica does not answer in the primary's place. -/
def Direct (nodes : Nodes) (fails : String → Option String) (key : Bytes) : Prop :=
  match getPartitionNodesByID table (calculatePartition sum64 key) with
  | .error _ => True
  | .ok (primary, replica, _) =>
    Answers nodes fails primary (calculatePartition sum64 key) ∨
      ¬ Answers nodes fails replica (calculatePartition sum64 key)

instance (nodes : Nodes) (fails : String → Option String) (key : Bytes) : Decidable (Direct sum64 table nodes fails key) := by
  unfold Direct
  split <;> infer_instance

/-- Keys that are no other cell's, and reads that are not answered by the replica. -/
def Allowed (s : State) : StoreAct → Prop
  | .late _ _ => True
  | .request env req =>
    match req with
    | .put key _ | .delete key => ¬ FieldShaped key
    | .setField pk _ _ | .setFields pk _ | .deleteField pk _ => pk.length < 2 ^ 32
    | .batchPut items => ∀ item ∈ items, ¬ FieldShaped item.key
    | .get key => ¬ FieldShaped key ∧ Direct sum64 table s.nodes (env.fails 0) key
    | .getField pk _ => pk.length < 2 ^ 32 ∧ Direct sum64 table s.nodes (env.fails 0) pk
    -- a longer primary key makes the scan panic
    | .getAllFields pk => pk.length < 2 ^ 32 - 12 ∧ Direct sum64 table s.nodes (env.fails 0) pk
    | .batchGet keys => ∀ key ∈ keys.zipIdx, ¬ FieldShaped key.1 ∧ Direct sum64 table s.nodes (env.fails key.2) key.1

instance (s : State) : ∀ a, Decidable (Allowed sum64 table s a)
  | .late _ _ => isTrue trivial
  | .request env req => by
    unfold Allowed
    cases req <;> infer_instance

end

/-! ## Cells and keys -/

theorem Cell.userKey_inj {c d : Cell} (hc : c.Proper) (hd : d.Proper) (h : c.userKey = d.userKey) : c = d := by
  cases c with
  | plain key =>
    cases d with
    | plain key' => exact congrArg Cell.plain h
    | field pk name => exact absurd (fieldShaped_iff.2 ⟨pk, name, h⟩) hc
  | field pk name =>
    cases d with
    | plain key => exact absurd (fieldShaped_iff.2 ⟨pk, name, h.symm⟩) hd
    | field pk' name' =>
      have hkey : makeFieldKey 0 pk name = makeFieldKey 0 pk' name' := by
        rw [makeFieldKey_eq, makeFieldKey_eq]
        exact congrArg (makePartitionKey 0) h
      obtain ⟨-, rfl, rfl⟩ := (makeFieldKey_inj hc hd).1 hkey
      rfl

/-- The write of a change to a partition. -/
def writeOf (p : UInt32) (c : Change) : Write Bytes Bytes :=
  match c.2 with
  | some value => .put (makePartitionKey p c.1.userKey) value
  | none => .delete (makePartitionKey p c.1.userKey)

theorem key_writeOf (p : UInt32) (c : Change) : (writeOf p c).key = makePartitionKey p c.1.userKey := by
  obtain ⟨cell, _ | value⟩ := c <;> rfl

theorem val_writeOf (p : UInt32) (c : Change) : (writeOf p c).val = c.2 := by
  obtain ⟨cell, _ | value⟩ := c <;> rfl

/-- **A storage write** is the writes of its changes. -/
theorem writes_eq_changes (p : UInt32) (op : WriteOp) : op.writes p = (changes op).map (writeOf p) := by
  cases op with
  | put key value => rfl
  | delete key => rfl
  | setFields pk fields =>
    rw [WriteOp.writes, fieldWrites, changes, List.map_map]
    refine List.map_congr_left fun u _ => ?_
    rw [Function.comp, setBatch, makeFieldKey_eq]
    by_cases hdel : u.isDelete
    · simp [hdel, writeOf, Cell.userKey]
    · simp [hdel, writeOf, Cell.userKey]
  | deleteField pk name =>
    rw [WriteOp.writes, makeFieldKey_eq]
    rfl
  | batchPut items =>
    rw [WriteOp.writes, changes, itemChanges, List.map_map]
    rfl

section
variable {sum64 : Bytes → UInt64} {table : RouteTable}

/-- Every cell the changes touch is proper and belongs to the partition. -/
def For (sum64 : Bytes → UInt64) (p : UInt32) (cs : List Change) : Prop :=
  ∀ c ∈ cs, c.1.Proper ∧ calculatePartition sum64 c.1.owner = p

theorem contentsOf_writeOf {dbs : String → RocksDB} {c : Change} {primary replica : String} {epoch : UInt64}
    (hproper : c.1.Proper)
    (hroute : getPartitionNodesByID table (calculatePartition sum64 c.1.owner) = .ok (primary, replica, epoch)) :
    contentsOf sum64 table (Function.update dbs primary
        ((writeOf (calculatePartition sum64 c.1.owner) c).apply (dbs primary))) =
      Function.update (contentsOf sum64 table dbs) c.1 c.2 := by
  funext d
  by_cases hdc : d = c.1
  · subst hdc
    rw [Function.update_self, contentsOf, if_pos hproper, hroute]
    dsimp only
    rw [Function.update_self, Write.get_apply, key_writeOf, if_pos rfl, val_writeOf]
  · rw [Function.update_of_ne hdc]
    unfold contentsOf
    by_cases hd : d.Proper
    · rw [if_pos hd, if_pos hd]
      cases hroute' : getPartitionNodesByID table (calculatePartition sum64 d.owner) with
      | error e => rfl
      | ok r =>
        dsimp only
        by_cases hn : r.1 = primary
        · have hne : makePartitionKey (calculatePartition sum64 d.owner) d.userKey ≠
              makePartitionKey (calculatePartition sum64 c.1.owner) c.1.userKey := fun heq =>
            hdc (Cell.userKey_inj hd hproper (makePartitionKey_inj.1 heq).2)
          rw [hn, Function.update_self, Write.get_apply, key_writeOf, if_neg hne]
        · rw [Function.update_of_ne hn]
    · rw [if_neg hd, if_neg hd]

/-- **A write on a primary** changes the cells it names. -/
theorem contentsOf_write {p : UInt32} {primary replica : String} {epoch : UInt64}
    (hroute : getPartitionNodesByID table p = .ok (primary, replica, epoch)) :
    ∀ {cs : List Change} (dbs : String → RocksDB), For sum64 p cs →
      contentsOf sum64 table (Function.update dbs primary ((dbs primary).write (cs.map (writeOf p)))) =
        (contentsOf sum64 table dbs).apply cs
  | [], dbs, _ => by
    rw [List.map_nil, write_nil, Function.update_eq_self]
    rfl
  | c :: cs, dbs, hcs => by
    obtain ⟨hproper, rfl⟩ := hcs c List.mem_cons_self
    have ih := contentsOf_write hroute (Function.update dbs primary
      ((writeOf (calculatePartition sum64 c.1.owner) c).apply (dbs primary))) fun d hd => hcs d (List.mem_cons_of_mem _ hd)
    rw [Function.update_self, Function.update_idem, contentsOf_writeOf hproper hroute] at ih
    exact ih

/-! ## Calls of storage nodes -/

/-- **A storage node serves a call**: it refuses and is as before, or its store has the changes. -/
theorem contentsOf_serve {nodes : Nodes} {primary replica : String} (disk : Disk) (req : WriteRequest)
    (hroute : getPartitionNodesByID table req.partitionId = .ok (primary, replica, req.epoch))
    (hfor : For sum64 req.partitionId (changes req.op)) :
    ((∃ e, ((nodes primary).serve disk req).2 = .refused e) ∧
        Function.update nodes primary ((nodes primary).serve disk req).1 = nodes) ∨
      ((nodes primary).serve disk req).2 = .accepted (Server.countOf req.op) ∧
        contentsOf sum64 table
            (fun n => (Function.update nodes primary ((nodes primary).serve disk req).1 n).db) =
          (contentsOf sum64 table fun n => (nodes n).db).apply (changes req.op) := by
  rcases (nodes primary).serve_cases disk req with ⟨e, hrefused⟩ | ⟨-, hserved⟩
  · rw [hrefused]
    exact .inl ⟨⟨e, rfl⟩, Function.update_eq_self primary nodes⟩
  · rw [hserved]
    refine .inr ⟨rfl, ?_⟩
    rw [← contentsOf_write hroute _ hfor, ← writes_eq_changes]
    congr 1
    funext n
    by_cases hn : n = primary
    · subst hn
      rw [Function.update_self, Function.update_self, Server.db, Server.logOn_pm]
    · rw [Function.update_of_ne hn, Function.update_of_ne hn]

/-- A call that writes, made by a compute server: no answer, a refusal, or the changes. -/
theorem doWrite_cases {nodes : Nodes} (fails : String → Option String) (disk : Disk) {p : UInt32}
    {primary replica : String} {epoch : UInt64} {op : WriteOp}
    (hroute : getPartitionNodesByID table p = .ok (primary, replica, epoch)) (hfor : For sum64 p (changes op)) :
    (∃ err, doWrite nodes fails disk primary p epoch op = .error err) ∨
      ∃ nodes', doWrite nodes fails disk primary p epoch op = .ok nodes' ∧
        contentsOf sum64 table (fun n => (nodes' n).db) =
          (contentsOf sum64 table fun n => (nodes n).db).apply (changes op) := by
  unfold doWrite
  cases hup : fails primary with
  | some err => exact .inl ⟨err, rfl⟩
  | none =>
    dsimp only
    rcases contentsOf_serve disk ⟨p, epoch, op⟩ hroute hfor with ⟨⟨e, hrefused⟩, -⟩ | ⟨haccepted, hcontents⟩
    · rw [hrefused]
      exact .inl ⟨_, rfl⟩
    · rw [haccepted]
      exact .inr ⟨_, rfl, hcontents⟩

/-! ## Single writes -/

/-- Calls without an answer are for the routes of their partitions. -/
def CallsRouted (sum64 : Bytes → UInt64) (table : RouteTable) (calls : List (String × WriteRequest)) : Prop :=
  ∀ call ∈ calls, (∃ replica, getPartitionNodesByID table call.2.partitionId = .ok (call.1, replica, call.2.epoch)) ∧
    For sum64 call.2.partitionId (changes call.2.op)

theorem CallsRouted.append {as bs : List (String × WriteRequest)} (ha : CallsRouted sum64 table as)
    (hb : CallsRouted sum64 table bs) : CallsRouted sum64 table (as ++ bs) := by
  intro call hcall
  rcases List.mem_append.1 hcall with h | h
  · exact ha call h
  · exact hb call h

theorem callsRouted_lostCall {fails : String → Option String} {key : Bytes} {op : WriteOp}
    (hfor : For sum64 (calculatePartition sum64 key) (changes op)) :
    CallsRouted sum64 table (lostCall sum64 table fails key op) := by
  intro call hcall
  unfold lostCall at hcall
  split at hcall
  · cases hcall
  · rename_i primary replica epoch hroute
    split_ifs at hcall
    · obtain rfl := List.mem_singleton.1 hcall
      exact ⟨⟨replica, hroute⟩, hfor⟩
    · cases hcall

/-- **A single write**: whatever the handler's name for its failure, it is a write of the store. -/
theorem next_written {part : Bytes → UInt32} (s : State) (env : Env) (key : Bytes) (op : WriteOp) (failed : String)
    (disk : Disk) (hfor : For sum64 (calculatePartition sum64 key) (changes op)) :
    Store.Next part (s.store sum64 table)
      (s.written sum64 table env key op (write sum64 table key failed fun primary p epoch =>
        doWrite s.nodes (env.fails 0) disk primary p epoch op)).2
      ((s.written sum64 table env key op (write sum64 table key failed fun primary p epoch =>
        doWrite s.nodes (env.fails 0) disk primary p epoch op)).1.store sum64 table) := by
  unfold write
  cases hroute : getPartitionNodesByID table (calculatePartition sum64 key) with
  | error e =>
    simp only [State.written, lostCall, hroute, List.append_nil]
    exact .failed
  | ok route =>
    obtain ⟨primary, replica, epoch⟩ := route
    dsimp only
    rcases @doWrite_cases sum64 table s.nodes (env.fails 0) disk _ _ _ _ op hroute hfor with
      ⟨err, herr⟩ | ⟨nodes', hok, hcontents⟩
    · simp only [State.written, herr, lostCall, hroute]
      split_ifs
      · have hlost : State.store sum64 table { s with unanswered := s.unanswered ++
            [(primary, ⟨calculatePartition sum64 key, epoch, op⟩)] } =
            { s.store sum64 table with unsettled := (s.store sum64 table).unsettled ++ [changes op] } := by
          simp [State.store]
        rw [hlost]
        exact .unanswered
      · rw [List.append_nil]
        exact .failed
    · simp only [State.written, hroute, hok]
      have hstored : State.store sum64 table { s with nodes := nodes' } =
          { s.store sum64 table with contents := (s.store sum64 table).contents.apply (changes op) } := by
        rw [State.store, hcontents]
        rfl
      rw [hstored]
      exact .wrote

/-! ## Reads -/

section
variable {α : Type} {nodes : Nodes} {fails : String → Option String} {p : UInt32}
  {handler : Storage.Server → Except Pb.ErrorCode α} {read : RocksDB → α}

/-- A read handler answers from the store of a node that has the partition. -/
def Reads (p : UInt32) (handler : Storage.Server → Except Pb.ErrorCode α) (read : RocksDB → α) : Prop :=
  ∀ s : Storage.Server, handler s = if s.pm.hasPartition p then .ok (read s.db) else .error .partitionNotFound

theorem doRead_answers (h : Reads p handler read) {node : String} {answer : α}
    (hok : doRead nodes fails node handler = .ok answer) :
    Answers nodes fails node p ∧ answer = read (nodes node).db := by
  unfold doRead at hok
  split at hok
  · cases hok
  · rename_i hup
    rw [h] at hok
    by_cases hhost : (nodes node).pm.hasPartition p = true
    · rw [if_pos hhost] at hok
      cases hok
      exact ⟨⟨hup, hhost⟩, rfl⟩
    · rw [if_neg hhost] at hok
      cases hok

theorem doRead_of_answers (h : Reads p handler read) {node : String} (ha : Answers nodes fails node p) :
    doRead nodes fails node handler = .ok (read (nodes node).db) := by
  rw [doRead, ha.1]
  dsimp only
  rw [h, if_pos ha.2]

theorem reads_get (key : Bytes) : Reads p (fun s => s.get p key) fun db => db.get (makePartitionKey p key) := by
  intro s
  by_cases hhost : s.pm.hasPartition p = true
  · rw [if_pos hhost]
    exact Server.get_of_hosted hhost key
  · simp [Server.get, hhost]

theorem reads_getField (pk name : Bytes) :
    Reads p (fun s => s.getField p pk name) fun db => db.get (makeFieldKey p pk name) := by
  intro s
  by_cases hhost : s.pm.hasPartition p = true <;> simp [Server.getField, hhost, Storage.getField]

theorem reads_getAllFields (pk : Bytes) :
    Reads p (fun s => s.getAllFields p pk) fun db => Storage.getAllFields db p pk := by
  intro s
  by_cases hhost : s.pm.hasPartition p = true <;> simp [Server.getAllFields, hhost]

end

theorem contents_of_route {s : State} {c : Cell} (hc : c.Proper) {primary replica : String} {epoch : UInt64}
    (hroute : getPartitionNodesByID table (calculatePartition sum64 c.owner) = .ok (primary, replica, epoch)) :
    (s.store sum64 table).contents c =
      (s.nodes primary).db.get (makePartitionKey (calculatePartition sum64 c.owner) c.userKey) := by
  simp only [State.store, contentsOf, if_pos hc, hroute]

section
variable {s : State} {fails : String → Option String}

/-- **A read** that the replica has not answered in the primary's place: the primary's value. -/
theorem read_direct {α : Type} {key : Bytes} {failed : String → String → String}
    {handler : UInt32 → Storage.Server → Except Pb.ErrorCode α} {reader : UInt32 → RocksDB → α}
    (h : ∀ p, Reads p (handler p) (reader p)) (hdirect : Direct sum64 table s.nodes fails key) {answer : α}
    (hok : Compute.read sum64 table key failed (fun node p => doRead s.nodes fails node (handler p)) = .ok answer) :
    ∃ primary replica epoch,
      getPartitionNodesByID table (calculatePartition sum64 key) = .ok (primary, replica, epoch) ∧
        answer = reader (calculatePartition sum64 key) (s.nodes primary).db := by
  unfold Compute.read at hok
  cases hroute : getPartitionNodesByID table (calculatePartition sum64 key) with
  | error e => simp only [hroute, reduceCtorEq] at hok
  | ok route =>
    refine ⟨route.1, route.2.1, route.2.2, rfl, ?_⟩
    simp only [hroute] at hok
    rw [Direct, hroute] at hdirect
    split at hok
    · rename_i value hread
      cases hok
      exact (doRead_answers (h _) hread).2
    · rename_i err hprimary
      split at hok
      · rename_i value hread
        rcases hdirect with hanswers | hsilent
        · rw [doRead_of_answers (h _) hanswers] at hprimary
          cases hprimary
        · exact absurd (doRead_answers (h _) hread).1 hsilent
      · cases hok

theorem get_direct {key : Bytes} (hkey : ¬ FieldShaped key) (hdirect : Direct sum64 table s.nodes fails key)
    {value : Option Bytes} (hok : Compute.get sum64 table s.nodes fails key = .ok value) :
    value = (s.store sum64 table).contents (.plain key) := by
  rw [get_eq_read] at hok
  obtain ⟨primary, replica, epoch, hroute, rfl⟩ := read_direct (fun _ => reads_get key) hdirect hok
  exact (contents_of_route (c := .plain key) hkey hroute).symm

theorem getField_direct {pk name : Bytes} (hpk : pk.length < 2 ^ 32) (hdirect : Direct sum64 table s.nodes fails pk)
    {value : Option Bytes} (hok : Compute.getField sum64 table s.nodes fails pk name = .ok value) :
    value = (s.store sum64 table).contents (.field pk name) := by
  obtain ⟨primary, replica, epoch, hroute, rfl⟩ := read_direct (fun _ => reads_getField pk name) hdirect hok
  exact (contents_of_route (c := .field pk name) hpk hroute).symm

theorem getAllFields_direct {pk : Bytes} (hpk : pk.length < 2 ^ 32 - 12)
    (hdirect : Direct sum64 table s.nodes fails pk) {fields : OrdMap Bytes Bytes}
    (hok : Compute.getAllFields sum64 table s.nodes fails pk = .ok fields) (name : Bytes) :
    fields.get name = (s.store sum64 table).contents (.field pk name) := by
  obtain ⟨primary, replica, epoch, hroute, rfl⟩ := read_direct (fun _ => reads_getAllFields pk) hdirect hok
  have hshort : pk.length < 2 ^ 32 := by omega
  rw [get_getAllFields _ _ hpk, contents_of_route (c := .field pk name) hshort hroute]
  rfl

theorem batchGet_direct {fails : Nat → String → Option String} {keys : List Bytes}
    (hkeys : ∀ key ∈ keys.zipIdx, ¬ FieldShaped key.1 ∧ Direct sum64 table s.nodes (fails key.2) key.1) :
    ∀ item ∈ batchGet sum64 table s.nodes fails keys,
      item.2 = none ∨ item.2 = (s.store sum64 table).contents (.plain item.1) := by
  intro item hitem
  obtain ⟨key, hkey, rfl⟩ := List.mem_map.1 hitem
  obtain ⟨hshape, hdirect⟩ := hkeys key hkey
  dsimp only
  cases hget : Compute.get sum64 table s.nodes (fails key.2) key.1 with
  | error e => exact .inl rfl
  | ok value => exact .inr (get_direct hshape hdirect hget)

end

end

end RocksKV.Cluster
