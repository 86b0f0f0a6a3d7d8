import RocksKV.Compute.Server
import RocksKV.Lib.Groups
/-!
# Batch puts (`pkg/compute/server.go:630-713`, `pkg/storage/server.go:730-804`)

| here | there |
| --- | --- |
| `groupItems`   | the map `partitionItems` (`server.go:636-641`) |
| `startCalls`   | the loop that routes each group and starts its goroutine (`:648-667`) |
| `doBatchPut`   | `doBatchPut` (`:685-713`) |
| `runCall`      | the goroutine (`:657-666`) |
| `batchPut`     | `BatchPut` (`:630-682`) |
| `putAll`       | a `Put` for each item, in the order of the request |

`order` is the order in which Go goes through the map, `schedule` the one in which the goroutines run; a group that
has no route ends the loop, while the goroutines started before it run on. Each call finds a disk of its own.

What a put leaves on a node is `Storage.Server.store`. Two of them commute if they are for different partitions, and
a batch is its items stored one by one, so the groups may run in any order.
-/

namespace RocksKV.Storage.Server

open Lib

/-! ## Batches on one storage server -/

/-- The server with another store. -/
def setDB (s : Server) (db : RocksDB) : Server := { s with pm := { s.pm with db := db } }

/-- What a put of the item leaves. -/
def store (p : UInt32) (s : Server) (item : KeyValueItem) : Server :=
  (s.setDB (s.db.write [.put (makePartitionKey p item.key) item.value])).append p ⟨.put, item.key, item.value⟩

/-- A put to the partition at this epoch passes all checks. -/
def AcceptsPut (s : Server) (p : UInt32) (epoch : UInt64) : Prop :=
  s.checkWrite p epoch = .ok () ∧
    ∃ partition, s.pm.partitions.get p = some partition ∧ partition.status ∈ [.normal, .migratingIn]

@[simp] theorem db_setDB (s : Server) (db : RocksDB) : (s.setDB db).db = db := rfl

@[simp] theorem setDB_setDB (s : Server) (db db' : RocksDB) : (s.setDB db).setDB db' = s.setDB db' := rfl

@[simp] theorem db_append (s : Server) (p : UInt32) (c : Command) : (s.append p c).db = s.db := by
  rw [db, append_pm, db]

theorem append_of_logging {s : Server} {p : UInt32} (h : s.Logging p) (c : Command) :
    s.append p c = { s with logs := s.logs.insert p (s.log p ++ [c]) } := by
  obtain ⟨r, hr, hopen⟩ := h
  rw [append, hr]
  dsimp only
  rw [hopen, if_neg (by simp)]

theorem append_of_not_logging {s : Server} {p : UInt32} (h : ¬ s.Logging p) (c : Command) : s.append p c = s := by
  unfold append
  split
  · rfl
  · rename_i r hr
    split_ifs with hclosed
    · rfl
    · exact absurd ⟨r, hr, by simpa using hclosed⟩ h

theorem append_setDB (s : Server) (p : UInt32) (c : Command) (db : RocksDB) :
    (s.append p c).setDB db = (s.setDB db).append p c := by
  by_cases h : s.Logging p
  · rw [append_of_logging h, append_of_logging (show (s.setDB db).Logging p from h)]
    rfl
  · rw [append_of_not_logging h, append_of_not_logging (show ¬ (s.setDB db).Logging p from h)]

theorem logging_append {s : Server} {p q : UInt32} {c : Command} : (s.append q c).Logging p ↔ s.Logging p := by
  rw [Logging, append_replicators, Logging]

theorem append_comm (s : Server) {p q : UInt32} (hpq : p ≠ q) (c d : Command) :
    (s.append p c).append q d = (s.append q d).append p c := by
  by_cases hp : s.Logging p
  · by_cases hq : s.Logging q
    · rw [append_of_logging (logging_append.2 hq), append_of_logging (logging_append.2 hp), append_of_logging hp,
        append_of_logging hq]
      congr 1
      refine OrdMap.ext_get fun k => ?_
      simp only [log, OrdMap.get_insert, if_neg hpq, if_neg hpq.symm]
      by_cases hkp : k = p
      · subst hkp
        simp [hpq]
      · simp [hkp]
    · rw [append_of_not_logging (mt logging_append.1 hq), append_of_not_logging hq]
  · rw [append_of_not_logging hp, append_of_not_logging (mt logging_append.1 hp)]

/-- **Puts to different partitions commute**, in the store and in the logs. -/
theorem store_comm (s : Server) {p q : UInt32} (hpq : p ≠ q) (a b : KeyValueItem) :
    store q (store p s a) b = store p (store q s b) a := by
  have hkeys : makePartitionKey p a.key ≠ makePartitionKey q b.key := fun heq => hpq (makePartitionKey_inj.1 heq).1
  have hdb : (s.db.write [.put (makePartitionKey p a.key) a.value]).write [.put (makePartitionKey q b.key) b.value] =
      (s.db.write [.put (makePartitionKey q b.key) b.value]).write [.put (makePartitionKey p a.key) a.value] :=
    write_comm s.db (by simpa [Write.key] using hkeys)
  simp only [store, db_append, db_setDB, append_setDB, setDB_setDB]
  rw [append_comm _ hpq, hdb]

/-- **A batch stores its items one by one.** -/
theorem foldl_store (p : UInt32) : ∀ (items : List KeyValueItem) (s : Server),
    items.foldl (store p) s = (s.setDB (s.db.write ((WriteOp.batchPut items).writes p))).enqueue p (.batchPut items)
  | [], s => rfl
  | item :: items, s => by
    rw [List.foldl_cons, foldl_store p items, store, append_setDB, setDB_setDB, db_append, db_setDB, ← write_append]
    rfl

/-- What the checks look at is not touched by a put. -/
theorem acceptsPut_store (p q : UInt32) (epoch : UInt64) (s : Server) (item : KeyValueItem) :
    (store q s item).AcceptsPut p epoch ↔ s.AcceptsPut p epoch := by
  rw [store]
  by_cases h : (s.setDB (s.db.write [.put (makePartitionKey q item.key) item.value])).Logging q
  · rw [append_of_logging h]
    rfl
  · rw [append_of_not_logging h]
    rfl

theorem put_of_accepts {s : Server} {p : UInt32} {epoch : UInt64} (h : s.AcceptsPut p epoch) (key value : Bytes) :
    s.put .working p epoch key value = (store p s ⟨key, value⟩, .accepted 0) := by
  obtain ⟨hcheck, partition, hget, hstatus⟩ := h
  have hput : s.pm.put key value p =
      .ok { s.pm with db := s.pm.db.write [.put (makePartitionKey p key) value] } := by
    rw [PartitionManager.put, PartitionManager.writeIf, hget]
    exact if_pos hstatus
  rw [put, respond, hcheck, hput]
  rfl

theorem writable_of_writeIf {pm pm' : PartitionManager} {p : UInt32} {writable : List Pb.PartitionStatus}
    {ws : List (Write Bytes Bytes)} (h : pm.writeIf p writable ws = .ok pm') :
    ∃ partition, pm.partitions.get p = some partition ∧ partition.status ∈ writable := by
  unfold PartitionManager.writeIf at h
  split at h
  · cases h
  · rename_i partition hget
    split_ifs at h with hstatus
    exact ⟨partition, hget, hstatus⟩

theorem respond_accepted {s : Server} {disk : Disk} {p : UInt32} {epoch : UInt64}
    {write : Except String PartitionManager} {log : Server → Server} {count : Int32}
    (h : (s.respond disk p epoch write log count).2.success = true) :
    s.checkWrite p epoch = .ok () ∧ ∃ written, write = .ok written ∧
      s.respond disk p epoch write log count = (log (s.setDB written.db), .accepted count) := by
  unfold respond at h ⊢
  cases hcheck : s.checkWrite p epoch with
  | error e =>
    rw [hcheck] at h
    cases h
  | ok u =>
    rw [hcheck] at h
    rcases hrun : disk.run s.pm write with ⟨pm, _ | e⟩
    · obtain ⟨written, hwrite, rfl⟩ := Disk.run_done hrun
      exact ⟨rfl, written, hwrite, rfl⟩
    · rw [hrun] at h
      cases h

theorem batchPut_accepted {disk : Disk} (happend : ∀ i, disk.appendFails i = false) {s : Server} {p : UInt32}
    {epoch : UInt64} {items : List KeyValueItem} (h : (s.batchPut disk p epoch items).2.success = true) :
    s.AcceptsPut p epoch ∧
      s.batchPut disk p epoch items = (items.foldl (store p) s, .accepted (Int32.ofNat items.length)) := by
  obtain ⟨hcheck, written, hwrite, hserver⟩ := respond_accepted h
  refine ⟨⟨hcheck, writable_of_writeIf hwrite⟩, ?_⟩
  have hdb : written.db = s.db.write ((WriteOp.batchPut items).writes p) := by
    rw [writeIf_ok hwrite]
    rfl
  rw [foldl_store, ← hdb, ← logOn_of_appends happend]
  exact hserver

end RocksKV.Storage.Server

namespace RocksKV.Compute

open Lib Storage

/-! ## The compute server -/

structure BatchPutResponse where
  success : Bool
  count   : Int32
  deriving DecidableEq

/-- What a goroutine is started with. -/
structure GroupCall where
  nodeID      : String
  partitionID : UInt32
  epoch       : UInt64
  items       : List KeyValueItem

def groupItems (sum64 : Bytes → UInt64) (items : List KeyValueItem) : OrdMap UInt32 (List KeyValueItem) :=
  groupBy (fun item => calculatePartition sum64 item.key) items

/-- The calls that are started, and the error that ends the loop. -/
def startCalls (table : RouteTable) : List (UInt32 × List KeyValueItem) → List GroupCall × Option String
  | [] => ([], none)
  | (partitionID, items) :: rest =>
    match getPartitionNodesByID table partitionID with
    | .error err => ([], some s!"routing failed: {err}")
    | .ok (primary, _, epoch) =>
      let (calls, err) := startCalls table rest
      (⟨primary, partitionID, epoch, items⟩ :: calls, err)

def doBatchPut (nodes : Nodes) (fails : String → Option String) (disk : Disk) (call : GroupCall) :
    Nodes × Option String :=
  match fails call.nodeID with
  | some err => (nodes, some err)
  | none =>
    let (server, resp) := (nodes call.nodeID).batchPut disk call.partitionID call.epoch call.items
    let nodes := Function.update nodes call.nodeID server
    if !resp.success || resp.error.isSome then
      let code := (resp.error.map Pb.ErrorCode.string).getD "OK"
      (nodes, some s!"storage error: {code}")
    else (nodes, none)

/-- What the goroutines share. -/
structure BatchState where
  nodes : Nodes
  errCh : List String
  count : Int32

def runCall (fails : String → Option String) (disk : UInt32 → Disk) (st : BatchState) (call : GroupCall) : BatchState :=
  match doBatchPut st.nodes fails (disk call.partitionID) call with
  | (nodes, some err) => { st with nodes := nodes, errCh := st.errCh ++ [err] }
  | (nodes, none) => { st with nodes := nodes, count := st.count + Int32.ofNat call.items.length }

def runCalls (fails : String → Option String) (disk : UInt32 → Disk) (nodes : Nodes) (calls : List GroupCall) :
    BatchState :=
  calls.foldl (runCall fails disk) { nodes := nodes, errCh := [], count := 0 }

/-- The calls of a batch as they run, and the error of the loop that starts them. -/
def batchCalls (sum64 : Bytes → UInt64) (table : RouteTable)
    (order : List (UInt32 × List KeyValueItem) → List (UInt32 × List KeyValueItem))
    (schedule : List GroupCall → List GroupCall) (items : List KeyValueItem) : List GroupCall × Option String :=
  let (calls, routing) := startCalls table (order (groupItems sum64 items).entries)
  (schedule calls, routing)

def batchPut (sum64 : Bytes → UInt64) (table : RouteTable) (fails : String → Option String) (disk : UInt32 → Disk)
    (order : List (UInt32 × List KeyValueItem) → List (UInt32 × List KeyValueItem))
    (schedule : List GroupCall → List GroupCall) (nodes : Nodes) (items : List KeyValueItem) :
    Nodes × Except String BatchPutResponse :=
  let (calls, routing) := batchCalls sum64 table order schedule items
  let st := runCalls fails disk nodes calls
  match routing with
  | some err => (st.nodes, .error err)
  | none =>
    match st.errCh with
    | err :: _ => (st.nodes, .error s!"batch put failed: {err}")
    | [] => (st.nodes, .ok { success := true, count := st.count })

def putAll (sum64 : Bytes → UInt64) (table : RouteTable) (fails : String → Option String) (nodes : Nodes)
    (items : List KeyValueItem) : Except String Nodes :=
  items.foldlM (fun nodes item => put sum64 table nodes fails .working item.key item.value) nodes

/-! ## What a put leaves on the nodes -/

/-- The item is stored on the primary of its partition. -/
def storePut (sum64 : Bytes → UInt64) (table : RouteTable) (nodes : Nodes) (item : KeyValueItem) : Nodes :=
  match getPartitionNodesByID table (calculatePartition sum64 item.key) with
  | .error _ => nodes
  | .ok (primary, _, _) =>
    Function.update nodes primary ((nodes primary).store (calculatePartition sum64 item.key) item)

/-- The primary of the partition answers, and takes a put to it. -/
def TakesPut (table : RouteTable) (fails : String → Option String) (nodes : Nodes) (p : UInt32) : Prop :=
  ∃ primary replica epoch, getPartitionNodesByID table p = .ok (primary, replica, epoch) ∧ fails primary = none ∧
    (nodes primary).AcceptsPut p epoch

section
variable {sum64 : Bytes → UInt64} {table : RouteTable} {fails : String → Option String}

theorem storePut_of_route {item : KeyValueItem} {primary replica : String} {epoch : UInt64}
    (hroute : getPartitionNodesByID table (calculatePartition sum64 item.key) = .ok (primary, replica, epoch))
    (nodes : Nodes) : storePut sum64 table nodes item =
      Function.update nodes primary ((nodes primary).store (calculatePartition sum64 item.key) item) := by
  rw [storePut, hroute]

theorem storePut_comm (nodes : Nodes) (a b : KeyValueItem)
    (hne : calculatePartition sum64 a.key ≠ calculatePartition sum64 b.key) :
    storePut sum64 table (storePut sum64 table nodes a) b = storePut sum64 table (storePut sum64 table nodes b) a := by
  cases ha : getPartitionNodesByID table (calculatePartition sum64 a.key) with
  | error e => simp only [storePut, ha]
  | ok ra =>
    cases hb : getPartitionNodesByID table (calculatePartition sum64 b.key) with
    | error e => simp only [storePut, hb]
    | ok rb =>
      simp only [storePut_of_route ha, storePut_of_route hb]
      by_cases hsame : ra.1 = rb.1
      · rw [hsame]
        simp only [Function.update_self, Function.update_idem]
        rw [Server.store_comm _ hne]
      · rw [Function.update_of_ne (Ne.symm hsame), Function.update_of_ne hsame, Function.update_comm hsame]

theorem takesPut_storePut {nodes : Nodes} {item : KeyValueItem} {p : UInt32} :
    TakesPut table fails (storePut sum64 table nodes item) p ↔ TakesPut table fails nodes p := by
  have hnode : ∀ n epoch, (storePut sum64 table nodes item n).AcceptsPut p epoch ↔ (nodes n).AcceptsPut p epoch := by
    intro n epoch
    cases hroute : getPartitionNodesByID table (calculatePartition sum64 item.key) with
    | error e => rw [storePut, hroute]
    | ok r =>
      rw [storePut_of_route hroute]
      by_cases hn : n = r.1
      · rw [hn, Function.update_self, Server.acceptsPut_store]
      · rw [Function.update_of_ne hn]
  simp only [TakesPut, hnode]

theorem takesPut_foldl {p : UInt32} : ∀ {items : List KeyValueItem} {nodes : Nodes},
    TakesPut table fails (items.foldl (storePut sum64 table) nodes) p ↔ TakesPut table fails nodes p
  | [], _ => Iff.rfl
  | _ :: _, _ => by rw [List.foldl_cons, takesPut_foldl, takesPut_storePut]

/-- A group is stored on one node. -/
theorem foldl_storePut {p : UInt32} {primary replica : String} {epoch : UInt64}
    (hroute : getPartitionNodesByID table p = .ok (primary, replica, epoch)) :
    ∀ {items : List KeyValueItem} (nodes : Nodes), (∀ item ∈ items, calculatePartition sum64 item.key = p) →
      items.foldl (storePut sum64 table) nodes =
        Function.update nodes primary (items.foldl (Server.store p) (nodes primary))
  | [], nodes, _ => (Function.update_eq_self primary nodes).symm
  | item :: items, nodes, h => by
    obtain rfl := h item List.mem_cons_self
    rw [List.foldl_cons, foldl_storePut hroute _ fun other hother => h other (List.mem_cons_of_mem _ hother),
      storePut_of_route hroute, Function.update_self, Function.update_idem, List.foldl_cons]

/-! ## Puts one by one -/

theorem put_of_takes {nodes : Nodes} {item : KeyValueItem}
    (h : TakesPut table fails nodes (calculatePartition sum64 item.key)) :
    put sum64 table nodes fails .working item.key item.value = .ok (storePut sum64 table nodes item) := by
  obtain ⟨primary, replica, epoch, hroute, hup, haccepts⟩ := h
  simp only [put, hroute, doPut, hup, Server.put_of_accepts haccepts, storePut]
  rfl

theorem putAll_of_takes : ∀ {items : List KeyValueItem} {nodes : Nodes},
    (∀ item ∈ items, TakesPut table fails nodes (calculatePartition sum64 item.key)) →
      putAll sum64 table fails nodes items = .ok (items.foldl (storePut sum64 table) nodes)
  | [], _, _ => rfl
  | item :: items, nodes, h => by
    rw [putAll, List.foldlM_cons, put_of_takes (h item List.mem_cons_self)]
    exact putAll_of_takes fun other hother => takesPut_storePut.2 (h other (List.mem_cons_of_mem _ hother))

/-! ## The calls of a batch -/

/-- The call is for the route of its partition, and its items belong there. -/
structure Routed (sum64 : Bytes → UInt64) (table : RouteTable) (call : GroupCall) : Prop where
  route : ∃ replica, getPartitionNodesByID table call.partitionID = .ok (call.nodeID, replica, call.epoch)
  items : ∀ item ∈ call.items, calculatePartition sum64 item.key = call.partitionID

/-- **A call** fails and reports it, or it stores its items. -/
theorem runCall_cases {disk : UInt32 → Disk} (happend : ∀ p i, (disk p).appendFails i = false) (st : BatchState)
    {call : GroupCall} (hcall : Routed sum64 table call) :
    (∃ err, (runCall fails disk st call).errCh = st.errCh ++ [err]) ∨
    TakesPut table fails st.nodes call.partitionID ∧
      runCall fails disk st call =
        { nodes := call.items.foldl (storePut sum64 table) st.nodes, errCh := st.errCh
          count := st.count + Int32.ofNat call.items.length } := by
  obtain ⟨replica, hroute⟩ := hcall.route
  unfold runCall doBatchPut
  cases hup : fails call.nodeID with
  | some err => exact .inl ⟨err, rfl⟩
  | none =>
    dsimp only
    by_cases hok : ((st.nodes call.nodeID).batchPut (disk call.partitionID) call.partitionID call.epoch call.items).2.success
    · obtain ⟨haccepts, hserver⟩ := Server.batchPut_accepted (happend call.partitionID) hok
      refine .inr ⟨⟨_, replica, _, hroute, hup, haccepts⟩, ?_⟩
      rw [hserver, foldl_storePut hroute st.nodes hcall.items]
      rfl
    · rw [if_pos (by simp [hok])]
      exact .inl ⟨_, rfl⟩

/-- **Calls none of which has reported an error** have all stored their items. -/
theorem foldl_runCall {disk : UInt32 → Disk} (happend : ∀ p i, (disk p).appendFails i = false) :
    ∀ {calls : List GroupCall} {st : BatchState}, (∀ call ∈ calls, Routed sum64 table call) →
      (calls.foldl (runCall fails disk) st).errCh = [] →
      st.errCh = [] ∧ (∀ call ∈ calls, TakesPut table fails st.nodes call.partitionID) ∧
        (calls.foldl (runCall fails disk) st).nodes =
          (calls.flatMap (·.items)).foldl (storePut sum64 table) st.nodes ∧
        (calls.foldl (runCall fails disk) st).count = st.count + Int32.ofNat (calls.flatMap (·.items)).length
  | [], st, _, hdone => ⟨hdone, nofun, rfl, (Int32.add_zero _).symm⟩
  | call :: calls, st, hcalls, hdone => by
    obtain ⟨herr, htakes, hnodes, hcount⟩ :=
      foldl_runCall happend (fun c hc => hcalls c (List.mem_cons_of_mem _ hc)) hdone
    rcases @runCall_cases _ _ fails _ happend st _ (hcalls call List.mem_cons_self) with ⟨err, hfail⟩ | ⟨htake, hrun⟩
    · rw [hfail] at herr
      exact absurd herr (by simp)
    · rw [List.foldl_cons, hnodes, hcount]
      rw [hrun] at herr htakes ⊢
      refine ⟨herr, ?_, ?_, ?_⟩
      · rintro c (_ | ⟨_, hc⟩)
        · exact htake
        · exact takesPut_foldl.1 (htakes c hc)
      · rw [List.flatMap_cons, List.foldl_append]
      · rw [List.flatMap_cons, List.length_append, Int32.ofNat_add, Int32.add_assoc]

/-- Where every group has a route each is called, there. -/
theorem startCalls_routed : ∀ {groups : List (UInt32 × List KeyValueItem)}, (startCalls table groups).2 = none →
    (startCalls table groups).1.map (fun call => (call.partitionID, call.items)) = groups ∧
      ∀ call ∈ (startCalls table groups).1,
        ∃ replica, getPartitionNodesByID table call.partitionID = .ok (call.nodeID, replica, call.epoch)
  | [], _ => ⟨rfl, nofun⟩
  | (p, items) :: rest, h => by
    unfold startCalls at h ⊢
    cases hroute : getPartitionNodesByID table p with
    | error err =>
      rw [hroute] at h
      cases h
    | ok r =>
      rw [hroute] at h
      obtain ⟨hmap, hroutes⟩ := startCalls_routed h
      refine ⟨by rw [List.map_cons, hmap], ?_⟩
      rintro call (_ | ⟨_, hcall⟩)
      · exact ⟨r.2.1, hroute⟩
      · exact hroutes call hcall

/-! ## Batches and single puts -/

section
variable {order : List (UInt32 × List KeyValueItem) → List (UInt32 × List KeyValueItem)}
  {schedule : List GroupCall → List GroupCall} {disk : UInt32 → Disk} {nodes : Nodes} {items : List KeyValueItem}

theorem batchPut_of_calls (hroutes : (batchCalls sum64 table order schedule items).2 = none)
    (hcalls : (runCalls fails disk nodes (batchCalls sum64 table order schedule items).1).errCh = []) :
    batchPut sum64 table fails disk order schedule nodes items =
      ((runCalls fails disk nodes (batchCalls sum64 table order schedule items).1).nodes,
        .ok ⟨true, (runCalls fails disk nodes (batchCalls sum64 table order schedule items).1).count⟩) := by
  unfold batchPut
  rcases hstart : batchCalls sum64 table order schedule items with ⟨calls, routing⟩
  rw [hstart] at hroutes hcalls
  obtain rfl : routing = none := hroutes
  dsimp only at hcalls ⊢
  rw [hcalls]

variable (horder : ∀ groups, (order groups).Perm groups) (hschedule : ∀ calls, (schedule calls).Perm calls)
  (hroutes : (batchCalls sum64 table order schedule items).2 = none)
include horder hschedule hroutes

/-- The calls are for the groups, each for one. -/
theorem perm_groupItems :
    ((batchCalls sum64 table order schedule items).1.map fun call => (call.partitionID, call.items)).Perm
      (groupItems sum64 items).entries := by
  refine ((hschedule _).map _).trans ?_
  rw [(startCalls_routed hroutes).1]
  exact horder _

theorem routed_of_mem {call : GroupCall} (hcall : call ∈ (batchCalls sum64 table order schedule items).1) :
    Routed sum64 table call where
  route := (startCalls_routed hroutes).2 call ((hschedule _).mem_iff.1 hcall)
  items item hitem := by
    have hgroup := (perm_groupItems horder hschedule hroutes).mem_iff.1
      (List.mem_map_of_mem (f := fun call => (call.partitionID, call.items)) hcall)
    rw [eq_filter_of_mem_groupBy hgroup] at hitem
    simpa using (List.mem_filter.1 hitem).2

theorem exists_call {item : KeyValueItem} (hitem : item ∈ items) :
    ∃ call ∈ (batchCalls sum64 table order schedule items).1,
      call.partitionID = calculatePartition sum64 item.key := by
  have hkey : calculatePartition sum64 item.key ∈ (groupItems sum64 items).keys := key_mem_groupBy hitem
  obtain ⟨group, hgroup, hp⟩ := List.mem_map.1 hkey
  obtain ⟨call, hcall, rfl⟩ := List.mem_map.1 ((perm_groupItems horder hschedule hroutes).mem_iff.2 hgroup)
  exact ⟨call, hcall, hp⟩

theorem foldl_batchCalls {σ : Type} {f : σ → KeyValueItem → σ}
    (hcomm : ∀ s a b, calculatePartition sum64 a.key ≠ calculatePartition sum64 b.key → f (f s a) b = f (f s b) a)
    (s : σ) : ((batchCalls sum64 table order schedule items).1.flatMap (·.items)).foldl f s = items.foldl f s := by
  rw [← foldl_groups hcomm (perm_groupItems horder hschedule hroutes), List.flatMap_map]

/-- **A batch put equals single puts.** If all its storage calls succeed, their appends included, then in whatever order
the map is gone through and the goroutines run the count is that of the items, and every node, with its store and its
command logs, is as the puts of the items one after another leave it. -/
theorem batchPut_eq_putAll (happend : ∀ p i, (disk p).appendFails i = false)
    (hcalls : (runCalls fails disk nodes (batchCalls sum64 table order schedule items).1).errCh = []) :
    (batchPut sum64 table fails disk order schedule nodes items).2 = .ok ⟨true, Int32.ofNat items.length⟩ ∧
    (items.length < 2 ^ 31 → (Int32.ofNat items.length).toInt = items.length) ∧
    putAll sum64 table fails nodes items = .ok (batchPut sum64 table fails disk order schedule nodes items).1 := by
  obtain ⟨-, htakes, hnodes, hcount⟩ :=
    foldl_runCall happend (fun call hcall => routed_of_mem horder hschedule hroutes hcall) hcalls
  have hlength : ((batchCalls sum64 table order schedule items).1.flatMap (·.items)).length = items.length := by
    have hcounted := foldl_batchCalls horder hschedule hroutes (f := fun n _ => n + 1) (fun _ _ _ _ => rfl) 0
    simpa using hcounted
  have htaken : ∀ item ∈ items, TakesPut table fails nodes (calculatePartition sum64 item.key) := by
    intro item hitem
    obtain ⟨call, hcall, hp⟩ := exists_call horder hschedule hroutes hitem
    exact hp ▸ htakes call hcall
  rw [batchPut_of_calls hroutes hcalls]
  refine ⟨?_, fun hlt => Int32.toInt_ofNat_of_lt hlt, ?_⟩
  · rw [hlength, Int32.zero_add] at hcount
    exact congrArg (fun count => Except.ok (BatchPutResponse.mk true count)) hcount
  · rw [putAll_of_takes htaken, ← foldl_batchCalls horder hschedule hroutes storePut_comm nodes]
    exact congrArg Except.ok hnodes.symm

end

end

/-- The primary of partitions 7 and 8. -/
def primaryOfTwo : Storage.Server :=
  { primaryOfSeven with
    pm := { primaryOfSeven.pm with
      partitions := primaryOfSeven.pm.partitions.insert 8 { id := 8, status := .normal, isPrime := true, epoch := 0 } } }

def routeOf (p : UInt32) : Pb.PartitionInfo :=
  { partitionId := p, primary := "A", replica := "B", status := .normal, migrationTarget := "", migrationState := .none }

/-- Two values for a key of partition 7 with a key of partition 8 between them; the map is gone through backwards. -/
theorem batchPut_eq_putAll_three :
    putAll sum64OfTwo ⟨1, RouteTable.apply .empty [routeOf 7, routeOf 8]⟩ (fun _ => none) (fun _ => primaryOfTwo)
        [⟨keyOfSeven, [1]⟩, ⟨keyOfEight, [2]⟩, ⟨keyOfSeven, [3]⟩] =
      .ok (batchPut sum64OfTwo ⟨1, RouteTable.apply .empty [routeOf 7, routeOf 8]⟩ (fun _ => none)
        (fun _ => .working) List.reverse id (fun _ => primaryOfTwo)
        [⟨keyOfSeven, [1]⟩, ⟨keyOfEight, [2]⟩, ⟨keyOfSeven, [3]⟩]).1 :=
  (batchPut_eq_putAll List.reverse_perm (fun _ => .refl _) (by decide) (fun _ _ => rfl) (by decide)).2.2

end RocksKV.Compute
