import RocksKV.Metadata.Epochs
import RocksKV.Metadata.Plan
/-!
# The metadata server from an empty store (`pkg/metadata/server.go`, `router.go`)

`serverStep` interleaves the requests of one server over its router, its node registry and its cluster state.

| here | there |
| --- | --- |
| `registerNode`             | `Server.RegisterNode` (`server.go:177-217`) up to the store call |
| `tryInitializePartitions`  | its check and `InitializePartitions`' listing (`server.go:220-235`, `router.go:262-274`) |
| `initCluster`              | `InitCluster` up to the state `INITIALIZING` (`router.go:156-186`) |
| `allocate`, `allocateFailed` | the commit of `allocatePartitions` (`router.go:251-254`); the way back to `PENDING` (`:194-198`) |
| `initDone`                 | the new cached table (`router.go:256`) and, for `InitCluster`, the state `RUNNING` (`:201-204`) |
| `triggerRebalance`, `completeItem` | `TriggerRebalance` (`migration.go:102-195`) and the end of `migratePartition` (`:495-506`) |
| `shutdownStart`, `shutdownMove`, `executeTask`, `shutdownEnd` | `ShutdownNode` with its scheduler (`router.go:585-812`, `migration_scheduler.go:139-179`, `:340-395`) |
| `watchFull`                | a table the watch drops because the channel is full (`etcd.go:424-428`) |

A store call fails without effect or succeeds. The plan's items and the scheduler's tasks are carried out in any
order, and may be given up at any time. A forced shutdown is `updateNodeStatus` and a rebalance; a shutdown
that finds no target is `updateNodeStatus`.
-/

namespace RocksKV.Metadata

open Lib

inductive ClusterState
  | pending | initializing | running
  deriving DecidableEq, Repr

/-- An allocation under way. -/
structure Init where
  /-- The storage nodes it has listed. -/
  nodes         : List NodeInfo
  byInitCluster : Bool
  /-- The table it has committed. -/
  stored        : Option RouteTable

/-- A `ShutdownNode` call: what its loops have still to do, and its scheduler's tasks. -/
structure Shutdown where
  nodeID : String
  moves  : List Move
  tasks  : List MigrationTask

structure ServerSys where
  router    : RouterSys
  /-- The registered nodes, by id. -/
  nodes     : OrdMap String NodeInfo
  state     : ClusterState
  /-- `RegisterNode` calls that are about to try an initialization. -/
  tries     : Nat
  inits     : List Init
  /-- The status of `mc.currentMigration` is "running". -/
  migrating : Bool
  /-- Plan items whose migration has not ended. -/
  items     : List PlannedItem
  shutdowns : List Shutdown

inductive ServerAct
  | registerNode (node : NodeInfo)
  | updateNodeStatus (nodeID : String) (status : NodeStatus)
  | tryInitializePartitions
  | initCluster
  | allocate (i : Nat)
  | allocateFailed (i : Nat) (rolledBack : Bool)
  | initDone (i : Nat) (stateStored : Bool)
  | promoteReplica (partitionID : UInt32)
  | setPartitionStatus (partitionID : UInt32) (status : PartitionStatus)
  | completeMigration (partitionID : UInt32) (newNode : String) (isPrimary : Bool)
  | rebalanceStart
  | rebalanceCommit (i : Nat)
  | deliver
  | watchFull
  | triggerRebalance
  | completeItem (item : PlannedItem)
  | dropItem (item : PlannedItem)
  | endMigration
  | shutdownStart (nodeID : String) (order : List UInt32)
  | shutdownMove (i : Nat)
  | executeTask (i : Nat) (task : MigrationTask)
  | dropTask (i : Nat) (task : MigrationTask)
  | shutdownEnd (i : Nat)

/-- An empty store, and a server that has started on it. -/
def ServerSys.start : ServerSys :=
  { router := .start .new, nodes := OrdMap.empty, state := .pending, tries := 0, inits := [], migrating := false,
    items := [], shutdowns := [] }

/-- `ListNodes(NodeRoleStorage)`, in the order of the ids. -/
def ServerSys.listNodes (s : ServerSys) : List NodeInfo :=
  (s.nodes.entries.map Prod.snd).filter fun n => decide (n.role = .storage)

/-- `len(table.Partitions) > 0`. -/
def RouteTable.populated (t : RouteTable) : Bool := !t.partitions.entries.isEmpty

theorem populated_updateRouteTable (c t : RouteTable) : (updateRouteTable c t).populated = t.populated := rfl

/-- `UpdateNodeStatus` of a node that is registered. -/
def ServerSys.setNodeStatus (s : ServerSys) (node : NodeInfo) (status : NodeStatus) : ServerSys :=
  { s with nodes := s.nodes.insert node.id { node with status := status } }

/-- The tables in etcd, in the watch and in the allocation once it has committed. -/
def ServerSys.storeTable (s : ServerSys) (i : Nat) (init : Init) (table : RouteTable) : ServerSys :=
  let new := updateRouteTable s.router.committed table
  { s with
    router := { s.router with committed := new, watch := s.router.watch ++ [new] }
    inits := s.inits.set i { init with stored := some new } }

theorem ServerSys.committed_storeTable (s : ServerSys) (i : Nat) (init : Init) (table : RouteTable) :
    (s.storeTable i init table).router.committed = updateRouteTable s.router.committed table := rfl

/-- The tasks after `AddTask`: a partition has at most one. -/
def addTask (tasks : List MigrationTask) (task : MigrationTask) : List MigrationTask :=
  if tasks.any fun t => decide (t.partitionID = task.partitionID) then tasks else tasks ++ [task]

section
variable (hash : String → UInt32)

/-- A call of the router. -/
def ServerSys.call (s : ServerSys) (a : Act) : Option ServerSys :=
  (step hash s.router a).map fun router => { s with router := router }

/-- A call of the router whose error is only logged. -/
def ServerSys.tryCall (s : ServerSys) (a : Act) : ServerSys := (s.call hash a).getD s

def serverStep (s : ServerSys) : ServerAct → Option ServerSys
  | .registerNode node =>
    some { s.setNodeStatus node .online with tries := if node.role = .storage then s.tries + 1 else s.tries }
  | .updateNodeStatus nodeID status => (s.nodes.get nodeID).map fun node => s.setNodeStatus node status
  | .tryInitializePartitions =>
    if s.tries = 0 then none
    else if s.router.cache.populated ∨ s.listNodes.length < minReplicaNodes then some { s with tries := s.tries - 1 }
    else some { s with tries := s.tries - 1, inits := s.inits ++ [⟨s.listNodes, false, none⟩] }
  | .initCluster =>
    if s.state ≠ .pending ∨ s.listNodes.length < minReplicaNodes ∨ (s.listNodes.any fun n => decide (n.status ≠ .online))
    then none
    else some { s with state := .initializing, inits := s.inits ++ [⟨s.listNodes, true, none⟩] }
  | .allocate i =>
    match s.inits[i]? with
    | some ⟨nodes, byInitCluster, none⟩ =>
      some (s.storeTable i ⟨nodes, byInitCluster, none⟩ (allocatePartitions hash nodes))
    | _ => none
  | .allocateFailed i rolledBack =>
    match s.inits[i]? with
    | some ⟨_, byInitCluster, none⟩ =>
      some { s with inits := s.inits.eraseIdx i, state := if byInitCluster && rolledBack then .pending else s.state }
    | _ => none
  | .initDone i stateStored =>
    match s.inits[i]? with
    | some ⟨_, byInitCluster, some table⟩ =>
      some { s with
        router := { s.router with cache := table }
        inits := s.inits.eraseIdx i
        state := if byInitCluster && stateStored then .running else s.state }
    | _ => none
  | .promoteReplica p => s.call hash (.promoteReplica p)
  | .setPartitionStatus p status => s.call hash (.setPartitionStatus p status)
  | .completeMigration p newNode isPrimary => s.call hash (.completeMigration p newNode isPrimary)
  | .rebalanceStart => s.call hash (.rebalanceStart s.listNodes)
  | .rebalanceCommit i => s.call hash (.rebalanceCommit i)
  | .deliver => s.call hash .deliver
  | .watchFull => some { s with router := { s.router with watch := s.router.watch.tail } }
  | .triggerRebalance =>
    if s.migrating ∨ s.listNodes.length < minReplicaNodes then none
    else
      let plan := calculateMigrationPlan hash s.router.cache s.listNodes
      some { s with migrating := true, items := s.items ++ plan }
  | .completeItem item =>
    if item ∈ s.items then
      some { s.tryCall hash (.completeMigration item.partitionID item.targetNode item.isPrimary) with
        items := s.items.erase item }
    else none
  | .dropItem item => some { s with items := s.items.erase item }
  | .endMigration => some { s with migrating := false }
  | .shutdownStart nodeID order =>
    match s.nodes.get nodeID with
    | none => none
    | some node =>
      if order.Perm s.router.cache.partitions.keys then
        match shutdownMoves hash s.router.cache order s.listNodes node with
        | .error _ => none
        | .ok moves => some { s.setNodeStatus node .draining with shutdowns := s.shutdowns ++ [⟨nodeID, moves, []⟩] }
      else none
  | .shutdownMove i =>
    match s.shutdowns[i]? with
    | some ⟨nodeID, .promote p :: moves, tasks⟩ =>
      some { s.tryCall hash (.promoteReplica p) with shutdowns := s.shutdowns.set i ⟨nodeID, moves, tasks⟩ }
    | some ⟨nodeID, .migrate task :: moves, tasks⟩ =>
      some { s with shutdowns := s.shutdowns.set i ⟨nodeID, moves, addTask tasks task⟩ }
    | _ => none
  | .executeTask i task =>
    match s.shutdowns[i]? with
    | none => none
    | some shutdown =>
      if task ∈ shutdown.tasks then
        some { s.tryCall hash (.completeMigration task.partitionID task.target task.isPrimary) with
          shutdowns := s.shutdowns.set i { shutdown with tasks := shutdown.tasks.erase task } }
      else none
  | .dropTask i task =>
    match s.shutdowns[i]? with
    | none => none
    | some shutdown =>
      some { s with shutdowns := s.shutdowns.set i { shutdown with tasks := shutdown.tasks.erase task } }
  | .shutdownEnd i =>
    match s.shutdowns[i]? with
    | some ⟨nodeID, [], _⟩ =>
      (s.nodes.get nodeID).map fun node =>
        { s.setNodeStatus node .removed with shutdowns := s.shutdowns.eraseIdx i }
    | _ => none

/-! ## What a step does to the route tables -/

variable {hash : String → UInt32} {s s' : ServerSys} {a : ServerAct}

theorem RouteTable.populated_iff {t : RouteTable} : t.populated = true ↔ ∃ p, (t.entry p).isSome := by
  unfold RouteTable.populated
  cases he : t.partitions.entries with
  | nil =>
    simp only [List.isEmpty_nil, Bool.not_true, Bool.false_eq_true, false_iff, not_exists]
    intro p hp
    obtain ⟨e, hpe⟩ := Option.isSome_iff_exists.1 hp
    have hmem := OrdMap.mem_entries.2 hpe
    rw [he] at hmem
    cases hmem
  | cons x rest =>
    simp only [List.isEmpty_cons, Bool.not_false, true_iff]
    have hx : t.partitions.get x.1 = some x.2 := OrdMap.mem_entries.1 (by rw [he]; exact List.mem_cons_self)
    exact ⟨x.1, by rw [RouteTable.entry, hx]; rfl⟩

theorem ServerSys.call_eq_some {act : Act} (h : s.call hash act = some s') :
    ∃ r, step hash s.router act = some r ∧ s' = { s with router := r } := by
  obtain ⟨r, hr, rfl⟩ := Option.map_eq_some_iff.1 h
  exact ⟨r, hr, rfl⟩

theorem ServerSys.tryCall_cases (s : ServerSys) (act : Act) :
    (∃ r, step hash s.router act = some r ∧ s.tryCall hash act = { s with router := r }) ∨ s.tryCall hash act = s := by
  unfold ServerSys.tryCall
  cases hc : s.call hash act with
  | none => exact .inr rfl
  | some s' =>
    obtain ⟨r, hr, rfl⟩ := s.call_eq_some hc
    exact .inl ⟨r, hr, rfl⟩

/-- What a step can do to the route tables and the allocations under way. -/
inductive ServerSys.Effect (hash : String → UInt32) (s : ServerSys) (a : ServerAct) (s' : ServerSys) : Prop
  | call (act : Act) (hrouter : step hash s.router act = some s'.router) (hinits : s'.inits = s.inits)
  | elsewhere (hrouter : s'.router = s.router) (hinits : s'.inits = s.inits)
  /-- A guard has been passed. -/
  | started (init : Init) (hnone : init.stored = none) (hrouter : s'.router = s.router)
      (hinits : s'.inits = s.inits ++ [init])
      (hguard : a = .tryInitializePartitions ∧ s.router.cache.populated = false ∨ a = .initCluster ∧ s.state = .pending)
  | stored (i : Nat) (init : Init) (hi : s.inits[i]? = some init)
      (heq : s' = s.storeTable i init (allocatePartitions hash init.nodes))
  | failed (i : Nat) (init : Init) (hi : s.inits[i]? = some init) (hnone : init.stored = none)
      (hrouter : s'.router = s.router) (hinits : s'.inits = s.inits.eraseIdx i)
  | done (i : Nat) (init : Init) (table : RouteTable) (hi : s.inits[i]? = some init) (hsome : init.stored = some table)
      (hrouter : s'.router = { s.router with cache := table }) (hinits : s'.inits = s.inits.eraseIdx i)
  /-- The watch has dropped a table. -/
  | dropped (hrouter : s'.router = { s.router with watch := s.router.watch.tail }) (hinits : s'.inits = s.inits)

theorem ServerSys.Effect.tryCall {act : Act} (hrouter : s'.router = (s.tryCall hash act).router)
    (hinits : s'.inits = (s.tryCall hash act).inits) : s.Effect hash a s' := by
  rcases s.tryCall_cases act with ⟨r, hr, heq⟩ | heq
  · rw [heq] at hrouter hinits
    exact .call act (hrouter ▸ hr) hinits
  · rw [heq] at hrouter hinits
    exact .elsewhere hrouter hinits

/-- **Every step** does one of these. -/
theorem serverStep_cases (h : serverStep hash s a = some s') : s.Effect hash a s' := by
  cases a with
  | registerNode node =>
    cases h
    exact .elsewhere rfl rfl
  | updateNodeStatus nodeID status =>
    obtain ⟨node, -, rfl⟩ := Option.map_eq_some_iff.1 h
    exact .elsewhere rfl rfl
  | tryInitializePartitions =>
    simp only [serverStep] at h
    split_ifs at h with h0 hno
    · cases h
      exact .elsewhere rfl rfl
    · cases h
      exact .started _ rfl rfl rfl (.inl ⟨rfl, by simpa using (not_or.1 hno).1⟩)
  | initCluster =>
    simp only [serverStep] at h
    split_ifs at h with hno
    cases h
    exact .started _ rfl rfl rfl (.inr ⟨rfl, by simpa using (not_or.1 hno).1⟩)
  | allocate i =>
    simp only [serverStep] at h
    split at h
    · rename_i nodes byInitCluster hi
      cases h
      exact .stored i _ hi rfl
    · cases h
  | allocateFailed i rolledBack =>
    simp only [serverStep] at h
    split at h
    · rename_i nodes byInitCluster hi
      cases h
      exact .failed i _ hi rfl rfl rfl
    · cases h
  | initDone i stateStored =>
    simp only [serverStep] at h
    split at h
    · rename_i nodes byInitCluster table hi
      cases h
      exact .done i _ table hi rfl rfl rfl
    · cases h
  | promoteReplica p =>
    obtain ⟨r, hr, rfl⟩ := s.call_eq_some h
    exact .call _ hr rfl
  | setPartitionStatus p status =>
    obtain ⟨r, hr, rfl⟩ := s.call_eq_some h
    exact .call _ hr rfl
  | completeMigration p newNode isPrimary =>
    obtain ⟨r, hr, rfl⟩ := s.call_eq_some h
    exact .call _ hr rfl
  | rebalanceStart =>
    obtain ⟨r, hr, rfl⟩ := s.call_eq_some h
    exact .call _ hr rfl
  | rebalanceCommit i =>
    obtain ⟨r, hr, rfl⟩ := s.call_eq_some h
    exact .call _ hr rfl
  | deliver =>
    obtain ⟨r, hr, rfl⟩ := s.call_eq_some h
    exact .call _ hr rfl
  | watchFull =>
    cases h
    exact .dropped rfl rfl
  | triggerRebalance =>
    simp only [serverStep] at h
    split_ifs at h
    cases h
    exact .elsewhere rfl rfl
  | completeItem item =>
    simp only [serverStep] at h
    split_ifs at h
    cases h
    exact .tryCall rfl rfl
  | dropItem item =>
    cases h
    exact .elsewhere rfl rfl
  | endMigration =>
    cases h
    exact .elsewhere rfl rfl
  | shutdownStart nodeID order =>
    simp only [serverStep] at h
    split at h
    · cases h
    · split_ifs at h
      split at h
      · cases h
      · cases h
        exact .elsewhere rfl rfl
  | shutdownMove i =>
    simp only [serverStep] at h
    split at h
    · rename_i nodeID p moves tasks hi
      cases h
      exact .tryCall rfl rfl
    · cases h
      exact .elsewhere rfl rfl
    · cases h
  | executeTask i task =>
    simp only [serverStep] at h
    split at h
    · cases h
    · split_ifs at h
      cases h
      exact .tryCall rfl rfl
  | dropTask i task =>
    simp only [serverStep] at h
    split at h
    · cases h
    · cases h
      exact .elsewhere rfl rfl
  | shutdownEnd i =>
    simp only [serverStep] at h
    split at h
    · obtain ⟨node, -, rfl⟩ := Option.map_eq_some_iff.1 h
      exact .elsewhere rfl rfl
    · cases h

end

end RocksKV.Metadata
