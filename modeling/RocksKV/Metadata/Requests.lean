import RocksKV.Lib.Run
import RocksKV.Metadata.Migration
import RocksKV.Metadata.Server
/-!
# The requests that change metadata (`pkg/metadata/server.go`, `migration.go`, `router.go`)

| here | there |
| --- | --- |
| `registerNode`, `tryInitializePartitions` | `Server.RegisterNode` (`server.go:177-217`), `tryInitializePartitions` (`:220-235`) |
| `routerInitCluster`, `initCluster` | `Router.InitCluster` (`router.go:156-212`), `Server.InitCluster` (`server.go:409-432`) |
| `triggerRebalance`  | `MigrationController.TriggerRebalance` (`migration.go:102-195`) |
| `cancelMigration`   | `MigrationController.CancelMigration` (`migration.go:594-617`) |
| `routerShutdownNode`, `shutdownNode` | `Router.ShutdownNode` (`router.go:585-812`), `Server.ShutdownNode` (`server.go:471-522`) |
| `executeTask`       | `executeMigration` and `completeMigration` (`migration_scheduler.go:340-430`), `CompleteMigration` (`router.go:494-559`) |
| `Env`               | how the calls a request makes turn out |

A request is handled in one go here, a shutdown's tasks after its promotions; `handle_reaches` says that the server
gets nowhere that way where the steps of `serverStep` do not take it. What goes on in the background (the plan's
items, the rebalance of a forced shutdown) is left to those steps.

Every path of the five handlers ends in `return …, nil`: failures are told in the response (`handle_error`).
-/

namespace RocksKV.Metadata

open Lib

inductive Request
  | registerNode (nodeID addr : String) (role : NodeRole)
  | initCluster
  | triggerRebalance (force : Bool)
  | cancelMigration
  | shutdownNode (nodeID : String) (force : Bool)
  deriving DecidableEq, Repr

inductive Response
  | registerNode (success : Bool)
  | initCluster (success : Bool) (message : String) (partitionCount nodeCount : Nat)
  | triggerRebalance (success : Bool) (message migrationID : String) (partitionsToMigrate : Nat)
  | cancelMigration (success : Bool) (message : String)
  | shutdownNode (success : Bool) (message : String) (partitionsMigrated partitionsFailed : Nat)
  deriving DecidableEq, Repr

/-- A gRPC status. -/
structure Status where
  code    : String
  message : String
  deriving DecidableEq, Repr

/-- `err.Error()` of a status. -/
def Status.error (s : Status) : String := s!"rpc error: code = {s.code} desc = {s.message}"

structure Reply where
  response : Response
  error    : Option Status
  deriving DecidableEq, Repr

/-- `return response, nil`. -/
def Response.ok (response : Response) : Reply := ⟨response, none⟩

/-- The calls that a request makes and that may fail. -/
inductive StoreCall
  | registerNode | getClusterInfo | listNodes | getNode | updateRouteTable
  /-- The listing after an initialization, for the response. -/
  | countNodes
  | setClusterState (state : ClusterState)
  | updateNodeStatus (status : NodeStatus)
  | promoteReplica (partitionID : UInt32)
  | setMigrationState (partitionID : UInt32)
  | deleteMigrationState (partitionID : UInt32) (byRouter : Bool)
  | completeMigration (partitionID : UInt32)
  deriving DecidableEq, Repr

structure Env where
  /-- The error of a call that fails. -/
  fails       : StoreCall → Option String
  migrationID : String
  /-- The order in which a shutdown ranges over the table. -/
  order       : List UInt32
  /-- The tasks its scheduler gets to, in their order, and how many of them end before it is asked for its status. -/
  executed    : List MigrationTask
  inTime      : Nat
  /-- Tasks whose context is done before their wait is over. -/
  expired     : MigrationTask → Bool

/-- The server and the migration records in etcd. -/
structure MetaServer where
  sys        : ServerSys
  migrations : OrdMap UInt32 MigrationInfo

/-- What is in etcd. -/
structure Store where
  nodes      : OrdMap String NodeInfo
  state      : ClusterState
  routeTable : RouteTable
  migrations : OrdMap UInt32 MigrationInfo

def MetaServer.store (m : MetaServer) : Store := ⟨m.sys.nodes, m.sys.state, m.sys.router.committed, m.migrations⟩

def ClusterState.text : ClusterState → String
  | pending => "pending"
  | initializing => "initializing"
  | running => "running"

def NodeStatus.text : NodeStatus → String
  | online => "online"
  | offline => "offline"
  | draining => "draining"
  | removed => "removed"

/-- An order in which the table can be ranged over. -/
def Env.orderOf (env : Env) (table : RouteTable) : List UInt32 :=
  if env.order.Perm table.partitions.keys then env.order else table.partitions.keys

namespace MetaServer

section
variable (hash : String → UInt32) (env : Env)

def perform (m : MetaServer) (a : ServerAct) : MetaServer := { m with sys := (serverStep hash m.sys a).getD m.sys }

/-! ## Nodes and the cluster -/

/-- Whatever fails is only logged. -/
def tryInitializePartitions (m : MetaServer) : MetaServer :=
  if m.sys.router.cache.populated = false ∧ (env.fails .listNodes).isSome then m
  else
    let i := m.sys.inits.length
    let m := m.perform hash .tryInitializePartitions
    match env.fails .updateRouteTable with
    | some _ => m.perform hash (.allocateFailed i false)
    | none => (m.perform hash (.allocate i)).perform hash (.initDone i false)

def registerNode (m : MetaServer) (nodeID addr : String) (role : NodeRole) : MetaServer × Reply :=
  match env.fails .registerNode with
  | some _ => (m, (Response.registerNode false).ok)
  | none =>
    let m := m.perform hash (.registerNode ⟨nodeID, addr, role, .online⟩)
    (if role = .storage then m.tryInitializePartitions hash env else m, (Response.registerNode true).ok)

/-- The error, if any. -/
def routerInitCluster (m : MetaServer) : MetaServer × Option String :=
  match env.fails .getClusterInfo with
  | some err => (m, some s!"failed to get cluster info: {err}")
  | none =>
  if m.sys.state ≠ .pending then (m, some s!"cluster is not in PENDING state (current: {m.sys.state.text})") else
  match env.fails .listNodes with
  | some err => (m, some s!"failed to list storage nodes: {err}")
  | none =>
  if m.sys.listNodes.length < minReplicaNodes then
    (m, some s!"need at least {minReplicaNodes} storage nodes, got {m.sys.listNodes.length}") else
  match m.sys.listNodes.find? fun n => decide (n.status ≠ .online) with
  | some node => (m, some s!"node {node.id} is not online (status: {node.status.text})")
  | none =>
  match env.fails (.setClusterState .initializing) with
  | some err => (m, some s!"failed to set cluster state to INITIALIZING: {err}")
  | none =>
  let i := m.sys.inits.length
  let m := m.perform hash .initCluster
  match env.fails .updateRouteTable with
  | some err =>
    (m.perform hash (.allocateFailed i (env.fails (.setClusterState .pending)).isNone),
      some s!"failed to allocate partitions: failed to save route table: {err}")
  | none =>
  let m := (m.perform hash (.allocate i)).perform hash (.initDone i (env.fails (.setClusterState .running)).isNone)
  (m, (env.fails (.setClusterState .running)).map fun err => s!"failed to set cluster state to RUNNING: {err}")

def initCluster (m : MetaServer) : MetaServer × Reply :=
  match m.routerInitCluster hash env with
  | (m, some err) => (m, (Response.initCluster false err 0 0).ok)
  | (m, none) =>
    let nodes := if (env.fails .countNodes).isSome then [] else m.sys.listNodes
    (m, (Response.initCluster true "cluster initialized successfully" m.sys.router.cache.partitions.entries.length
      nodes.length).ok)

/-! ## Migrations -/

def triggerRebalance (m : MetaServer) (force : Bool) : MetaServer × Reply :=
  if m.sys.migrating then (m, (Response.triggerRebalance false "migration already in progress" "" 0).ok) else
  match env.fails .listNodes with
  | some err => (m, (Response.triggerRebalance false s!"failed to list nodes: {err}" "" 0).ok)
  | none =>
  if m.sys.listNodes.length < minReplicaNodes then
    (m, (Response.triggerRebalance false s!"need at least {minReplicaNodes} storage nodes" "" 0).ok) else
  let plan := calculateMigrationPlan hash m.sys.router.cache m.sys.listNodes
  if plan.isEmpty && !force then (m, (Response.triggerRebalance true "cluster is already balanced" "" 0).ok)
  else
    (m.perform hash .triggerRebalance,
      (Response.triggerRebalance true "migration started" env.migrationID plan.length).ok)

def cancelMigration (m : MetaServer) : MetaServer × Reply :=
  if m.sys.migrating then (m.perform hash .endMigration, (Response.cancelMigration true "migration cancelled").ok)
  else (m, (Response.cancelMigration false "no migration in progress").ok)

/-! ## Shutdown -/

def deleteMigrationState (m : MetaServer) (partitionID : UInt32) (byRouter : Bool) : MetaServer :=
  if (env.fails (.deleteMigrationState partitionID byRouter)).isSome then m
  else { m with migrations := m.migrations.erase partitionID }

/-- A promotion that fails is only logged; a task waits for the scheduler. -/
def doMove (x : MetaServer × List MigrationTask) : Move → MetaServer × List MigrationTask
  | .promote p => (if (env.fails (.promoteReplica p)).isSome then x.1 else x.1.perform hash (.promoteReplica p), x.2)
  | .migrate task => (x.1, addTask x.2 task)

/-- One task of the scheduler, and whether it has migrated. -/
def executeTask (m : MetaServer) (task : MigrationTask) : MetaServer × Bool :=
  match env.fails (.setMigrationState task.partitionID) with
  | some _ => (m.deleteMigrationState env task.partitionID false, false)
  | none =>
  let m := { m with migrations :=
    m.migrations.insert task.partitionID ⟨task.partitionID, task.target, .copying, task.isPrimary⟩ }
  if env.expired task then (m.deleteMigrationState env task.partitionID false, false)
  else
    let m := m.deleteMigrationState env task.partitionID true
    let act := .completeMigration task.partitionID task.target task.isPrimary
    let ok := (env.fails (.completeMigration task.partitionID)).isNone && (serverStep hash m.sys act).isSome
    ((if ok then m.perform hash act else m).deleteMigrationState env task.partitionID false, ok)

/-- The tasks one after another, with the outcome of each. -/
def executeTasks : MetaServer → List MigrationTask → MetaServer × List Bool
  | m, [] => (m, [])
  | m, task :: tasks =>
    let (m, ok) := m.executeTask hash env task
    let (m, oks) := executeTasks m tasks
    (m, ok :: oks)

/-- Migrated, failed, and the error if any. -/
def routerShutdownNode (m : MetaServer) (nodeID : String) (force : Bool) : MetaServer × Nat × Nat × Option String :=
  match env.fails .getNode with
  | some err => (m, 0, 0, some s!"failed to get node {nodeID}: {err}")
  | none =>
  match m.sys.nodes.get nodeID with
  | none => (m, 0, 0, some s!"node {nodeID} not found")
  | some node =>
  match env.fails (.updateNodeStatus .draining) with
  | some err => (m, 0, 0, some s!"failed to set node status to DRAINING: {err}")
  | none =>
  let m := m.perform hash (.updateNodeStatus nodeID .draining)
  let table := m.sys.router.cache
  if force then
    let partitions := table.partitions.entries.map Prod.snd
    let totalPartitions := (partitions.countP fun e => decide (e.primary = node.addr)) +
      partitions.countP fun e => decide (e.replica = node.addr)
    match env.fails (.updateNodeStatus .removed) with
    | some err => (m, 0, totalPartitions, some s!"failed to set node status to REMOVED: {err}")
    | none => (m.perform hash (.updateNodeStatus nodeID .removed), 0, totalPartitions, none)
  else
  match env.fails .listNodes with
  | some err => (m, 0, 0, some s!"failed to list storage nodes: {err}")
  | none =>
  match shutdownMoves hash table (env.orderOf table) m.sys.listNodes node with
  | .error err => (m, 0, 0, some err)
  | .ok moves =>
    let (m, tasks) := moves.foldl (doMove hash env) (m, [])
    let (m, oks) := m.executeTasks hash env (env.executed.dedup.filter fun task => decide (task ∈ tasks))
    let ended := oks.take env.inTime
    -- the last change of status may fail, which is only logged
    (if (env.fails (.updateNodeStatus .removed)).isSome then m else m.perform hash (.updateNodeStatus nodeID .removed),
      ended.countP fun ok => ok, ended.countP fun ok => !ok, none)

def shutdownNode (m : MetaServer) (nodeID : String) (force : Bool) : MetaServer × Reply :=
  match m.routerShutdownNode hash env nodeID force with
  | (m, migrated, failed, some err) => (m, (Response.shutdownNode false err migrated failed).ok)
  | (m, migrated, failed, none) =>
    (m, (Response.shutdownNode true "node shutdown completed successfully" migrated failed).ok)

/-- The methods of `*Server`. -/
def handle (m : MetaServer) : Request → MetaServer × Reply
  | .registerNode nodeID addr role => m.registerNode hash env nodeID addr role
  | .initCluster => m.initCluster hash env
  | .triggerRebalance force => m.triggerRebalance hash env force
  | .cancelMigration => m.cancelMigration hash
  | .shutdownNode nodeID force => m.shutdownNode hash env nodeID force

/-! ## Errors -/

variable {hash : String → UInt32} {env : Env}

/-- **No request returns a gRPC error**, whatever fails. -/
theorem handle_error (m : MetaServer) (rq : Request) : (m.handle hash env rq).2.error = none := by
  cases rq with
  | registerNode nodeID addr role =>
    simp only [handle, registerNode]
    split <;> rfl
  | initCluster =>
    simp only [handle, initCluster]
    split <;> rfl
  | triggerRebalance force =>
    simp only [handle, triggerRebalance]
    split
    · rfl
    · split
      · rfl
      · split
        · rfl
        · split <;> rfl
  | cancelMigration =>
    simp only [handle, cancelMigration]
    split <;> rfl
  | shutdownNode nodeID force =>
    simp only [handle, shutdownNode]
    split <;> rfl

/-! ## Handled requests and the steps of the server -/

/-- Steps of the server lead from one to the other. -/
def Reaches (hash : String → UInt32) (m m' : MetaServer) : Prop := ∃ as, run (serverStep hash) m.sys as = some m'.sys

variable {m m₁ m₂ : MetaServer}

variable (hash) in
theorem Reaches.refl (m : MetaServer) : Reaches hash m m := ⟨[], rfl⟩

theorem Reaches.trans (h : Reaches hash m m₁) (h' : Reaches hash m₁ m₂) : Reaches hash m m₂ := by
  obtain ⟨as, has⟩ := h
  obtain ⟨bs, hbs⟩ := h'
  exact ⟨as ++ bs, run_append has hbs⟩

theorem Reaches.perform (h : Reaches hash m m₁) (a : ServerAct) : Reaches hash m (m₁.perform hash a) := by
  refine h.trans ?_
  cases hs : serverStep hash m₁.sys a with
  | none => exact ⟨[], by simp [MetaServer.perform, hs, run]⟩
  | some s => exact ⟨[a], by simp [MetaServer.perform, hs, run]⟩

/-- The migration records are no part of `ServerSys`. -/
theorem Reaches.deleteMigrationState (h : Reaches hash m m₁) (p : UInt32) (byRouter : Bool) :
    Reaches hash m (m₁.deleteMigrationState env p byRouter) := by
  unfold MetaServer.deleteMigrationState
  split <;> exact h

theorem Reaches.tryInitializePartitions (h : Reaches hash m m₁) : Reaches hash m (m₁.tryInitializePartitions hash env) := by
  unfold MetaServer.tryInitializePartitions
  split
  · exact h
  · dsimp only
    split
    · exact (h.perform _).perform _
    · exact ((h.perform _).perform _).perform _

variable (hash env)

theorem reaches_routerInitCluster (m : MetaServer) : Reaches hash m (m.routerInitCluster hash env).1 := by
  have hrefl := Reaches.refl hash m
  have hstart := hrefl.perform .initCluster
  unfold routerInitCluster
  split
  · exact hrefl
  split
  · exact hrefl
  split
  · exact hrefl
  split
  · exact hrefl
  split
  · exact hrefl
  split
  · exact hrefl
  dsimp only
  split
  · exact hstart.perform _
  · exact (hstart.perform _).perform _

theorem reaches_executeTask (m : MetaServer) (task : MigrationTask) :
    Reaches hash m (m.executeTask hash env task).1 := by
  unfold MetaServer.executeTask
  split
  · exact (Reaches.refl hash m).deleteMigrationState _ _
  · have hset : ∀ migrations, Reaches hash m { m with migrations := migrations } := fun _ => ⟨[], rfl⟩
    dsimp only
    split
    · exact (hset _).deleteMigrationState _ _
    · refine Reaches.deleteMigrationState ?_ _ _
      split
      · exact ((hset _).deleteMigrationState _ _).perform _
      · exact (hset _).deleteMigrationState _ _

theorem reaches_executeTasks : ∀ (tasks : List MigrationTask) (m : MetaServer),
    Reaches hash m (m.executeTasks hash env tasks).1
  | [], m => .refl hash m
  | task :: tasks, m => (reaches_executeTask hash env m task).trans (reaches_executeTasks tasks _)

theorem reaches_doMoves : ∀ (moves : List Move) (x : MetaServer × List MigrationTask),
    Reaches hash x.1 (moves.foldl (doMove hash env) x).1
  | [], x => .refl hash x.1
  | move :: moves, x => by
    have hmove : Reaches hash x.1 (doMove hash env x move).1 := by
      cases move with
      | promote p =>
        simp only [doMove]
        split
        · exact .refl hash _
        · exact (Reaches.refl hash _).perform _
      | migrate task => exact .refl hash _
    exact hmove.trans (reaches_doMoves moves _)

theorem reaches_routerShutdownNode (m : MetaServer) (nodeID : String) (force : Bool) :
    Reaches hash m (m.routerShutdownNode hash env nodeID force).1 := by
  have hrefl := Reaches.refl hash m
  have hdrain := hrefl.perform (.updateNodeStatus nodeID .draining)
  unfold routerShutdownNode
  split
  · exact hrefl
  split
  · exact hrefl
  split
  · exact hrefl
  dsimp only
  split
  · split
    · exact hdrain
    · exact hdrain.perform _
  split
  · exact hdrain
  split
  · exact hdrain
  · next moves _ =>
    have hmoves := hdrain.trans (reaches_doMoves hash env moves (_, []))
    dsimp only
    split
    · exact hmoves.trans (reaches_executeTasks hash env _ _)
    · exact (hmoves.trans (reaches_executeTasks hash env _ _)).perform _

/-- **A request goes nowhere** that steps of the server do not lead. -/
theorem handle_reaches (m : MetaServer) (rq : Request) : Reaches hash m (m.handle hash env rq).1 := by
  have hrefl := Reaches.refl hash m
  cases rq with
  | registerNode nodeID addr role =>
    simp only [handle, registerNode]
    split
    · exact hrefl
    · have hreg := hrefl.perform (.registerNode ⟨nodeID, addr, role, .online⟩)
      dsimp only
      split_ifs
      · exact hreg.tryInitializePartitions
      · exact hreg
  | initCluster =>
    have hinit := reaches_routerInitCluster hash env m
    simp only [handle, initCluster]
    split
    · next heq =>
      rw [heq] at hinit
      exact hinit
    · next heq =>
      rw [heq] at hinit
      exact hinit
  | triggerRebalance force =>
    simp only [handle, triggerRebalance]
    split
    · exact hrefl
    · split
      · exact hrefl
      · split
        · exact hrefl
        · split
          · exact hrefl
          · exact hrefl.perform _
  | cancelMigration =>
    simp only [handle, cancelMigration]
    split
    · exact hrefl.perform _
    · exact hrefl
  | shutdownNode nodeID force =>
    have hdown := reaches_routerShutdownNode hash env m nodeID force
    simp only [handle, shutdownNode]
    split
    · next heq =>
      rw [heq] at hdown
      exact hdown
    · next heq =>
      rw [heq] at hdown
      exact hdown

end

end MetaServer

end RocksKV.Metadata
