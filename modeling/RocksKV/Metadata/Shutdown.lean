import RocksKV.Metadata.RouteTable
/-!
# Controlled shutdown of a node (`Router.ShutdownNode`, `pkg/metadata/router.go:585-812`)

| here | there |
| --- | --- |
| `MigrationTask`   | what `AddTask` is given (`migration_scheduler.go:31-36`) |
| `Move`            | one call of the loops (`:679-782`): a promotion, or a task that is scheduled or, without a scheduler, carried out by `CompleteMigration` |
| `shutdownTargets` | the nodes to move to (`:650-662`) |
| `shutdownMoves`   | the calls of a shutdown that is not forced, in order |

The loops run over the snapshot taken at the start and ranged over in an order Go leaves open (`order`). A
forced shutdown makes no calls of its own: it starts a rebalance.

A primary is moved by a task only where the node is the primary and there is no other replica to promote
(`isPrimary_of_mem_shutdownMoves`).
-/

namespace RocksKV.Metadata

open Lib

inductive MigrationPriority
  | low | normal | high | urgent
  deriving DecidableEq, Repr

/-- The number of the protobuf enumeration. -/
def MigrationPriority.number : MigrationPriority → Nat
  | low => 0
  | normal => 1
  | high => 2
  | urgent => 3

/-- Its state, progress and times are the scheduler's. -/
structure MigrationTask where
  partitionID : UInt32
  source      : String
  target      : String
  priority    : MigrationPriority
  isPrimary   : Bool
  deriving DecidableEq, Repr

inductive Move
  | promote (partitionID : UInt32)
  | migrate (task : MigrationTask)
  deriving DecidableEq, Repr

def Move.isPromote : Move → Bool
  | .promote _ => true
  | .migrate _ => false

/-- The online storage nodes but the one that is shut down. -/
def shutdownTargets (nodes : List NodeInfo) (nodeID : String) : List NodeInfo :=
  (nodes.filter fun n => decide (n.role = .storage)).filter fun n => decide (n.id ≠ nodeID ∧ n.status = .online)

section
variable (hash : String → UInt32) (ring : ConsistentHash) (addr : String)

/-- The calls for a partition with its primary on the node. -/
def primaryMoves (partition : PartitionInfo) : List Move :=
  let (newPrimary, newReplica) := ring.getNodes hash partition.id
  (if partition.replica ≠ "" ∧ partition.replica ≠ addr then [.promote partition.id]
    else [.migrate ⟨partition.id, addr, newPrimary, .high, true⟩]) ++
  (if partition.replica = addr ∧ newReplica ≠ "" then [.migrate ⟨partition.id, addr, newReplica, .normal, false⟩]
    else [])

/-- The calls for a partition with its replica on the node; one that also has its primary there is done. -/
def replicaMoves (partition : PartitionInfo) : List Move :=
  let (_, newReplica) := ring.getNodes hash partition.id
  if partition.primary = addr ∨ newReplica = "" then []
  else [.migrate ⟨partition.id, addr, newReplica, .normal, false⟩]

end

/-- The entries of a table in the order `order`, which lists its partitions. -/
def RouteTable.inOrder (table : RouteTable) (order : List UInt32) : List PartitionInfo := order.filterMap table.entry

def shutdownMoves (hash : String → UInt32) (table : RouteTable) (order : List UInt32) (nodes : List NodeInfo)
    (node : NodeInfo) : Except String (List Move) :=
  let targetNodes := shutdownTargets nodes node.id
  if targetNodes.length < minReplicaNodes - 1 then
    .error s!"not enough online nodes for migration (need {minReplicaNodes - 1}, have {targetNodes.length})"
  else
    let newHashRing := buildRing hash (targetNodes.map NodeInfo.addr)
    let partitions := table.inOrder order
    .ok ((partitions.filter fun e => decide (e.primary = node.addr)).flatMap (primaryMoves hash newHashRing node.addr) ++
      (partitions.filter fun e => decide (e.replica = node.addr)).flatMap (replicaMoves hash newHashRing node.addr))

/-- The calls of a shutdown, loop after loop. -/
theorem shutdownMoves_eq {hash : String → UInt32} {table : RouteTable} {order : List UInt32} {nodes : List NodeInfo}
    {node : NodeInfo} {moves : List Move} (h : shutdownMoves hash table order nodes node = .ok moves) :
    moves = ((table.inOrder order).filter fun e => decide (e.primary = node.addr)).flatMap
        (primaryMoves hash (buildRing hash ((shutdownTargets nodes node.id).map NodeInfo.addr)) node.addr) ++
      ((table.inOrder order).filter fun e => decide (e.replica = node.addr)).flatMap
        (replicaMoves hash (buildRing hash ((shutdownTargets nodes node.id).map NodeInfo.addr)) node.addr) := by
  unfold shutdownMoves at h
  dsimp only at h
  split_ifs at h
  exact (Except.ok.inj h).symm

theorem shutdownMoves_ok {hash : String → UInt32} (table : RouteTable) (order : List UInt32) {nodes : List NodeInfo}
    {node : NodeInfo} (h : 0 < (shutdownTargets nodes node.id).length) :
    ∃ moves, shutdownMoves hash table order nodes node = .ok moves := by
  have hno : ¬ (shutdownTargets nodes node.id).length < minReplicaNodes - 1 := Nat.not_lt.2 h
  exact ⟨_, if_neg hno⟩

/-- The entries listed are in the table. -/
theorem RouteTable.entry_of_mem_inOrder {table : RouteTable} {order : List UInt32} {e : PartitionInfo}
    (h : e ∈ table.inOrder order) : table.entry e.id = some e := by
  obtain ⟨q, -, hq⟩ := List.mem_filterMap.1 h
  rw [RouteTable.id_of_entry hq]
  exact hq

/-- **The tasks of a shutdown**: where a partition has its primary on the node and no other replica, one to the
ring's primary; where it has its replica there, one to the ring's replica, if there is one. -/
theorem mem_shutdownMoves {hash : String → UInt32} {table : RouteTable} {order : List UInt32} {nodes : List NodeInfo}
    {node : NodeInfo} {moves : List Move} {task : MigrationTask}
    (h : shutdownMoves hash table order nodes node = .ok moves) (hm : .migrate task ∈ moves) :
    ∃ e, table.entry task.partitionID = some e ∧
      (task.isPrimary = true ∧ e.primary = node.addr ∧ (e.replica = "" ∨ e.replica = node.addr) ∧
        task.target =
          ((buildRing hash ((shutdownTargets nodes node.id).map NodeInfo.addr)).getNodes hash task.partitionID).1 ∨
      task.isPrimary = false ∧ e.replica = node.addr ∧ task.target ≠ "" ∧
        task.target =
          ((buildRing hash ((shutdownTargets nodes node.id).map NodeInfo.addr)).getNodes hash task.partitionID).2) := by
  rw [shutdownMoves_eq h] at hm
  generalize buildRing hash ((shutdownTargets nodes node.id).map NodeInfo.addr) = ring at hm ⊢
  rcases List.mem_append.1 hm with hm | hm
  · obtain ⟨e, he, hm⟩ := List.mem_flatMap.1 hm
    obtain ⟨hin, hnode⟩ := List.mem_filter.1 he
    rcases hg : ring.getNodes hash e.id with ⟨newPrimary, newReplica⟩
    simp only [primaryMoves, hg] at hm
    rcases List.mem_append.1 hm with hm | hm
    · split_ifs at hm with hrep
      · simp at hm
      · obtain rfl := Move.migrate.inj (List.mem_singleton.1 hm)
        refine ⟨e, RouteTable.entry_of_mem_inOrder hin, .inl ⟨rfl, by simpa using hnode, ?_, by rw [hg]⟩⟩
        by_contra hno
        exact hrep (not_or.1 hno)
    · split_ifs at hm with hrep
      · obtain rfl := Move.migrate.inj (List.mem_singleton.1 hm)
        exact ⟨e, RouteTable.entry_of_mem_inOrder hin, .inr ⟨rfl, hrep.1, hrep.2, by rw [hg]⟩⟩
      · cases hm
  · obtain ⟨e, he, hm⟩ := List.mem_flatMap.1 hm
    obtain ⟨hin, hnode⟩ := List.mem_filter.1 he
    rcases hg : ring.getNodes hash e.id with ⟨newPrimary, newReplica⟩
    simp only [replicaMoves, hg] at hm
    split_ifs at hm with hskip
    · cases hm
    · obtain rfl := Move.migrate.inj (List.mem_singleton.1 hm)
      exact ⟨e, RouteTable.entry_of_mem_inOrder hin, .inr ⟨rfl, by simpa using hnode, (not_or.1 hskip).2, by rw [hg]⟩⟩

/-- **A shutdown moves a primary by a task only where it has no other replica.** -/
theorem isPrimary_of_mem_shutdownMoves {hash : String → UInt32} {table : RouteTable} {order : List UInt32}
    {nodes : List NodeInfo} {node : NodeInfo} {moves : List Move} {task : MigrationTask}
    (h : shutdownMoves hash table order nodes node = .ok moves) (hm : .migrate task ∈ moves)
    (hprim : task.isPrimary = true) :
    ∃ e, table.entry task.partitionID = some e ∧ e.primary = node.addr ∧ (e.replica = "" ∨ e.replica = node.addr) := by
  obtain ⟨e, he, ⟨-, hnode, hrep, -⟩ | ⟨hno, -⟩⟩ := mem_shutdownMoves h hm
  · exact ⟨e, he, hnode, hrep⟩
  · rw [hprim] at hno
    cases hno

/-- Node `A` is shut down, `B` and `C` stay. -/
theorem shutdownMoves_three (hash : String → UInt32) (table : RouteTable) (order : List UInt32) :
    shutdownMoves hash table order [onlineNode "A", onlineNode "B", onlineNode "C"] (onlineNode "A") =
      .ok (((table.inOrder order).filter fun x => decide (x.primary = "A")).flatMap
          (primaryMoves hash (buildRing hash ["B", "C"]) "A") ++
        ((table.inOrder order).filter fun x => decide (x.replica = "A")).flatMap
          (replicaMoves hash (buildRing hash ["B", "C"]) "A")) := by
  have htargets : shutdownTargets [onlineNode "A", onlineNode "B", onlineNode "C"] (onlineNode "A").id =
    [onlineNode "B", onlineNode "C"] := by decide
  simp only [shutdownMoves, htargets]
  rfl

end RocksKV.Metadata
