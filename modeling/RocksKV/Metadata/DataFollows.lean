import RocksKV.Metadata.Migration
import RocksKV.Metadata.Placement
import RocksKV.Metadata.Router
import RocksKV.Metadata.Shutdown
/-!
# Who moves a primary

Five paths of the metadata service give a partition a new primary. `metaStep` interleaves them over one router.

| here | there |
| --- | --- |
| `MetaAct.promoteReplica`   | `PromoteReplica`, called by `handleNodeFailure` (`failover.go:212-225`) |
| `MetaAct.rebalanceStart`, `rebalanceCommit` | `RebalancePartitions`, after a failover (`failover.go:227-236`) or a forced shutdown |
| `MetaAct.copy`, `switch`   | `migratePartition` (`migration.go:414-506`) up to its call of `CompleteMigration`, and that call |
| `MetaAct.executeMigration` | `MigrationScheduler.executeMigration` (`migration_scheduler.go:340-395`), which copies nothing |
| `MetaAct.shutdownStart`, `shutdownMove` | `ShutdownNode` (`router.go:585-812`): its snapshot, and one call of its loops |

`copies` records the nodes that have ingested a complete export of a partition from the primary it had then. The tasks of
the scheduler are those a shutdown gives to `AddTask` (`router.go:705`, `:736`, `:764`; nobody else calls it). A task that
`AddTask` refuses, or that is cancelled while it waits, is one that no `executeMigration` step takes.

**Bug**: only one of the paths copies data at all, and that one takes a truncated stream for a complete one.
`RebalancePartitions` commits whatever the ring says, `executeMigration` sleeps where the copy should be, and a
commit from a stale snapshot brings back an old primary. `data_follows_routing` says what keeps every new primary
on a node with the data. For a rebalance this is a matter of the ring: one that has lost nodes gives a partition its old
primary or, where that one is gone, its old replica (`primary_of_fewer`), so it is enough that the pairs are those of a
ring with all the nodes, in either order, and that one node of each is left.
-/

namespace RocksKV.Metadata

open Lib Storage

structure MetaSys where
  router    : RouterSys
  /-- `migratePartition` calls that are about to call `CompleteMigration`. -/
  switches  : List MigrationPlanItem
  /-- `ShutdownNode` calls: whether a scheduler is given, and the calls still to make. -/
  shutdowns : List (Bool × List Move)
  /-- The tasks of the scheduler. -/
  tasks     : List MigrationTask
  /-- Partitions and nodes that ingested a complete export from the primary. -/
  copies    : List (UInt32 × String)

inductive MetaAct
  | promoteReplica (partitionID : UInt32)
  | rebalanceStart (nodes : List NodeInfo)
  | rebalanceCommit (i : Nat)
  | deliver
  | copy (item : MigrationPlanItem) (env : CopyEnv)
  | switch (i : Nat)
  | executeMigration (i : Nat)
  | shutdownStart (node : NodeInfo) (nodes : List NodeInfo) (order : List UInt32) (scheduled : Bool)
  | shutdownMove (i : Nat)

def MetaSys.start (table : RouteTable) : MetaSys :=
  { router := .start table, switches := [], shutdowns := [], tasks := [], copies := [] }

/-- The primary `p` has in etcd. -/
def MetaSys.primary (s : MetaSys) (p : UInt32) : Option String := (s.router.committed.entry p).map (·.primary)

/-- The target of a copy has ingested all that the primary exported. -/
def MetaSys.copyDone (s : MetaSys) (item : MigrationPlanItem) (env : CopyEnv) (copy : Copy) : Bool :=
  reachesLast env.recvs && decide (copy.answer = some (.ok ())) && decide (s.primary item.partitionID = some item.sourceNode)

section
variable (hash : String → UInt32) (fmt : SSTFormat)

/-- A call of the router that changes nothing if it fails. -/
def MetaSys.call (s : MetaSys) (a : Act) : MetaSys := { s with router := (step hash s.router a).getD s.router }

/-- A call made by a shutdown: a task goes to the scheduler, if there is one. -/
def MetaSys.move (s : MetaSys) (scheduled : Bool) : Move → MetaSys
  | .promote p => s.call hash (.promoteReplica p)
  | .migrate task =>
    if scheduled then { s with tasks := s.tasks ++ [task] }
    else s.call hash (.completeMigration task.partitionID task.target task.isPrimary)

def metaStep (s : MetaSys) : MetaAct → Option MetaSys
  | .promoteReplica p => some (s.call hash (.promoteReplica p))
  | .rebalanceStart nodes => some (s.call hash (.rebalanceStart nodes))
  | .rebalanceCommit i => some (s.call hash (.rebalanceCommit i))
  | .deliver => some (s.call hash .deliver)
  | .copy item env =>
    let copy := migratePartition fmt s.router.cache env item
    some { s with
      switches := match copy.call with
        | .error _ => s.switches
        | .ok item => s.switches ++ [item]
      copies := if s.copyDone item env copy then s.copies ++ [(item.partitionID, item.targetNode)] else s.copies }
  | .switch i =>
    match s.switches[i]? with
    | none => none
    | some item =>
      some { s.call hash (.completeMigration item.partitionID item.targetNode item.isPrimary) with
        switches := s.switches.eraseIdx i }
  | .executeMigration i =>
    match s.tasks[i]? with
    | none => none
    | some task =>
      some { s.call hash (.completeMigration task.partitionID task.target task.isPrimary) with tasks := s.tasks.eraseIdx i }
  | .shutdownStart node nodes order scheduled =>
    if order.Perm s.router.cache.partitions.keys then
      match shutdownMoves hash s.router.cache order nodes node with
      | .error _ => none
      | .ok moves => some { s with shutdowns := s.shutdowns ++ [(scheduled, moves)] }
    else none
  | .shutdownMove i =>
    match s.shutdowns[i]? with
    | some (scheduled, m :: moves) =>
      some { s.move hash scheduled m with shutdowns := s.shutdowns.set i (scheduled, moves) }
    | _ => none

/-! ## Where the data is -/

/-- The node is one of the partition's two in etcd, or has a copy. -/
def Holder (s : MetaSys) (p : UInt32) (node : String) : Prop :=
  (∃ e, s.router.committed.entry p = some e ∧ (node = e.primary ∨ node = e.replica)) ∨ (p, node) ∈ s.copies

instance (s : MetaSys) (p : UInt32) (node : String) : Decidable (Holder s p node) :=
  decidable_of_iff ((s.router.committed.entry p).any (fun e => decide (node = e.primary ∨ node = e.replica)) = true ∨
    (p, node) ∈ s.copies) (by simp [Holder, Option.any_eq_true])

/-- A new primary in etcd was a holder before the step. -/
def DataFollows (s : MetaSys) (a : MetaAct) : Prop :=
  ∀ s', metaStep hash fmt s a = some s' → ∀ p e', s'.router.committed.entry p = some e' →
    s.primary p ≠ some e'.primary → Holder s p e'.primary

/-- The cache has every commit. -/
def MetaSys.CacheFresh (s : MetaSys) : Prop := s.router.cache.partitions = s.router.committed.partitions

instance (s : MetaSys) : Decidable s.CacheFresh :=
  inferInstanceAs (Decidable (s.router.cache.partitions = s.router.committed.partitions))

/-- The pair is where the ring puts the partition, in one order or the other. -/
def PairOnRing (ring : ConsistentHash) (p : UInt32) (e : PartitionInfo) : Prop :=
  ring.getNodes hash p = e.pair ∨ ring.getNodes hash p = e.pair.swap

/-- One of the two nodes of partition `p` is online; and the two are, in one order or the other, where a ring without
collisions puts `p` that has all the nodes now online, and others. -/
def PlacedOver (online : List String) (p : UInt32) (e : PartitionInfo) : Prop :=
  (e.primary ∈ online ∨ e.replica ∈ online) ∧ ∃ addrs, DistinctLabels hash defaultVirtualNodes (· ∈ addrs) ∧
    (∀ a ∈ online, a ∈ addrs) ∧ PairOnRing hash (buildRing hash addrs) p e

/-- What keeps a step on the nodes with the data: commits start from the committed table; a rebalance is over some of the
nodes that the pairs were placed over, and leaves a node to each; the export a primary's move relies on reaches its last
chunk and comes from the primary; and a node is shut down only when its primaries have another replica. -/
def KeepsData (s : MetaSys) : MetaAct → Prop
  | .promoteReplica _ | .switch _ | .executeMigration _ | .shutdownMove _ => s.CacheFresh
  | .rebalanceStart nodes => ∀ p e, s.router.cache.entry p = some e →
      PlacedOver hash ((onlineNodes nodes).map NodeInfo.addr) p e
  | .rebalanceCommit i => ∀ x ∈ s.router.rebalances[i]?, x.2.partitions = s.router.committed.partitions
  | .deliver => True
  | .copy item env => item.isPrimary = true →
      reachesLast env.recvs = true ∧ s.primary item.partitionID = some item.sourceNode
  | .shutdownStart node _ _ _ => ∀ x ∈ s.router.cache.partitions.entries, x.2.primary = node.addr →
      x.2.replica ≠ "" ∧ x.2.replica ≠ node.addr

/-- The moves under way: a copy is there for those that give a partition a new primary, a task gives none, and a ring
keeps to the pairs of its snapshot. -/
structure MoveInv (s : MetaSys) : Prop where
  switches   : ∀ item ∈ s.switches, item.isPrimary = true → (item.partitionID, item.targetNode) ∈ s.copies
  shutdowns  : ∀ x ∈ s.shutdowns, ∀ task, .migrate task ∈ x.2 → task.isPrimary = false
  tasks      : ∀ task ∈ s.tasks, task.isPrimary = false
  rebalances : ∀ x ∈ s.router.rebalances, ∀ p e, x.2.entry p = some e →
    (x.1.getNodes hash p).1 = e.primary ∨ (x.1.getNodes hash p).1 = e.replica

/-! ## Rings that lose nodes -/

section
variable {hash : String → UInt32} {online : List String} {p : UInt32} {e : PartitionInfo}

/-- **A ring over the nodes that are left keeps the primary in its pair.** -/
theorem PlacedOver.primary (h : PlacedOver hash online p e) :
    ((buildRing hash online).getNodes hash p).1 = e.primary ∨ ((buildRing hash online).getNodes hash p).1 = e.replica := by
  obtain ⟨hleft, addrs, hd, hsub, hpair⟩ := h
  obtain ⟨hfst, hsnd⟩ := primary_of_fewer hd hsub p
  -- the pair may have been swapped by promotions since the ring placed it
  rcases hpair with hpair | hpair <;> rw [hpair] at hfst hsnd
  · by_cases hprimary : e.primary ∈ online
    · exact .inl (hfst hprimary)
    · exact .inr (hsnd hprimary (hleft.resolve_left hprimary))
  · by_cases hreplica : e.replica ∈ online
    · exact .inr (hfst hreplica)
    · exact .inl (hsnd hreplica (hleft.resolve_right hreplica))

end

/-! ## One call of the router -/

/-- The operation puts primaries on nodes of their pair, or in `H`. -/
def Op.LandsOn (H : UInt32 → String → Prop) (snapshot : RouteTable) : Op → Prop
  | .promote _ | .setStatus _ _ => True
  | .complete q newNode isPrimary => isPrimary = true → H q newNode
  | .rebalance ring => ∀ p e, snapshot.entry p = some e →
      (ring.getNodes hash p).1 = e.primary ∨ (ring.getNodes hash p).1 = e.replica

variable {hash fmt}

/-- **A call that starts from the committed table and lands on holders** gives no partition a primary without
the data. -/
theorem call_follows {s : MetaSys} {a : Act} (hf : Fresh s.router a)
    (hop : ∀ x ∈ a.source s.router, x.1.LandsOn hash (Holder s) x.2) {p : UInt32} {e' : PartitionInfo}
    (he : (s.call hash a).router.committed.entry p = some e') (hne : s.primary p ≠ some e'.primary) :
    Holder s p e'.primary := by
  have hsame : s.router.committed.entry p = some e' → Holder s p e'.primary := fun h =>
    absurd (by rw [MetaSys.primary, h]; rfl) hne
  unfold MetaSys.call at he
  cases hst : step hash s.router a with
  | none =>
    rw [hst] at he
    exact hsame he
  | some r =>
    rw [hst] at he
    obtain ⟨op, snapshot, t, rs, hsrc, ht, rfl⟩ | ⟨rs, rfl⟩ | ⟨t, rest, -, -, rfl⟩ := step_cases hst
    · obtain ⟨e, hs, hprim⟩ := Op.primary_eq ht he
      have hcom : s.router.committed.entry p = some e := by
        rw [RouteTable.entry, ← hf _ hsrc]
        exact hs
      have hland := hop _ hsrc
      rw [hprim] at hne ⊢
      cases op with
      | promote q =>
        refine .inl ⟨e, hcom, ?_⟩
        simp only [Op.primaryOf]
        split_ifs
        · exact .inr rfl
        · exact .inl rfl
      | setStatus q st => exact .inl ⟨e, hcom, .inl rfl⟩
      | complete q n b =>
        simp only [Op.primaryOf]
        split_ifs with hp
        · obtain ⟨rfl, hb⟩ := hp
          exact hland hb
        · exact .inl ⟨e, hcom, .inl rfl⟩
      | rebalance ring => exact .inl ⟨e, hcom, hland p e hs⟩
    · exact hsame he
    · exact hsame he

theorem promote_follows {s : MetaSys} (hf : s.CacheFresh) {q p : UInt32} {e' : PartitionInfo}
    (he : (s.call hash (.promoteReplica q)).router.committed.entry p = some e') (hne : s.primary p ≠ some e'.primary) :
    Holder s p e'.primary := by
  refine call_follows (fun x hx => ?_) (fun x hx => ?_) he hne
  · cases hx
    exact hf
  · cases hx
    trivial

theorem complete_follows {s : MetaSys} (hf : s.CacheFresh) {q p : UInt32} {n : String} {b : Bool}
    (hland : b = true → Holder s q n) {e' : PartitionInfo}
    (he : (s.call hash (.completeMigration q n b)).router.committed.entry p = some e')
    (hne : s.primary p ≠ some e'.primary) : Holder s p e'.primary := by
  refine call_follows (fun x hx => ?_) (fun x hx => ?_) he hne
  · cases hx
    exact hf
  · cases hx
    exact hland

/-- A shutdown starts with the moves of its snapshot. -/
theorem shutdownStart_eq {s s' : MetaSys} {node : NodeInfo} {nodes : List NodeInfo} {order : List UInt32}
    {scheduled : Bool} (h : metaStep hash fmt s (.shutdownStart node nodes order scheduled) = some s') :
    ∃ moves, shutdownMoves hash s.router.cache order nodes node = .ok moves ∧
      s' = { s with shutdowns := s.shutdowns ++ [(scheduled, moves)] } := by
  simp only [metaStep] at h
  by_cases hperm : order.Perm s.router.cache.partitions.keys
  · rw [if_pos hperm] at h
    split at h
    · cases h
    · rename_i moves hmoves
      cases h
      exact ⟨moves, hmoves, rfl⟩
  · rw [if_neg hperm] at h
    cases h

/-! ## Runs -/

theorem follows_of_keepsData {s : MetaSys} {a : MetaAct} (hi : MoveInv hash s) (hk : KeepsData hash s a) :
    DataFollows hash fmt s a := by
  intro s' h p e' he hne
  have hsame : s.router.committed.entry p = some e' → Holder s p e'.primary := fun h =>
    absurd (by rw [MetaSys.primary, h]; rfl) hne
  cases a with
  | promoteReplica q =>
    cases h
    exact promote_follows hk he hne
  | rebalanceStart nodes =>
    cases h
    exact call_follows (fun x hx => by cases hx) (fun x hx => by cases hx) he hne
  | rebalanceCommit i =>
    cases h
    refine call_follows (fun x hx => ?_) (fun x hx => ?_) he hne
    · obtain ⟨y, hy, rfl⟩ := Option.map_eq_some_iff.1 hx
      exact hk y hy
    · obtain ⟨y, hy, rfl⟩ := Option.map_eq_some_iff.1 hx
      exact hi.rebalances y (List.mem_of_getElem? hy)
  | deliver =>
    cases h
    exact call_follows (fun x hx => by cases hx) (fun x hx => by cases hx) he hne
  | copy item env =>
    cases h
    exact hsame he
  | switch i =>
    simp only [metaStep] at h
    split at h
    · cases h
    · rename_i item hitem
      cases h
      exact complete_follows hk (fun hb => .inr (hi.switches item (List.mem_of_getElem? hitem) hb)) he hne
  | executeMigration i =>
    simp only [metaStep] at h
    split at h
    · cases h
    · rename_i task htask
      cases h
      have hrep := hi.tasks task (List.mem_of_getElem? htask)
      exact complete_follows hk (fun hb => absurd hb (by simp [hrep])) he hne
  | shutdownStart node nodes order scheduled =>
    obtain ⟨moves, -, rfl⟩ := shutdownStart_eq h
    exact hsame he
  | shutdownMove i =>
    simp only [metaStep] at h
    split at h
    · rename_i scheduled m moves hm
      cases h
      cases m with
      | promote q => exact promote_follows hk he hne
      | migrate task =>
        have hrep := hi.shutdowns _ (List.mem_of_getElem? hm) task List.mem_cons_self
        cases scheduled with
        | true => exact hsame he
        | false => exact complete_follows hk (fun hb => absurd hb (by simp [hrep])) he hne
    · cases h

/-- Rebalances are opened by `rebalanceStart` alone. -/
theorem rebalances_call (s : MetaSys) {a : Act} (ha : ∀ nodes, a ≠ .rebalanceStart nodes) :
    ∀ x ∈ (s.call hash a).router.rebalances, x ∈ s.router.rebalances := by
  intro x hx
  unfold MetaSys.call at hx
  cases hst : step hash s.router a with
  | none =>
    rw [hst] at hx
    exact hx
  | some r =>
    rw [hst] at hx
    change x ∈ r.rebalances at hx
    cases a with
    | promoteReplica q | setPartitionStatus q st | completeMigration q n b =>
      obtain ⟨t, -, rfl⟩ := edit_eq_some hst
      exact hx
    | rebalanceStart nodes => exact absurd rfl (ha nodes)
    | rebalanceCommit i =>
      simp only [step] at hst
      split at hst
      · cases hst
      · split_ifs at hst <;> cases hst <;> exact List.mem_of_mem_eraseIdx hx
    | deliver =>
      simp only [step] at hst
      split at hst <;> cases hst
      exact hx

/-- A call of the router leaves the other moves alone. -/
theorem MoveInv.call {s : MetaSys} (hi : MoveInv hash s) {a : Act} (ha : ∀ nodes, a ≠ .rebalanceStart nodes) :
    MoveInv hash (s.call hash a) :=
  ⟨hi.switches, hi.shutdowns, hi.tasks, fun x hx => hi.rebalances x (rebalances_call s ha x hx)⟩

/-- A rebalance is opened over the nodes online, with the cached table. -/
theorem moveInv_rebalanceStart {s : MetaSys} {nodes : List NodeInfo} (hi : MoveInv hash s)
    (hk : KeepsData hash s (.rebalanceStart nodes)) : MoveInv hash (s.call hash (.rebalanceStart nodes)) := by
  refine ⟨hi.switches, hi.shutdowns, hi.tasks, fun x hx p e he => ?_⟩
  simp only [MetaSys.call, step] at hx
  split_ifs at hx with hfew
  · exact hi.rebalances x hx p e he
  · rcases List.mem_append.1 hx with hx | hx
    · exact hi.rebalances x hx p e he
    · obtain rfl := List.mem_singleton.1 hx
      exact (hk p e he).primary

theorem moveInv_copy {s : MetaSys} {item : MigrationPlanItem} {env : CopyEnv} (hi : MoveInv hash s)
    (hk : KeepsData hash s (.copy item env)) {s' : MetaSys} (h : metaStep hash fmt s (.copy item env) = some s') :
    MoveInv hash s' := by
  cases h
  refine ⟨fun x hx hprim => ?_, hi.shutdowns, hi.tasks, hi.rebalances⟩
  have hold : x ∈ s.switches → (x.partitionID, x.targetNode) ∈
      if s.copyDone item env (migratePartition fmt s.router.cache env item)
        then s.copies ++ [(item.partitionID, item.targetNode)] else s.copies := by
    intro hx
    have hin := hi.switches x hx hprim
    split_ifs
    · exact List.mem_append_left _ hin
    · exact hin
  dsimp only at hx
  cases hc : (migratePartition fmt s.router.cache env item).call with
  | error e =>
    rw [hc] at hx
    exact hold hx
  | ok i =>
    rw [hc] at hx
    rcases List.mem_append.1 hx with hx | hx
    · exact hold hx
    · obtain ⟨rfl, -, hanswer⟩ := migratePartition_call hc
      obtain rfl := List.mem_singleton.1 hx
      obtain ⟨hlast, hsrc⟩ := hk hprim
      have hdone : s.copyDone x env (migratePartition fmt s.router.cache env x) = true := by
        simp [MetaSys.copyDone, hlast, hanswer, hsrc]
      rw [if_pos hdone]
      exact List.mem_append_right _ List.mem_cons_self

theorem moveInv_shutdownMove {s s' : MetaSys} {i : Nat} (hi : MoveInv hash s)
    (h : metaStep hash fmt s (.shutdownMove i) = some s') : MoveInv hash s' := by
  simp only [metaStep] at h
  split at h
  · rename_i scheduled m moves hm
    cases h
    have hm := List.mem_of_getElem? hm
    have hrest : ∀ x ∈ s.shutdowns.set i (scheduled, moves), ∀ task, .migrate task ∈ x.2 → task.isPrimary = false := by
      intro x hx task ht
      rcases List.mem_or_eq_of_mem_set hx with hx | rfl
      · exact hi.shutdowns x hx task ht
      · exact hi.shutdowns _ hm task (List.mem_cons_of_mem _ ht)
    cases m with
    | promote q =>
      have hcall := hi.call (a := .promoteReplica q) nofun
      exact ⟨hi.switches, hrest, hi.tasks, hcall.rebalances⟩
    | migrate task =>
      cases scheduled with
      | false =>
        have hcall := hi.call (a := .completeMigration task.partitionID task.target task.isPrimary) nofun
        exact ⟨hi.switches, hrest, hi.tasks, hcall.rebalances⟩
      | true =>
        refine ⟨hi.switches, hrest, fun t ht => ?_, hi.rebalances⟩
        rcases List.mem_append.1 ht with ht | ht
        · exact hi.tasks t ht
        · obtain rfl := List.mem_singleton.1 ht
          exact hi.shutdowns _ hm t List.mem_cons_self
  · cases h

theorem moveInv_step {s s' : MetaSys} {a : MetaAct} (hi : MoveInv hash s) (hk : KeepsData hash s a)
    (h : metaStep hash fmt s a = some s') : MoveInv hash s' := by
  cases a with
  | promoteReplica q =>
    cases h
    exact hi.call nofun
  | rebalanceStart nodes =>
    cases h
    exact moveInv_rebalanceStart hi hk
  | rebalanceCommit i =>
    cases h
    exact hi.call nofun
  | deliver =>
    cases h
    exact hi.call nofun
  | executeMigration i =>
    simp only [metaStep] at h
    split at h
    · cases h
    · rename_i task htask
      cases h
      have hcall := hi.call (a := .completeMigration task.partitionID task.target task.isPrimary) nofun
      exact ⟨hi.switches, hi.shutdowns, fun t ht => hi.tasks t (List.mem_of_mem_eraseIdx ht), hcall.rebalances⟩
  | copy item env => exact moveInv_copy hi hk h
  | switch i =>
    simp only [metaStep] at h
    split at h
    · cases h
    · rename_i item hitem
      cases h
      have hcall := hi.call (a := .completeMigration item.partitionID item.targetNode item.isPrimary) nofun
      exact ⟨fun x hx => hi.switches x (List.mem_of_mem_eraseIdx hx), hi.shutdowns, hi.tasks, hcall.rebalances⟩
  | shutdownStart node nodes order scheduled =>
    obtain ⟨moves, hmoves, rfl⟩ := shutdownStart_eq h
    refine ⟨hi.switches, fun x hx task ht => ?_, hi.tasks, hi.rebalances⟩
    rcases List.mem_append.1 hx with hx | hx
    · exact hi.shutdowns x hx task ht
    · obtain rfl := List.mem_singleton.1 hx
      by_contra hprim
      rw [Bool.not_eq_false] at hprim
      obtain ⟨e, he, hnode, hrep⟩ := isPrimary_of_mem_shutdownMoves hmoves ht hprim
      obtain ⟨h1, h2⟩ := hk (_, e) (OrdMap.mem_entries.2 he) hnode
      exact hrep.elim h1 h2
  | shutdownMove i => exact moveInv_shutdownMove hi h

theorem moveInv_start (init : RouteTable) : MoveInv hash (.start init) :=
  ⟨fun _ hx => absurd hx List.not_mem_nil, fun _ hx => absurd hx List.not_mem_nil,
    fun _ hx => absurd hx List.not_mem_nil, fun _ hx => absurd hx List.not_mem_nil⟩

/-- **Data follows routing** in every run in which each rebalance leaves a node to every pair that a larger ring has
placed, primaries are moved after complete copies, and nothing is committed from a stale table. -/
theorem data_follows_routing {init : RouteTable} {as : List MetaAct}
    (hk : Along (metaStep hash fmt) (KeepsData hash) (.start init) as) :
    Along (metaStep hash fmt) (DataFollows hash fmt) (.start init) as :=
  along_of_inv (fun _ _ _ hi hk h => moveInv_step hi hk h) (fun _ _ hi hk => follows_of_keepsData hi hk)
    (moveInv_start init) hk

end

/-- Move the primary of partition 7 from `a` to `c` after a complete export of one key, and switch. -/
def copyToC : List MetaAct :=
  [.copy ⟨7, "a", "c", true⟩ ⟨exportStream .escaped none 7 [(makePartitionKey 7 [1], [2])], emptyNode, none, "",
      none⟩, .switch 0]

/-- Partition 28 on `C` and `B`, where the ring of `A`, `B` and `C` puts it. -/
def tableOfAbc : RouteTable :=
  RouteTable.new.setEntry
    { id := 28, primary := "C", replica := "B", status := .normal, migrationTarget := "", migrationState := .none,
      epoch := 1 }

/-- `C` fails: the replica is promoted, and a rebalance over the nodes that are left follows. -/
def takeOver : List MetaAct :=
  [.promoteReplica 28, .deliver, .rebalanceStart [onlineNode "A", onlineNode "B"], .rebalanceCommit 0]

/-- The entry of partition 28 when `B` has been promoted. -/
def takenOver : PartitionInfo :=
  { id := 28, primary := "B", replica := "C", status := .normal, migrationTarget := "", migrationState := .none, epoch := 2 }

theorem getNodes_abc : (buildRing hashKey ["A", "B", "C"]).getNodes hashKey 28 = ("C", "B") := by
  have hfst : ((buildRing hashKey ["A", "B", "C"]).getNodes hashKey 28).1 = "C" := by
    refine getNodes_fst collisionFree_abc (by decide) (by decide : 79 < _) ?_ ?_ <;> rw [hashKey_eq] <;> decide +kernel
  obtain ⟨-, hmem, hne⟩ := getNodes_of_nodup collisionFree_abc (by decide) (by decide) 28
  rw [hfst] at hne
  -- without `C` the second comes first
  have hleft : ((buildRing hashKey ["A", "B", "C"]).getNodes hashKey 28).2 ∈ ["A", "B"] := by
    simp only [List.mem_cons, List.not_mem_nil, or_false] at hmem ⊢
    exact hmem.imp_right fun h => h.resolve_right hne
  have hsnd := (primary_of_fewer (distinctLabels_of_places nodup_places_abc) (by decide) 28).2
    (by rw [hfst]; decide) hleft
  rw [getNodes_ab] at hsnd
  exact Prod.ext hfst hsnd.symm

/-- A copy before a switch; and a failover, in which the rebalance finds the pair the other way round. -/
theorem data_follows_routing_copy_failover :
    ((run (metaStep hashKey .escaped) (.start tableOfSeven) copyToC).map (·.primary 7) = some (some "c") ∧
      Along (metaStep hashKey .escaped) (DataFollows hashKey .escaped) (.start tableOfSeven) copyToC) ∧
    ∃ s', run (metaStep hashKey .escaped) (.start tableOfAbc) takeOver = some s' ∧
      Along (metaStep hashKey .escaped) (DataFollows hashKey .escaped) (.start tableOfAbc) takeOver := by
  constructor
  · refine ⟨by decide +kernel, data_follows_routing ⟨fun _ => by decide +kernel, fun s h => ?_⟩⟩
    cases h
    exact ⟨rfl, fun _ _ => trivial⟩
  · refine ⟨_, rfl, data_follows_routing ⟨rfl, fun s h => ?_⟩⟩
    cases h
    refine ⟨trivial, fun s h => ?_⟩
    cases h
    refine ⟨fun p e he => ?_, fun s h => ?_⟩
    · obtain ⟨rfl, rfl⟩ : p = 28 ∧ e = takenOver :=
        Prod.mk.inj (List.mem_singleton.1 (OrdMap.mem_entries.2 he))
      exact ⟨.inl (by decide), _, distinctLabels_of_places nodup_places_abc, by decide, .inr getNodes_abc⟩
    · obtain rfl := Option.some.inj h
      refine ⟨fun x hx => ?_, fun _ _ => trivial⟩
      obtain rfl := Option.some.inj hx
      rfl

/-- The system once a rebalance over `ring` has read the table of partition 7. -/
def rebalancing (ring : ConsistentHash) : MetaSys :=
  { MetaSys.start tableOfSeven with
    router := { RouterSys.start tableOfSeven with rebalances := [(ring, tableOfSeven)] } }

/-- A ring that takes the partition from both its nodes is committed without a copy. -/
theorem rebalancing_not_follows {ring : ConsistentHash} (ha : (ring.getNodes hashKey 7).1 ≠ "a")
    (hb : (ring.getNodes hashKey 7).1 ≠ "b") :
    ¬ DataFollows hashKey .escaped (rebalancing ring) (.rebalanceCommit 0) := by
  intro h
  have hchanges : 0 < totalChanges hashKey ring tableOfSeven := by
    have hentries : tableOfSeven.partitions.entries = [(7, ⟨7, "a", "b", .normal, "", .none, 1⟩)] := rfl
    simp [totalChanges, hentries, ha.symm]
  have hentry : ((rebalancing ring).call hashKey (.rebalanceCommit 0)).router.committed.entry 7 =
      some (rebalanced hashKey ring ⟨7, "a", "b", .normal, "", .none, 1⟩) := by
    simp only [rebalancing, MetaSys.call, step, List.getElem?_cons_zero, if_pos hchanges]
    rfl
  rcases h _ rfl 7 _ hentry fun he => ha (Option.some.inj he).symm with ⟨e, he, hpair⟩ | hcopy
  · cases he
    exact hpair.elim ha hb
  · cases hcopy

/-- **Bug**: both nodes of partition 7 are gone, and a rebalance gives it to a node that has nothing of it. -/
theorem rebalance_routes_to_node_without_data :
    ¬ Along (metaStep hashKey .escaped) (DataFollows hashKey .escaped) (.start tableOfSeven)
      [.rebalanceStart [onlineNode "c", onlineNode "d"], .rebalanceCommit 0] := by
  intro h
  have hopen : metaStep hashKey .escaped (.start tableOfSeven) (.rebalanceStart [onlineNode "c", onlineNode "d"]) =
      some (rebalancing (buildRing hashKey ["c", "d"])) := rfl
  have hring := getNodes_buildRing hashKey ["c", "d"] 7
  refine rebalancing_not_follows (fun ha => ?_) (fun hb => ?_) (h.2 _ hopen).1
  · rw [ha] at hring
    simp at hring
  · rw [hb] at hring
    simp at hring

/-! ## Failovers and rebalances, one after the other -/

/-- The ring of the last rebalance that was committed, and before there is one `ring`. -/
def lastRing (ring : ConsistentHash) (commits : List (Op × RouteTable)) : ConsistentHash :=
  commits.foldl (fun ring c => match c.1 with | .rebalance new => new | _ => ring) ring

section
variable (hash : String → UInt32) (ring : ConsistentHash)

/-- Promotions and rebalances from the committed table; a rebalance is over nodes that the last one had, and leaves a node
to every partition. -/
def Narrows (s : MetaSys) : MetaAct → Prop
  | .promoteReplica _ => s.CacheFresh
  | .deliver => True
  | .rebalanceStart nodes => s.CacheFresh ∧
      (∀ n ∈ onlineNodes nodes, (lastRing ring s.router.commits).hasNode n.addr = true) ∧
      ∀ p e, s.router.cache.entry p = some e →
        e.primary ∈ (onlineNodes nodes).map NodeInfo.addr ∨ e.replica ∈ (onlineNodes nodes).map NodeInfo.addr
  | .rebalanceCommit i => ∀ x ∈ s.router.rebalances[i]?, x.2.partitions = s.router.committed.partitions
  | .copy _ _ | .switch _ | .executeMigration _ | .shutdownStart _ _ _ _ | .shutdownMove _ => False

/-- A ring as servers build it, without collisions. -/
def Built (ring : ConsistentHash) : Prop :=
  ∃ addrs, DistinctLabels hash defaultVirtualNodes (· ∈ addrs) ∧ ring = buildRing hash addrs

/-- Every pair is on the last ring. -/
structure RingInv (s : MetaSys) : Prop where
  last    : Built hash (lastRing ring s.router.commits)
  placed  : ∀ p e, s.router.committed.entry p = some e → PairOnRing hash (lastRing ring s.router.commits) p e
  pending : ∀ x ∈ s.router.rebalances, Built hash x.1

variable {hash ring}

theorem placedOver_of_ringInv {s : MetaSys} {nodes : List NodeInfo} (hr : RingInv hash ring s)
    (hc : Narrows ring s (.rebalanceStart nodes)) :
    KeepsData hash s (.rebalanceStart nodes) ∧ Built hash (buildRing hash ((onlineNodes nodes).map NodeInfo.addr)) := by
  obtain ⟨hfresh, hnodes, hleft⟩ := hc
  obtain ⟨addrs, hd, hlast⟩ := hr.last
  have hsub : ∀ a ∈ (onlineNodes nodes).map NodeInfo.addr, a ∈ addrs := by
    intro a ha
    obtain ⟨n, hn, rfl⟩ := List.mem_map.1 ha
    have hhas := hnodes n hn
    rw [hlast, (covers_buildRing hd).nodes, List.mem_toFinset] at hhas
    exact hhas
  refine ⟨fun p e he => ⟨hleft p e he, addrs, hd, hsub, ?_⟩, _, fun a b ha hb => hd a b (hsub a ha) (hsub b hb), rfl⟩
  have hcom : s.router.committed.entry p = some e := by
    rw [RouteTable.entry, ← hfresh]
    exact he
  have hplaced := hr.placed p e hcom
  rwa [hlast] at hplaced

theorem ringInv_promote {s : MetaSys} (hr : RingInv hash ring s) (hf : s.CacheFresh) (q : UInt32) :
    RingInv hash ring (s.call hash (.promoteReplica q)) := by
  unfold MetaSys.call
  cases hst : step hash s.router (.promoteReplica q) with
  | none => exact hr
  | some r =>
    obtain ⟨t, ht, rfl⟩ := edit_eq_some hst
    have hlast : lastRing ring (s.router.commit (.promote q) t).commits = lastRing ring s.router.commits := by
      simp [lastRing, RouterSys.commit]
    refine ⟨hlast ▸ hr.last, fun p e he => ?_, hr.pending⟩
    show PairOnRing hash (lastRing ring (s.router.commit (.promote q) t).commits) p e
    rw [hlast]
    change t.entry p = some e at he
    rw [entry_promoteReplica ht p, RouteTable.entry, hf] at he
    split_ifs at he <;> obtain ⟨x, hx, rfl⟩ := Option.map_eq_some_iff.1 he
    · exact (hr.placed p x hx).symm
    · exact hr.placed p x hx

theorem ringInv_rebalanceCommit {s : MetaSys} (hr : RingInv hash ring s) (i : Nat) :
    RingInv hash ring (s.call hash (.rebalanceCommit i)) := by
  have hpending : ∀ x ∈ (s.call hash (.rebalanceCommit i)).router.rebalances, Built hash x.1 := fun x hx =>
    hr.pending x (rebalances_call s (fun _ h => by cases h) x hx)
  refine ⟨?_, ?_, hpending⟩ <;> unfold MetaSys.call <;> simp only [step] <;> split
  · exact hr.last
  · rename_i new snapshot hi
    split_ifs
    · simpa [lastRing, RouterSys.commit] using hr.pending _ (List.mem_of_getElem? hi)
    · exact hr.last
  · exact hr.placed
  · rename_i new snapshot hi
    split_ifs
    · intro p e he
      have hlast : lastRing ring (s.router.commits ++ [(.rebalance new,
          updateRouteTable s.router.committed (rebalancePartitions hash new snapshot))]) = new := by
        simp [lastRing]
      show PairOnRing hash (lastRing ring (s.router.commits ++ [_])) p e
      rw [hlast]
      change (rebalancePartitions hash new snapshot).entry p = some e at he
      rw [entry_rebalancePartitions] at he
      obtain ⟨x, hx, rfl⟩ := Option.map_eq_some_iff.1 he
      rw [PairOnRing, ← RouteTable.id_of_entry hx]
      exact .inl rfl
    · exact hr.placed

theorem ringInv_step {fmt : SSTFormat} {s s' : MetaSys} {a : MetaAct} (hr : RingInv hash ring s)
    (hc : Narrows ring s a) (h : metaStep hash fmt s a = some s') : RingInv hash ring s' ∧ KeepsData hash s a := by
  cases a with
  | promoteReplica q =>
    cases h
    exact ⟨ringInv_promote hr hc q, hc⟩
  | rebalanceStart nodes =>
    cases h
    obtain ⟨hkeeps, hbuilt⟩ := placedOver_of_ringInv hr hc
    refine ⟨?_, hkeeps⟩
    simp only [MetaSys.call, step]
    split_ifs
    · exact hr
    · refine ⟨hr.last, hr.placed, fun x hx => ?_⟩
      rcases List.mem_append.1 hx with hx | hx
      · exact hr.pending x hx
      · rw [List.mem_singleton.1 hx]
        exact hbuilt
  | rebalanceCommit i =>
    cases h
    exact ⟨ringInv_rebalanceCommit hr i, hc⟩
  | deliver =>
    cases h
    refine ⟨?_, trivial⟩
    simp only [MetaSys.call, step]
    split
    · exact hr
    · exact ⟨hr.last, hr.placed, hr.pending⟩
  | copy | switch | executeMigration | shutdownStart | shutdownMove => cases hc

/-- **Failovers keep to the nodes with the data**: from a table that a ring without collisions has placed, through any
promotions and rebalances from the committed table, where no rebalance brings back a node that the last one did not have
and each leaves a node to every partition, every new primary has the data. -/
theorem failover_keeps_data {fmt : SSTFormat} {init : RouteTable} {as : List MetaAct} (hring : Built hash ring)
    (hinit : ∀ p e, init.entry p = some e → PairOnRing hash ring p e)
    (hc : Along (metaStep hash fmt) (Narrows ring) (.start init) as) :
    Along (metaStep hash fmt) (DataFollows hash fmt) (.start init) as := by
  have hstart : MoveInv hash (.start init) ∧ RingInv hash ring (.start init) :=
    ⟨moveInv_start init, hring, hinit, fun x hx => absurd hx List.not_mem_nil⟩
  refine along_of_inv (P := fun s => MoveInv hash s ∧ RingInv hash ring s) (fun s a s' hi hc h => ?_)
    (fun s a hi hc s' h => ?_) hstart hc <;> obtain ⟨hr, hkeeps⟩ := ringInv_step hi.2 hc h
  · exact ⟨moveInv_step hi.1 hkeeps h, hr⟩
  · exact follows_of_keepsData hi.1 hkeeps s' h

end

/-- Any ring that has `A` and `B` will do for the run. -/
theorem narrows_takeOver {ring : ConsistentHash}
    (hnodes : ∀ n ∈ onlineNodes [onlineNode "A", onlineNode "B"], ring.hasNode n.addr = true) :
    Along (metaStep hashKey .escaped) (Narrows ring) (.start tableOfAbc) takeOver := by
  refine ⟨rfl, fun s h => ?_⟩
  cases h
  refine ⟨trivial, fun s h => ?_⟩
  cases h
  refine ⟨⟨rfl, hnodes, fun p e he => ?_⟩, fun s h => ?_⟩
  · obtain ⟨rfl, rfl⟩ : p = 28 ∧ e = takenOver := Prod.mk.inj (List.mem_singleton.1 (OrdMap.mem_entries.2 he))
    exact .inl (by decide)
  · obtain rfl := Option.some.inj h
    refine ⟨fun x hx => ?_, fun _ _ => trivial⟩
    obtain rfl := Option.some.inj hx
    rfl

theorem failover_keeps_data_abc :
    ∃ s', run (metaStep hashKey .escaped) (.start tableOfAbc) takeOver = some s' ∧
      Along (metaStep hashKey .escaped) (DataFollows hashKey .escaped) (.start tableOfAbc) takeOver := by
  have hd := distinctLabels_of_places nodup_places_abc
  refine ⟨_, rfl, failover_keeps_data ⟨_, hd, rfl⟩ (fun p e he => ?_) (narrows_takeOver fun n hn => ?_)⟩
  · obtain ⟨rfl, rfl⟩ := Prod.mk.inj (List.mem_singleton.1 (OrdMap.mem_entries.2 he))
    exact .inl getNodes_abc
  · rw [(covers_buildRing hd).nodes]
    revert n
    decide

end RocksKV.Metadata
