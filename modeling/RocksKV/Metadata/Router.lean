import RocksKV.Lib.Run
import RocksKV.Metadata.RouteTable
/-!
# The metadata router over its store (`pkg/metadata/router.go`, `etcd.go`)

Every operation rebuilds the whole table from the cached `r.routeTable` and commits it with
`EtcdStore.UpdateRouteTable`; the cache follows only when the watch goroutine delivers the commit.
`step` interleaves the two.

| here | there |
| --- | --- |
| `Act.promoteReplica` and the two edits beside it | the calls, `r.mu` held from the read of the cache to the commit |
| `Act.rebalanceStart` | `RebalancePartitions` up to the read of `r.routeTable` (`router.go:277-305`); `r.mu` is released there |
| `Act.rebalanceCommit` | its loop and its commit (`router.go:307-366`); nothing is committed when nothing changed |
| `Act.deliver`        | one table through the watch to `r.updateRouteTable` (`router.go:60-77`) |

Holding `r.mu` keeps the watch goroutine out, so the cache an edit commits from is the cache at its
commit: an edit is one step. A call that fails commits nothing and is not a step.

A commit replaces all entries by those of its snapshot, so it undoes whatever was committed since
that snapshot was taken. With fresh snapshots nothing is lost (`committed_eq_operations_applied`); the
back-to-back promotions of `handleNodeFailure` (`failover.go:212-225`) lose all but the last
(`second_promotion_undoes_first`).
-/

namespace RocksKV.Metadata

open Lib

/-- A successful operation on the route table. -/
inductive Op
  | promote (partitionID : UInt32)
  | setStatus (partitionID : UInt32) (status : PartitionStatus)
  | complete (partitionID : UInt32) (newNode : String) (isPrimary : Bool)
  | rebalance (ring : ConsistentHash)

structure RouterSys where
  /-- The table in etcd. -/
  committed  : RouteTable
  /-- `r.routeTable`. -/
  cache      : RouteTable
  /-- Commits the watch has not delivered yet. -/
  watch      : List RouteTable
  /-- `RebalancePartitions` calls that have read the cache and not committed: ring and snapshot. -/
  rebalances : List (ConsistentHash × RouteTable)
  /-- Every commit so far, with the operation that made it. -/
  commits    : List (Op × RouteTable)

inductive Act
  | promoteReplica (partitionID : UInt32)
  | setPartitionStatus (partitionID : UInt32) (status : PartitionStatus)
  | completeMigration (partitionID : UInt32) (newNode : String) (isPrimary : Bool)
  | rebalanceStart (nodes : List NodeInfo)
  | rebalanceCommit (i : Nat)
  | deliver

/-- After `Router.Start`: the cache holds the stored table. -/
def RouterSys.start (table : RouteTable) : RouterSys :=
  { committed := table, cache := table, watch := [], rebalances := [], commits := [] }

/-- `UpdateRouteTable` by operation `op`. -/
def RouterSys.commit (s : RouterSys) (op : Op) (table : RouteTable) : RouterSys :=
  let new := updateRouteTable s.committed table
  { s with committed := new, watch := s.watch ++ [new], commits := s.commits ++ [(op, new)] }

/-- Commit the table an edit built, unless it failed. -/
def RouterSys.edit (s : RouterSys) (op : Op) : Except String RouteTable → Option RouterSys
  | .error _ => none
  | .ok table => some (s.commit op table)

section
variable (hash : String → UInt32)

def step (s : RouterSys) : Act → Option RouterSys
  | .promoteReplica p => s.edit (.promote p) (promoteReplica s.cache p)
  | .setPartitionStatus p st => s.edit (.setStatus p st) (setPartitionStatus s.cache p st)
  | .completeMigration p n b => s.edit (.complete p n b) (completeMigration s.cache p n b)
  | .rebalanceStart nodes =>
    let online := onlineNodes nodes
    if online.length < minReplicaNodes then none
    else some { s with rebalances := s.rebalances ++ [(buildRing hash (online.map NodeInfo.addr), s.cache)] }
  | .rebalanceCommit i =>
    match s.rebalances[i]? with
    | none => none
    | some (ring, snapshot) =>
      let s := { s with rebalances := s.rebalances.eraseIdx i }
      if 0 < totalChanges hash ring snapshot then
        some (s.commit (.rebalance ring) (rebalancePartitions hash ring snapshot))
      else some s
  | .deliver =>
    match s.watch with
    | [] => none
    | table :: rest => some { s with cache := table, watch := rest }

/-! ## What an operation means for one partition -/

/-- A rebalance concerns every partition, an edit the one it names. -/
def Op.concerns (p : UInt32) : Op → Bool
  | .promote q | .setStatus q _ | .complete q _ _ => decide (q = p)
  | .rebalance _ => true

/-- The operation on an entry it concerns. -/
def Op.onEntry (e : PartitionInfo) : Op → PartitionInfo
  | .promote _ => promoted e (copyRouting e)
  | .setStatus _ status => { e with status := status }
  | .complete _ newNode isPrimary => migrated newNode isPrimary e (copyRouting e)
  | .rebalance ring => rebalanced hash ring e

/-- The entry of `p` after the operations, in order, that concern it. -/
def entryAfter (p : UInt32) (ops : List Op) (e : Option PartitionInfo) : Option PartitionInfo :=
  (ops.filter (Op.concerns p)).foldl (fun e op => e.map fun e => op.onEntry hash e) e

/-- Every committed entry is its initial one with the operations that concern it applied in commit order. -/
def NoLostUpdate (init : RouteTable) (s : RouterSys) : Prop :=
  ∀ p, s.committed.entry p = entryAfter hash p (s.commits.map Prod.fst) (init.entry p)

/-- The operation a step commits, with the snapshot its table is built from. -/
def Act.source (s : RouterSys) : Act → Option (Op × RouteTable)
  | .promoteReplica p => some (.promote p, s.cache)
  | .setPartitionStatus p st => some (.setStatus p st, s.cache)
  | .completeMigration p n b => some (.complete p n b, s.cache)
  | .rebalanceCommit i => (s.rebalances[i]?).map fun x => (.rebalance x.1, x.2)
  | .rebalanceStart _ | .deliver => none

/-- A committing step starts from the entries now in etcd. -/
def Fresh (s : RouterSys) (a : Act) : Prop :=
  ∀ x ∈ a.source s, x.2.partitions = s.committed.partitions

instance (s : RouterSys) (a : Act) : Decidable (Fresh s a) :=
  inferInstanceAs (Decidable (∀ x ∈ a.source s, x.2.partitions = s.committed.partitions))

/-- The table an operation builds from a snapshot. -/
def Op.table (snapshot : RouteTable) : Op → Except String RouteTable
  | .promote p => promoteReplica snapshot p
  | .setStatus p st => setPartitionStatus snapshot p st
  | .complete p n b => completeMigration snapshot p n b
  | .rebalance ring => .ok (rebalancePartitions hash ring snapshot)

/-! ## What a commit does -/

variable {hash : String → UInt32}

theorem map_copyRouting {t : RouteTable} (hm : NoMigration t) (p : UInt32) :
    (t.entry p).map copyRouting = t.entry p := by
  cases he : t.entry p with
  | none => rfl
  | some e => simp [hm p e he]

/-- **An operation rewrites the entries it concerns and keeps the others**, when the snapshot carries no
migration fields for the copy to drop. -/
theorem Op.entry_table {op : Op} {snapshot t : RouteTable} (hm : NoMigration snapshot)
    (h : op.table hash snapshot = .ok t) (p : UInt32) :
    t.entry p = if op.concerns p then (snapshot.entry p).map fun e => op.onEntry hash e
      else snapshot.entry p := by
  cases op with
  | promote q =>
    rw [entry_promoteReplica h p, map_copyRouting hm]
    simp [Op.concerns, Op.onEntry, eq_comm]
  | setStatus q st =>
    rw [entry_setPartitionStatus h p]
    simp [Op.concerns, Op.onEntry, eq_comm]
  | complete q n b =>
    rw [entry_completeMigration h p, map_copyRouting hm]
    simp [Op.concerns, Op.onEntry, eq_comm]
  | rebalance ring =>
    cases h
    rw [entry_rebalancePartitions]
    rfl

theorem Op.copyRouting_onEntry (op : Op) {e : PartitionInfo} (he : copyRouting e = e) :
    copyRouting (op.onEntry hash e) = op.onEntry hash e := by
  have ht : e.migrationTarget = "" := by rw [← he]; rfl
  have hs : e.migrationState = .none := by rw [← he]; rfl
  cases op with
  | promote q => rfl
  | setStatus q st => simp [Op.onEntry, copyRouting, ht, hs]
  | complete q n b => cases b <;> rfl
  | rebalance ring => rfl

theorem Op.noMigration_table {op : Op} {snapshot t : RouteTable} (hm : NoMigration snapshot)
    (h : op.table hash snapshot = .ok t) : NoMigration t := by
  intro p e he
  rw [Op.entry_table hm h p] at he
  split_ifs at he
  · obtain ⟨e', he', rfl⟩ := Option.map_eq_some_iff.1 he
    exact op.copyRouting_onEntry (hm p e' he')
  · exact hm p e he

theorem entryAfter_append (p : UInt32) (ops : List Op) (op : Op) (e : Option PartitionInfo) :
    entryAfter hash p (ops ++ [op]) e =
      if op.concerns p then (entryAfter hash p ops e).map fun e => op.onEntry hash e else entryAfter hash p ops e := by
  unfold entryAfter
  rw [List.filter_append, List.foldl_append]
  by_cases hc : op.concerns p <;> simp [hc]

/-- The operation leaves every primary inside the pair it finds in the snapshot. -/
def Op.KeepsPair (hash : String → UInt32) (snapshot : RouteTable) : Op → Prop
  | .promote _ | .setStatus _ _ => True
  | .complete q newNode isPrimary =>
    isPrimary = true → ∀ e ∈ snapshot.entry q, newNode = e.primary ∨ newNode = e.replica
  | .rebalance ring => ∀ x ∈ snapshot.partitions.entries,
      (ring.getNodes hash x.1).1 = x.2.primary ∨ (ring.getNodes hash x.1).1 = x.2.replica

instance (snapshot : RouteTable) (op : Op) : Decidable (op.KeepsPair hash snapshot) :=
  match op with
  | .promote _ | .setStatus _ _ => inferInstanceAs (Decidable True)
  | .complete q n b => inferInstanceAs (Decidable (b = true → ∀ e ∈ snapshot.entry q, n = e.primary ∨ n = e.replica))
  | .rebalance ring => inferInstanceAs (Decidable (∀ x ∈ snapshot.partitions.entries,
      (ring.getNodes hash x.1).1 = x.2.primary ∨ (ring.getNodes hash x.1).1 = x.2.replica))

/-- The primary an operation leaves to partition `p`, whose entry is `e`. -/
def Op.primaryOf (hash : String → UInt32) (p : UInt32) (e : PartitionInfo) : Op → String
  | .promote q => if p = q then e.replica else e.primary
  | .setStatus _ _ => e.primary
  | .complete q newNode isPrimary => if p = q ∧ isPrimary = true then newNode else e.primary
  | .rebalance ring => (ring.getNodes hash p).1

theorem Op.primary_eq {op : Op} {snapshot t : RouteTable} (h : op.table hash snapshot = .ok t) {p : UInt32}
    {e' : PartitionInfo} (he : t.entry p = some e') :
    ∃ e, snapshot.entry p = some e ∧ e'.primary = op.primaryOf hash p e := by
  cases op with
  | promote q =>
    rw [entry_promoteReplica h p] at he
    split_ifs at he with hp <;> obtain ⟨e, hs, rfl⟩ := Option.map_eq_some_iff.1 he
    · exact ⟨e, hs, by simp [Op.primaryOf, hp, promoted]⟩
    · exact ⟨e, hs, by simp [Op.primaryOf, hp, copyRouting]⟩
  | setStatus q st =>
    rw [entry_setPartitionStatus h p] at he
    split_ifs at he
    · obtain ⟨e, hs, rfl⟩ := Option.map_eq_some_iff.1 he
      exact ⟨e, hs, rfl⟩
    · exact ⟨e', he, rfl⟩
  | complete q n b =>
    rw [entry_completeMigration h p] at he
    split_ifs at he with hp <;> obtain ⟨e, hs, rfl⟩ := Option.map_eq_some_iff.1 he
    · refine ⟨e, hs, ?_⟩
      cases b <;> simp [Op.primaryOf, hp, migrated, copyRouting]
    · exact ⟨e, hs, by simp [Op.primaryOf, hp, copyRouting]⟩
  | rebalance ring =>
    cases h
    rw [entry_rebalancePartitions] at he
    obtain ⟨e, hs, rfl⟩ := Option.map_eq_some_iff.1 he
    exact ⟨e, hs, by simp [Op.primaryOf, rebalanced, RouteTable.id_of_entry hs]⟩

/-- **A new primary comes out of the old pair** when the operation keeps pairs. -/
theorem Op.primary_table {op : Op} {snapshot t : RouteTable} (hk : op.KeepsPair hash snapshot)
    (h : op.table hash snapshot = .ok t) {p : UInt32} {e' : PartitionInfo} (he : t.entry p = some e') :
    ∃ e, snapshot.entry p = some e ∧ (e'.primary = e.primary ∨ e'.primary = e.replica) := by
  obtain ⟨e, hs, hprim⟩ := Op.primary_eq h he
  refine ⟨e, hs, ?_⟩
  rw [hprim]
  cases op with
  | promote q =>
    simp only [Op.primaryOf]
    split_ifs
    · exact .inr rfl
    · exact .inl rfl
  | setStatus q st => exact .inl rfl
  | complete q n b =>
    simp only [Op.primaryOf]
    split_ifs with hp
    · obtain ⟨rfl, hb⟩ := hp
      exact hk hb e hs
    · exact .inl rfl
  | rebalance ring => exact hk (p, e) (OrdMap.mem_entries.2 hs)

theorem edit_eq_some {s s' : RouterSys} {op : Op} {r : Except String RouteTable} (h : s.edit op r = some s') :
    ∃ t, r = .ok t ∧ s' = s.commit op t := by
  cases r with
  | error m => cases h
  | ok t => cases h; exact ⟨t, rfl, rfl⟩

/-- **What a step can do**: commit the table an operation builds from its snapshot, open a rebalance,
drop one that changes nothing, or deliver a commit. -/
theorem step_cases {s s' : RouterSys} {a : Act} (h : step hash s a = some s') :
    (∃ op snapshot t rs, (op, snapshot) ∈ a.source s ∧ op.table hash snapshot = .ok t ∧
      s' = { s.commit op t with rebalances := rs }) ∨
    (∃ rs, s' = { s with rebalances := rs }) ∨
    (∃ t rest, a = .deliver ∧ s.watch = t :: rest ∧ s' = { s with cache := t, watch := rest }) := by
  cases a with
  | promoteReplica p =>
    obtain ⟨t, ht, rfl⟩ := edit_eq_some h
    exact .inl ⟨.promote p, s.cache, t, _, rfl, ht, rfl⟩
  | setPartitionStatus p st =>
    obtain ⟨t, ht, rfl⟩ := edit_eq_some h
    exact .inl ⟨.setStatus p st, s.cache, t, _, rfl, ht, rfl⟩
  | completeMigration p n b =>
    obtain ⟨t, ht, rfl⟩ := edit_eq_some h
    exact .inl ⟨.complete p n b, s.cache, t, _, rfl, ht, rfl⟩
  | rebalanceStart nodes =>
    simp only [step] at h
    split_ifs at h
    cases h
    exact .inr (.inl ⟨_, rfl⟩)
  | rebalanceCommit i =>
    simp only [step] at h
    split at h
    · cases h
    · rename_i ring snapshot hi
      split_ifs at h
      · cases h
        exact .inl ⟨.rebalance ring, snapshot, _, _, by simp [Act.source, hi], rfl, rfl⟩
      · cases h
        exact .inr (.inl ⟨_, rfl⟩)
  | deliver =>
    simp only [step] at h
    split at h
    · cases h
    · rename_i t rest hw
      cases h
      exact .inr (.inr ⟨t, rest, rfl, hw, rfl⟩)

/-! ## No lost update -/

/-- Commits from fresh snapshots keep every entry equal to its operations applied in order. -/
theorem step_noLostUpdate {init : RouteTable} {s s' : RouterSys} {a : Act}
    (hi : NoMigration s.committed ∧ NoLostUpdate hash init s) (hf : Fresh s a) (h : step hash s a = some s') :
    NoMigration s'.committed ∧ NoLostUpdate hash init s' := by
  obtain ⟨op, snapshot, t, rs, hs, ht, rfl⟩ | ⟨rs, rfl⟩ | ⟨t, rest, -, -, rfl⟩ := step_cases h
  · have hsnap : ∀ p, snapshot.entry p = s.committed.entry p := fun p => by
      rw [RouteTable.entry, hf _ hs]; rfl
    have hm : NoMigration snapshot := fun p e he => hi.1 p e (by rw [← hsnap, he])
    refine ⟨fun p e he => Op.noMigration_table hm ht p e he, fun p => ?_⟩
    have hc : (s.commit op t).commits.map Prod.fst = s.commits.map Prod.fst ++ [op] := by simp [RouterSys.commit]
    change t.entry p = entryAfter hash p ((s.commit op t).commits.map Prod.fst) (init.entry p)
    rw [hc, entryAfter_append, ← hi.2 p, Op.entry_table hm ht p, hsnap]
  · exact hi
  · exact hi

/-- **No lost update**: in a run whose commits all start from the committed entries, every committed entry
is its initial one with the operations that concern it applied in commit order. -/
theorem committed_eq_operations_applied (hash : String → UInt32) {init : RouteTable} (hm : NoMigration init)
    {as : List Act} {s : RouterSys} (hfresh : Along (step hash) Fresh (.start init) as)
    (hrun : run (step hash) (.start init) as = some s) : NoLostUpdate hash init s :=
  (run_inv_along (P := fun s => NoMigration s.committed ∧ NoLostUpdate hash init s)
    (fun _ _ _ hi hf h => step_noLostUpdate hi hf h) ⟨hm, fun _ => rfl⟩ hfresh hrun).2

end

/-- Partitions 0 and 1, both with primary `a` and replica `b`. -/
def pairOnAB : RouteTable :=
  let onAB (i : UInt32) : PartitionInfo :=
    { id := i, primary := "a", replica := "b", status := .normal, migrationTarget := "", migrationState := .none,
      epoch := 1 }
  (RouteTable.new.setEntry (onAB 0)).setEntry (onAB 1)

/-- Two promotions with the watch delivering in between keep both. -/
theorem promotions_kept_when_delivered :
    ∃ s, run (step hashKey) (.start pairOnAB) [.promoteReplica 0, .deliver, .promoteReplica 1] = some s ∧
      NoLostUpdate hashKey pairOnAB s :=
  ⟨_, rfl, @committed_eq_operations_applied hashKey pairOnAB (by decide)
    [.promoteReplica 0, .deliver, .promoteReplica 1] _ (by decide) rfl⟩

/-- **Bug**: the second of two promotions that follow each other before the watch delivers is built
from the table without the first, and commits it away. -/
theorem second_promotion_undoes_first :
    NoMigration pairOnAB ∧
    ∃ s, run (step hashKey) (.start pairOnAB) [.promoteReplica 0, .promoteReplica 1] = some s ∧
      s.committed.entry 0 = pairOnAB.entry 0 ∧ ¬ NoLostUpdate hashKey pairOnAB s := by
  refine ⟨by decide, _, rfl, by decide, fun h => ?_⟩
  have h0 := h 0
  revert h0
  decide

end RocksKV.Metadata
