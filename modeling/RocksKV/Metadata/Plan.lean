import RocksKV.Metadata.Migration
import RocksKV.Metadata.Shutdown
/-!
# The rebalance plan (`MigrationController.calculateMigrationPlan`, `pkg/metadata/migration.go:207-303`)

| here | there |
| --- | --- |
| `PlannedItem`            | `type MigrationPlanItem` (`:198-204`) with its `Priority` |
| `planItems`              | one partition of the loop (`:239-290`) |
| `calculateMigrationPlan` | the function; the loop ranges over a Go map, the sort is by priority (`:292-295`) |
| `completeItems`          | the items of a plan as they complete, each through `CompleteMigration` (`:414-506`) |

The goroutines of `executeMigration` (`:343-410`) may complete the items in any order.

**Bug**: a primary item leaves the old primary as the replica (`router.go:532-537`). The plan looks at the replica
there is, not at the one its own primary item leaves: where the ring keeps the replica it has no item to put it
back, and where it has one, that item is undone when it completes first. `rebalance_reaches_ring_iff` is the exact
condition.
-/

namespace RocksKV.Metadata

open Lib

structure PlannedItem extends MigrationPlanItem where
  priority : MigrationPriority
  deriving DecidableEq, Repr

/-- The items for one partition; `addrSet` has the addresses of the online nodes. -/
def planItems (hash : String → UInt32) (ring : ConsistentHash) (addrSet : List String) (partition : PartitionInfo) :
    List PlannedItem :=
  let (newPrimary, newReplica) := ring.getNodes hash partition.id
  (if partition.primary ≠ newPrimary then
    [{ partitionID := partition.id
       sourceNode := partition.primary
       -- a replica that is to be the primary is promoted
       targetNode := if partition.replica = newPrimary then partition.replica else newPrimary
       isPrimary := true
       priority := if partition.primary ∈ addrSet then .normal else .high }]
    else []) ++
  (if partition.replica ≠ newReplica ∧ partition.primary ≠ newReplica then
    [{ partitionID := partition.id
       sourceNode := partition.replica
       targetNode := newReplica
       isPrimary := false
       priority := if partition.replica ∈ addrSet then .low else .normal }]
    else [])

/-- The addresses of the online nodes. -/
def onlineAddrs (nodes : List NodeInfo) : List String := (onlineNodes nodes).map NodeInfo.addr

def calculateMigrationPlan (hash : String → UInt32) (currentTable : RouteTable) (nodes : List NodeInfo) :
    List PlannedItem :=
  if (onlineNodes nodes).length < minReplicaNodes then []
  else
    let addrs := onlineAddrs nodes
    let plan := currentTable.partitions.entries.flatMap fun e => planItems hash (buildRing hash addrs) addrs e.2
    plan.insertionSort fun a b => b.priority.number ≤ a.priority.number

/-- Items completed one after another, each on the table the one before it has committed. -/
def completeItems (table : RouteTable) (items : List PlannedItem) : Except String RouteTable :=
  runEdits (fun table item => completeMigration table item.partitionID item.targetNode item.isPrimary) table items

/-! ## One partition -/

/-- The items of a partition, in the order they complete, on its pair. -/
def completePair (items : List PlannedItem) (pair : String × String) : String × String :=
  items.foldl (fun pair item => migratedPair item.targetNode item.isPrimary pair) pair

theorem completeItems_pair {items : List PlannedItem} {table : RouteTable}
    (h : ∀ item ∈ items, (table.entry item.partitionID).isSome) : ∃ t, completeItems table items = .ok t ∧
      ∀ p, (t.entry p).map PartitionInfo.pair = (table.entry p).map fun e =>
        completePair (items.filter fun item => item.partitionID = p) e.pair :=
  EditsPair.runEdits (editsPair_completeMigration _ _ _) h

/-- Its primary item comes first. -/
def PrimaryFirst (items : List PlannedItem) : Prop := (items.head?.map fun item => item.isPrimary) = some true

instance (items : List PlannedItem) : Decidable (PrimaryFirst items) :=
  inferInstanceAs (Decidable ((items.head?.map fun item => item.isPrimary) = some true))

theorem perm_pair {α : Type} {a b : α} {l : List α} (h : l.Perm [a, b]) : l = [a, b] ∨ l = [b, a] := by
  obtain ⟨x, y, rfl⟩ := List.length_eq_two.1 h.length_eq
  rcases List.mem_cons.1 (h.subset List.mem_cons_self) with rfl | hx
  · exact .inl (by rw [List.perm_singleton.1 (List.perm_cons x |>.1 h)])
  · obtain rfl := List.mem_singleton.1 hx
    exact .inr (by rw [List.perm_singleton.1 (List.perm_cons x |>.1 (h.trans (List.Perm.swap x a [])))])

/-- **The pair a partition ends with** is the ring's, unless its primary moves, the old one is not to be the
replica, and there is no replica item or it completes first. -/
theorem completePair_eq_iff {hash : String → UInt32} {ring : ConsistentHash} {addrSet : List String}
    {e : PartitionInfo} (hring : (ring.getNodes hash e.id).1 ≠ (ring.getNodes hash e.id).2)
    {items : List PlannedItem} (hperm : items.Perm (planItems hash ring addrSet e)) :
    completePair items e.pair = ring.getNodes hash e.id ↔
      (e.primary ≠ (ring.getNodes hash e.id).1 → e.primary ≠ (ring.getNodes hash e.id).2 →
        e.replica ≠ (ring.getNodes hash e.id).2 ∧ PrimaryFirst items) := by
  unfold planItems at hperm
  rcases hg : ring.getNodes hash e.id with ⟨newPrimary, newReplica⟩
  simp only [hg] at hring hperm ⊢
  have htarget : (if e.replica = newPrimary then e.replica else newPrimary) = newPrimary := by
    split_ifs with h
    · exact h
    · rfl
  rw [htarget] at hperm
  by_cases hp : e.primary = newPrimary
  · by_cases hr : e.replica = newReplica
    · -- nothing to do
      simp only [hp, hr, ne_eq, not_true_eq_false, if_false, false_and, List.append_nil, List.perm_nil] at hperm
      simp [hperm, completePair, PartitionInfo.pair, hp, hr]
    · simp only [hp, hr, hring, ne_eq, not_true_eq_false, if_false, not_false_eq_true, and_self, if_true,
        List.nil_append, List.perm_singleton] at hperm
      simp [hperm, completePair, PartitionInfo.pair, migratedPair, hp]
  · by_cases hpr : e.primary = newReplica
    · -- the old primary is to be the replica
      simp only [hpr, hring.symm, ne_eq, not_false_eq_true, if_true, not_true_eq_false, and_false, if_false,
        List.append_nil, List.perm_singleton] at hperm
      simp [hperm, completePair, PartitionInfo.pair, migratedPair, hpr, hring.symm]
    · by_cases hr : e.replica = newReplica
      · -- the ring keeps the replica, the primary item does not
        simp only [hp, hr, ne_eq, not_false_eq_true, if_true, not_true_eq_false, false_and, if_false, List.append_nil,
          List.perm_singleton] at hperm
        simp [hperm, completePair, PartitionInfo.pair, migratedPair, hp, hpr, hr]
      · simp only [hp, hpr, hr, ne_eq, not_false_eq_true, if_true, and_self, List.singleton_append] at hperm
        rcases perm_pair hperm with h | h
        · simp [h, completePair, PartitionInfo.pair, migratedPair, hp, hpr, hr, PrimaryFirst]
        · simp [h, completePair, PartitionInfo.pair, migratedPair, hp, hpr, hr, PrimaryFirst]

/-! ## The whole plan -/

theorem partitionID_of_mem_planItems {hash : String → UInt32} {ring : ConsistentHash} {addrSet : List String}
    {e : PartitionInfo} {item : PlannedItem} (h : item ∈ planItems hash ring addrSet e) : item.partitionID = e.id := by
  rcases hg : ring.getNodes hash e.id with ⟨newPrimary, newReplica⟩
  simp only [planItems, hg] at h
  rcases List.mem_append.1 h with h | h <;>
  · rw [List.mem_ite_nil_right, List.mem_singleton] at h
    rw [h.2]

/-- In a list with different keys, what comes from one element is what has its key. -/
theorem filter_flatMap_key {α β κ : Type} [DecidableEq κ] {f : β → List α} {key : α → κ} {keyOf : β → κ} :
    ∀ {l : List β}, (l.map keyOf).Nodup → (∀ x ∈ l, ∀ a ∈ f x, key a = keyOf x) →
    ∀ {x : β}, x ∈ l → (l.flatMap f).filter (fun a => key a = keyOf x) = f x
  | y :: l, hnd, hf, x, hmem => by
    rw [List.map_cons, List.nodup_cons] at hnd
    have hy : ∀ a ∈ f y, key a = keyOf y := hf y List.mem_cons_self
    have hl : ∀ z ∈ l, ∀ a ∈ f z, key a = keyOf z := fun z hz => hf z (List.mem_cons_of_mem _ hz)
    rw [List.flatMap_cons, List.filter_append]
    rcases List.mem_cons.1 hmem with rfl | hmem
    · have hself : (f x).filter (fun a => key a = keyOf x) = f x :=
        List.filter_eq_self.2 fun a ha => by simpa using hy a ha
      have hrest : (l.flatMap f).filter (fun a => key a = keyOf x) = [] := by
        rw [List.filter_eq_nil_iff]
        intro a ha
        obtain ⟨z, hz, ha⟩ := List.mem_flatMap.1 ha
        rw [decide_eq_true_eq, hl z hz a ha]
        exact fun hk => hnd.1 (List.mem_map.2 ⟨z, hz, hk⟩)
      rw [hself, hrest, List.append_nil]
    · have hhead : (f y).filter (fun a => key a = keyOf x) = [] := by
        rw [List.filter_eq_nil_iff]
        intro a ha
        rw [decide_eq_true_eq, hy a ha]
        exact fun hk => hnd.1 (List.mem_map.2 ⟨x, hmem, hk.symm⟩)
      rw [hhead, List.nil_append]
      exact filter_flatMap_key hnd.2 hl hmem

section
variable {hash : String → UInt32} {table : RouteTable} {nodes : List NodeInfo}

theorem plan_eq (h : minReplicaNodes ≤ (onlineNodes nodes).length) : calculateMigrationPlan hash table nodes =
    (table.partitions.entries.flatMap fun e => planItems hash (buildRing hash (onlineAddrs nodes)) (onlineAddrs nodes)
      e.2).insertionSort fun a b => b.priority.number ≤ a.priority.number :=
  if_neg (Nat.not_lt.2 h)

theorem plan_perm (h : minReplicaNodes ≤ (onlineNodes nodes).length) :
    (calculateMigrationPlan hash table nodes).Perm (table.partitions.entries.flatMap fun e =>
      planItems hash (buildRing hash (onlineAddrs nodes)) (onlineAddrs nodes) e.2) := by
  rw [plan_eq h]
  exact List.perm_insertionSort _ _

/-- The items of a partition in any order the plan completes in. -/
theorem filter_perm_planItems (h : minReplicaNodes ≤ (onlineNodes nodes).length) {order : List PlannedItem}
    (hperm : order.Perm (calculateMigrationPlan hash table nodes)) {p : UInt32} {e : PartitionInfo}
    (he : table.entry p = some e) : (order.filter fun item => item.partitionID = p).Perm
      (planItems hash (buildRing hash (onlineAddrs nodes)) (onlineAddrs nodes) e) := by
  have hall := (hperm.trans (plan_perm h)).filter fun item => item.partitionID = p
  have hitems : ∀ x ∈ table.partitions.entries, ∀ item ∈ planItems hash (buildRing hash (onlineAddrs nodes))
      (onlineAddrs nodes) x.2, item.partitionID = x.1 := by
    intro x hx item hi
    rw [partitionID_of_mem_planItems hi]
    exact table.ids x.1 x.2 (OrdMap.mem_entries.1 hx)
  have hown := filter_flatMap_key (OrdMap.nodup_keys table.partitions) hitems (OrdMap.mem_entries.2 he)
  exact hall.trans (List.Perm.of_eq hown)

/-- Every partition is on the pair the ring gives it. -/
def OnRing (hash : String → UInt32) (ring : ConsistentHash) (t : RouteTable) : Prop :=
  ∀ p e, t.entry p = some e → e.pair = ring.getNodes hash p

/-- A table on the ring needs no plan. -/
theorem plan_eq_nil (hring : ∀ p, ((buildRing hash (onlineAddrs nodes)).getNodes hash p).1 ≠
      ((buildRing hash (onlineAddrs nodes)).getNodes hash p).2)
    (h : OnRing hash (buildRing hash (onlineAddrs nodes)) table) : calculateMigrationPlan hash table nodes = [] := by
  by_cases h2 : (onlineNodes nodes).length < minReplicaNodes
  · rw [calculateMigrationPlan, if_pos h2]
  · have hnil : (table.partitions.entries.flatMap fun e =>
        planItems hash (buildRing hash (onlineAddrs nodes)) (onlineAddrs nodes) e.2) = [] := by
      rw [List.flatMap_eq_nil_iff]
      rintro ⟨p, e⟩ he
      have he' := OrdMap.mem_entries.1 he
      have hpair := h p e he'
      rw [← table.ids p e he', PartitionInfo.pair] at hpair
      have hne := hring e.id
      unfold planItems
      rw [← hpair] at hne ⊢
      simp
    have hperm := @plan_perm hash table nodes (Nat.le_of_not_lt h2)
    rw [hnil] at hperm
    exact List.perm_nil.1 hperm

/-- Where a primary moves and the old one is not to be the replica, the plan has a replica item too, and the primary
item completes before it. -/
def Orderly (hash : String → UInt32) (ring : ConsistentHash) (table : RouteTable) (order : List PlannedItem) : Prop :=
  ∀ x ∈ table.partitions.entries, x.2.primary ≠ (ring.getNodes hash x.1).1 → x.2.primary ≠ (ring.getNodes hash x.1).2 →
    x.2.replica ≠ (ring.getNodes hash x.1).2 ∧ PrimaryFirst (order.filter fun item => item.partitionID = x.1)

/-- **A rebalance reaches the ring assignment** exactly where the completion order is `Orderly`. -/
theorem rebalance_reaches_ring_iff (h2 : 2 ≤ (onlineNodes nodes).length) (hnd : (onlineAddrs nodes).Nodup)
    (hfree : CollisionFree hash (onlineAddrs nodes)) {order : List PlannedItem}
    (hperm : order.Perm (calculateMigrationPlan hash table nodes)) :
    ∃ t, completeItems table order = .ok t ∧
      (OnRing hash (buildRing hash (onlineAddrs nodes)) t ∧ calculateMigrationPlan hash t nodes = [] ↔
        Orderly hash (buildRing hash (onlineAddrs nodes)) table order) := by
  have hring : ∀ p, ((buildRing hash (onlineAddrs nodes)).getNodes hash p).1 ≠
      ((buildRing hash (onlineAddrs nodes)).getNodes hash p).2 := fun p =>
    (getNodes_of_nodup hfree hnd (by rw [onlineAddrs, List.length_map]; exact h2) p).2.2.symm
  have hsome : ∀ item ∈ order, (table.entry item.partitionID).isSome := by
    intro item hi
    obtain ⟨⟨p, e⟩, he, hi⟩ := List.mem_flatMap.1 ((hperm.trans (plan_perm h2)).subset hi)
    have he' := OrdMap.mem_entries.1 he
    rw [partitionID_of_mem_planItems hi, table.ids p e he', RouteTable.entry, he']
    rfl
  obtain ⟨t, ht, hpair⟩ := completeItems_pair hsome
  -- partition by partition
  have hentry := fun p e (he : table.entry p = some e) =>
    completePair_eq_iff (hring e.id) (filter_perm_planItems h2 hperm he)
  refine ⟨t, ht, fun h x hx => ?_, fun h => ?_⟩
  · have he := OrdMap.mem_entries.1 hx
    have hx' := hpair x.1
    rw [show table.entry x.1 = some x.2 from he] at hx'
    obtain ⟨e', he', hp'⟩ := Option.map_eq_some_iff.1 hx'
    have hiff := hentry x.1 x.2 he
    rw [table.ids x.1 x.2 he] at hiff
    exact hiff.1 (hp'.symm.trans (h.1 x.1 e' he'))
  · have hon : OnRing hash (buildRing hash (onlineAddrs nodes)) t := by
      intro p e' he'
      have hx' := hpair p
      rw [he'] at hx'
      obtain ⟨e, he, hp'⟩ := Option.map_eq_some_iff.1 hx'.symm
      have hiff := hentry p e he
      rw [RouteTable.id_of_entry he] at hiff
      rw [← hp']
      exact hiff.2 (h (p, e) (OrdMap.mem_entries.2 he))
    exact ⟨hon, plan_eq_nil hring hon⟩

end

/-- Partition 28 on the pair. -/
def entryOf28 (primary replica : String) : PartitionInfo :=
  { id := 28, primary := primary, replica := replica, status := .normal, migrationTarget := "", migrationState := .none,
    epoch := 1 }

def tableOf28 (primary replica : String) : RouteTable := RouteTable.new.setEntry (entryOf28 primary replica)

/-- Its items where the ring puts it on `(C, B)`. -/
def itemsOf28 (primary replica : String) : List PlannedItem :=
  (if primary ≠ "C" then [⟨⟨28, primary, if replica = "C" then replica else "C", true⟩,
      if primary ∈ ["B", "C"] then .normal else .high⟩] else []) ++
    if replica ≠ "B" ∧ primary ≠ "B" then [⟨⟨28, replica, "B", false⟩,
      if replica ∈ ["B", "C"] then .low else .normal⟩] else []

theorem flatMap_planItems_of28 {ring : ConsistentHash} (hring : ring.getNodes hashKey 28 = ("C", "B"))
    (primary replica : String) : ((tableOf28 primary replica).partitions.entries.flatMap fun e =>
      planItems hashKey ring ["B", "C"] e.2) = itemsOf28 primary replica := by
  have hentries : (tableOf28 primary replica).partitions.entries = [(28, entryOf28 primary replica)] := rfl
  simp only [hentries, List.flatMap_cons, List.flatMap_nil, List.append_nil, planItems, entryOf28, hring, itemsOf28]

/-- The plan for it once nodes `B` and `C` are the online ones. -/
theorem plan_of28 (primary replica : String) :
    calculateMigrationPlan hashKey (tableOf28 primary replica) [onlineNode "B", onlineNode "C"] =
      (itemsOf28 primary replica).insertionSort fun a b => b.priority.number ≤ a.priority.number := by
  have haddrs : onlineAddrs [onlineNode "B", onlineNode "C"] = ["B", "C"] := rfl
  rw [plan_eq (by decide), haddrs, flatMap_planItems_of28 getNodes_bc]

/-- Both nodes of the partition are gone: the primary item comes first, and the pair is the ring's in the end. -/
theorem rebalance_of28_reaches_ring :
    ∃ t, completeItems (tableOf28 "A" "D") (calculateMigrationPlan hashKey (tableOf28 "A" "D")
        [onlineNode "B", onlineNode "C"]) = .ok t ∧
      OnRing hashKey (buildRing hashKey (onlineAddrs [onlineNode "B", onlineNode "C"])) t ∧
      calculateMigrationPlan hashKey t [onlineNode "B", onlineNode "C"] = [] := by
  obtain ⟨t, ht, hiff⟩ := @rebalance_reaches_ring_iff hashKey (tableOf28 "A" "D") [onlineNode "B", onlineNode "C"]
    (by decide) (by decide) (collisionFree_abc.sublist (by decide)) _ (List.Perm.refl _)
  refine ⟨t, ht, hiff.2 ?_⟩
  rintro ⟨p, e⟩ hx - -
  obtain ⟨rfl, rfl⟩ : p = 28 ∧ e = entryOf28 "A" "D" := Prod.mk.inj (List.mem_singleton.1 hx)
  rw [plan_of28, show onlineAddrs [onlineNode "B", onlineNode "C"] = ["B", "C"] from rfl, getNodes_bc]
  decide

/-- **Bug**: partition 28 is on `(A, B)` and the ring wants `(C, B)`. The plan has the primary item only, and
completing it leaves `(C, A)`: the node that is gone is the replica now, and another plan is needed. -/
theorem plan_leaves_old_primary_as_replica :
    2 ≤ (onlineNodes [onlineNode "B", onlineNode "C"]).length ∧
    CollisionFree hashKey (onlineAddrs [onlineNode "B", onlineNode "C"]) ∧
    ∃ t, completeItems (tableOf28 "A" "B") (calculateMigrationPlan hashKey (tableOf28 "A" "B")
        [onlineNode "B", onlineNode "C"]) = .ok t ∧
      (t.entry 28).map PartitionInfo.pair = some ("C", "A") ∧
      ¬ OnRing hashKey (buildRing hashKey (onlineAddrs [onlineNode "B", onlineNode "C"])) t := by
  refine ⟨by decide, collisionFree_abc.sublist (by decide), ?_⟩
  rw [plan_of28]
  refine ⟨_, rfl, rfl, fun h => ?_⟩
  have hpair := h 28 _ rfl
  rw [show onlineAddrs [onlineNode "B", onlineNode "C"] = ["B", "C"] from rfl, getNodes_bc] at hpair
  exact absurd hpair (by decide)

end RocksKV.Metadata
