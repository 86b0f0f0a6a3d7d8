import RocksKV.Metadata.Server
/-!
# The partitions are allocated once

`RegisterNode` looks at the cached table before it allocates, `InitCluster` at the cluster state. Under a
populated table the first guard holds: a table is cached before it can be forgotten (`AllocInv`).

**Bug**: the allocation of `RegisterNode` leaves the state `PENDING`, so the first `InitCluster` after it
allocates again, and resets the epochs and the pairs of a serving cluster. Two initializations that overlap
do the same: neither guard is held until the commit.
-/

namespace RocksKV.Metadata

open Lib

/-! ## Populated tables -/

/-- A table is populated only after the one in etcd, and those on their way from there are. -/
structure RouterSys.Follows (r : RouterSys) : Prop where
  cache     : r.cache.populated = true → r.committed.populated = true
  watch     : ∀ t ∈ r.watch, t.populated = true ∧ r.committed.populated = true
  snapshots : ∀ x ∈ r.rebalances, x.2.populated = true → r.committed.populated = true

section
variable {hash : String → UInt32} {r r' : RouterSys}

theorem populated_of_editPartition {copy change hcopy} {table t : RouteTable} {q : UInt32}
    (h : editPartition copy change hcopy table q = .ok t) : table.populated = true ∧ t.populated = true := by
  unfold editPartition at h
  split at h
  · cases h
  · rename_i e he
    cases h
    constructor
    · exact RouteTable.populated_iff.2 ⟨q, by rw [he]; rfl⟩
    · exact RouteTable.populated_iff.2 ⟨_, by rw [RouteTable.entry_setEntry, if_pos rfl]; rfl⟩

theorem populated_of_totalChanges {ring : ConsistentHash} {table : RouteTable}
    (h : 0 < totalChanges hash ring table) : table.populated = true := by
  unfold RouteTable.populated
  cases he : table.partitions.entries with
  | nil => simp [totalChanges, he] at h
  | cons x rest => rfl

theorem populated_rebalancePartitions {ring : ConsistentHash} {table : RouteTable} (h : table.populated = true) :
    (rebalancePartitions hash ring table).populated = true := by
  obtain ⟨p, hp⟩ := RouteTable.populated_iff.1 h
  refine RouteTable.populated_iff.2 ⟨p, ?_⟩
  rw [entry_rebalancePartitions, Option.isSome_map]
  exact hp

theorem populated_allocatePartitions (hash : String → UInt32) (nodes : List NodeInfo) :
    (allocatePartitions hash nodes).populated = true := by
  refine RouteTable.populated_iff.2 ⟨0, ?_⟩
  rw [entry_allocatePartitions, if_pos (by decide)]
  rfl

theorem RouterSys.Follows.commit (h : r.Follows) {op : Op} {t : RouteTable} (ht : t.populated = true)
    {rs : List (ConsistentHash × RouteTable)} :
    RouterSys.Follows { r.commit op t with rebalances := rs } := by
  have hc : (updateRouteTable r.committed t).populated = true := ht
  refine ⟨fun _ => hc, fun x hx => ?_, fun _ _ _ => hc⟩
  rcases List.mem_append.1 hx with hx | hx
  · exact ⟨(h.watch x hx).1, hc⟩
  · obtain rfl := List.mem_singleton.1 hx
    exact ⟨hc, hc⟩

theorem RouterSys.Follows.edit (h : r.Follows) {op : Op} {copy change hcopy} {q : UInt32}
    (hst : r.edit op (editPartition copy change hcopy r.cache q) = some r') :
    r'.Follows ∧ r'.committed.populated = r.committed.populated ∧ r'.cache = r.cache := by
  obtain ⟨t, ht, rfl⟩ := edit_eq_some hst
  obtain ⟨hcache, hpop⟩ := populated_of_editPartition ht
  refine ⟨h.commit hpop, ?_, rfl⟩
  rw [h.cache hcache]
  exact hpop

/-- **A router step** neither populates etcd's table nor empties it, and does not empty the cache. -/
theorem follows_step (h : r.Follows) {a : Act} (hst : step hash r a = some r') :
    r'.Follows ∧ r'.committed.populated = r.committed.populated ∧
      (r.cache.populated = true → r'.cache.populated = true) := by
  cases a with
  | promoteReplica p =>
    obtain ⟨hf, hc, hcache⟩ := h.edit hst
    exact ⟨hf, hc, fun hp => by rw [hcache]; exact hp⟩
  | setPartitionStatus p st =>
    obtain ⟨hf, hc, hcache⟩ := h.edit hst
    exact ⟨hf, hc, fun hp => by rw [hcache]; exact hp⟩
  | completeMigration p n b =>
    obtain ⟨hf, hc, hcache⟩ := h.edit hst
    exact ⟨hf, hc, fun hp => by rw [hcache]; exact hp⟩
  | rebalanceStart nodes =>
    simp only [step] at hst
    split_ifs at hst
    cases hst
    refine ⟨⟨h.cache, h.watch, fun x hx hp => ?_⟩, rfl, id⟩
    rcases List.mem_append.1 hx with hx | hx
    · exact h.snapshots x hx hp
    · obtain rfl := List.mem_singleton.1 hx
      exact h.cache hp
  | rebalanceCommit i =>
    simp only [step] at hst
    split at hst
    · cases hst
    · rename_i ring snapshot hi
      split_ifs at hst with hchanges
      · cases hst
        have hsnap := populated_of_totalChanges hchanges
        have hpop : (rebalancePartitions hash ring snapshot).populated = true := populated_rebalancePartitions hsnap
        refine ⟨h.commit hpop, ?_, id⟩
        rw [h.snapshots _ (List.mem_of_getElem? hi) hsnap]
        exact hpop
      · cases hst
        exact ⟨⟨h.cache, h.watch, fun x hx => h.snapshots x (List.mem_of_mem_eraseIdx hx)⟩, rfl, id⟩
  | deliver =>
    simp only [step] at hst
    split at hst
    · cases hst
    · rename_i t rest hw
      cases hst
      have ht := h.watch t (by rw [hw]; exact List.mem_cons_self)
      refine ⟨⟨fun _ => ht.2, fun x hx => h.watch x (by rw [hw]; exact List.mem_cons_of_mem _ hx), h.snapshots⟩,
        rfl, fun _ => ht.1⟩

end

/-! ## Allocations -/

/-- No allocation is committed over a populated table. -/
def AllocatesOnce (hash : String → UInt32) (s : ServerSys) (a : ServerAct) : Prop :=
  ∀ i, a = .allocate i → ∀ s', serverStep hash s a = some s' → s.router.committed.populated = false

/-- Initializations do not overlap, and `InitCluster` finds no table or a state that is not `PENDING`. -/
def Serial (s : ServerSys) : ServerAct → Prop
  | .tryInitializePartitions => s.inits = []
  | .initCluster => s.inits = [] ∧ (s.router.committed.populated = false ∨ s.state ≠ .pending)
  | _ => True

instance (s : ServerSys) : ∀ a : ServerAct, Decidable (Serial s a)
  | .tryInitializePartitions => decidable_of_iff (s.inits.isEmpty = true) List.isEmpty_iff
  | .initCluster => decidable_of_iff (s.inits.isEmpty = true ∧ (s.router.committed.populated = false ∨ s.state ≠ .pending))
      (and_congr_left' List.isEmpty_iff)
  | .registerNode _ | .updateNodeStatus _ _ | .allocate _ | .allocateFailed _ _ | .initDone _ _ | .promoteReplica _
  | .setPartitionStatus _ _ | .completeMigration _ _ _ | .rebalanceStart | .rebalanceCommit _ | .deliver | .watchFull
  | .triggerRebalance | .completeItem _ | .dropItem _ | .endMigration | .shutdownStart _ _ | .shutdownMove _
  | .executeTask _ _ | .dropTask _ _ | .shutdownEnd _ => inferInstanceAs (Decidable True)

structure AllocInv (s : ServerSys) : Prop where
  router   : s.router.Follows
  /-- A populated table is cached, unless the allocation that stored it is about to cache it. -/
  cached   : s.router.committed.populated = true → s.router.cache.populated = true ∨ s.inits ≠ []
  single   : s.inits.length ≤ 1
  unstored : ∀ init ∈ s.inits, init.stored = none → s.router.committed.populated = false
  stored   : ∀ init ∈ s.inits, ∀ t ∈ init.stored, t.populated = true ∧ s.router.committed.populated = true

theorem allocInv_start : AllocInv .start where
  router   := ⟨id, by simp [ServerSys.start, RouterSys.start], by simp [ServerSys.start, RouterSys.start]⟩
  cached   := fun h => absurd h (by decide)
  single   := Nat.zero_le _
  unstored := by simp [ServerSys.start]
  stored   := by simp [ServerSys.start]

section
variable {hash : String → UInt32} {s s' : ServerSys} {a : ServerAct}

theorem AllocInv.begin (h : AllocInv s) (hc : Serial s a) {init : Init} (hnone : init.stored = none)
    (hr : s'.router = s.router) (hi : s'.inits = s.inits ++ [init])
    (ha : a = .tryInitializePartitions ∧ s.router.cache.populated = false ∨ a = .initCluster ∧ s.state = .pending) :
    AllocInv s' := by
  -- nothing is under way, so an empty cache means an empty table
  have hempty : s.inits = [] ∧ s.router.committed.populated = false := by
    rcases ha with ⟨rfl, hcache⟩ | ⟨rfl, hstate⟩
    · refine ⟨hc, Bool.eq_false_iff.2 fun hpop => ?_⟩
      rcases h.cached hpop with hp | hp
      · rw [hp] at hcache
        cases hcache
      · exact hp hc
    · exact ⟨hc.1, hc.2.resolve_right fun hne => hne hstate⟩
  rw [hempty.1, List.nil_append] at hi
  refine ⟨by rw [hr]; exact h.router, fun _ => .inr (by rw [hi]; exact List.cons_ne_nil _ _), by rw [hi]; exact le_rfl,
    fun x _ _ => by rw [hr]; exact hempty.2, fun x hx t ht => ?_⟩
  rw [hi] at hx
  obtain rfl := List.mem_singleton.1 hx
  rw [hnone] at ht
  cases ht

theorem AllocInv.storeTable (h : AllocInv s) {i : Nat} {init : Init} (hi : s.inits[i]? = some init) {table : RouteTable}
    (htable : table.populated = true) : AllocInv (s.storeTable i init table) := by
  have hpop : (updateRouteTable s.router.committed table).populated = true := htable
  have hlt := (List.getElem?_eq_some_iff.1 hi).1
  have hsingle := h.single
  obtain rfl : i = 0 := by omega
  obtain ⟨x, hx⟩ : ∃ x, s.inits = [x] := List.length_eq_one_iff.1 (by omega)
  have hinits : (s.storeTable 0 init table).inits =
      [{ init with stored := some (updateRouteTable s.router.committed table) }] := by
    simp [ServerSys.storeTable, hx]
  refine ⟨⟨fun _ => hpop, fun t ht => ?_, fun _ _ _ => hpop⟩, fun _ => .inr ?_, ?_, fun y hy hnone => ?_, fun y hy t ht => ?_⟩
  · rcases List.mem_append.1 ht with ht | ht
    · exact ⟨(h.router.watch t ht).1, hpop⟩
    · obtain rfl := List.mem_singleton.1 ht
      exact ⟨hpop, hpop⟩
  · rw [hinits]
    exact List.cons_ne_nil _ _
  · rw [hinits]
    exact le_rfl
  · rw [hinits] at hy
    obtain rfl := List.mem_singleton.1 hy
    cases hnone
  · rw [hinits] at hy
    obtain rfl := List.mem_singleton.1 hy
    cases ht
    exact ⟨hpop, hpop⟩

/-- An allocation that ends leaves none behind. -/
theorem AllocInv.eraseIdx_eq_nil (h : AllocInv s) {i : Nat} {init : Init} (hi : s.inits[i]? = some init) :
    s.inits.eraseIdx i = [] := by
  have hlt := (List.getElem?_eq_some_iff.1 hi).1
  have hsingle := h.single
  apply List.eq_nil_of_length_eq_zero
  rw [List.length_eraseIdx_of_lt hlt]
  omega

theorem allocInv_step (h : AllocInv s) (hc : Serial s a) (hst : serverStep hash s a = some s') : AllocInv s' := by
  cases serverStep_cases hst with
  | call act hr hi =>
    obtain ⟨hf, hcom, hcache⟩ := follows_step h.router hr
    refine ⟨hf, fun hp => ?_, by rw [hi]; exact h.single, fun x hx hx' => ?_, fun x hx t ht => ?_⟩
    · rw [hi]
      exact (h.cached (hcom ▸ hp)).imp_left hcache
    · rw [hcom]
      exact h.unstored x (hi ▸ hx) hx'
    · rw [hcom]
      exact h.stored x (hi ▸ hx) t ht
  | elsewhere hr hi =>
    exact ⟨by rw [hr]; exact h.router, by rw [hr, hi]; exact h.cached, by rw [hi]; exact h.single,
      by rw [hr, hi]; exact h.unstored, by rw [hr, hi]; exact h.stored⟩
  | started init hnone hr hi hguard => exact h.begin hc hnone hr hi hguard
  | stored i init hi heq =>
    subst heq
    exact h.storeTable hi (populated_allocatePartitions hash init.nodes)
  | failed i init hi hnone hr hinits =>
    have hempty := h.unstored init (List.mem_of_getElem? hi) hnone
    rw [h.eraseIdx_eq_nil hi] at hinits
    refine ⟨by rw [hr]; exact h.router, fun hp => ?_, by simp [hinits], by simp [hinits], by simp [hinits]⟩
    rw [hr, hempty] at hp
    cases hp
  | done i init table hi hsome hr hinits =>
    obtain ⟨htable, hcom⟩ := h.stored init (List.mem_of_getElem? hi) table hsome
    rw [h.eraseIdx_eq_nil hi] at hinits
    refine ⟨?_, fun _ => .inl ?_, by simp [hinits], by simp [hinits], by simp [hinits]⟩
    · rw [hr]
      exact ⟨fun _ => hcom, h.router.watch, h.router.snapshots⟩
    · rw [hr]
      exact htable
  | dropped hr hi =>
    refine ⟨?_, ?_, by rw [hi]; exact h.single, ?_, ?_⟩
    · rw [hr]
      exact ⟨h.router.cache, fun t ht => h.router.watch t (List.mem_of_mem_tail ht), h.router.snapshots⟩
    · rw [hr, hi]
      exact h.cached
    · rw [hr, hi]
      exact h.unstored
    · rw [hr, hi]
      exact h.stored

theorem AllocInv.allocatesOnce (h : AllocInv s) : AllocatesOnce hash s a := by
  rintro i rfl s' hst
  simp only [serverStep] at hst
  split at hst
  · rename_i nodes byInitCluster hi
    exact h.unstored _ (List.mem_of_getElem? hi) rfl
  · cases hst

/-- **The partitions are allocated once** in every run whose initializations do not overlap and in which
`InitCluster` is not requested under a populated table while the state is still `PENDING`. -/
theorem allocates_once {as : List ServerAct} (hc : Along (serverStep hash) Serial .start as) :
    Along (serverStep hash) (AllocatesOnce hash) .start as :=
  along_of_inv (fun _ _ _ hi hc hst => allocInv_step hi hc hst) (fun _ _ hi _ => hi.allocatesOnce) allocInv_start hc

end

/-- Two storage nodes register; the second one starts an initialization. -/
def registerTwo : List ServerAct :=
  [.registerNode (onlineNode "A"), .tryInitializePartitions, .registerNode (onlineNode "B"), .tryInitializePartitions]

/-- The store refuses the first allocation, `InitCluster` makes another. -/
theorem allocates_once_after_failure : Along (serverStep hashKey) (AllocatesOnce hashKey) .start
    (registerTwo ++ [.allocateFailed 0 false, .initCluster, .allocate 0, .initDone 0 true]) :=
  allocates_once (by decide)

/-- Nodes `A` and `B` are registered and the table is cached. -/
def serving (table : RouteTable) : ServerSys :=
  { ServerSys.start with
    router := .start table
    nodes := (OrdMap.empty.insert "A" (onlineNode "A")).insert "B" (onlineNode "B") }

/-- The state after the automatic initialization is `PENDING`. -/
theorem run_registerTwo (hash : String → UInt32) :
    run (serverStep hash) .start (registerTwo ++ [ServerAct.allocate 0, .initDone 0 true, .deliver]) =
      some (serving (updateRouteTable .new (allocatePartitions hash [onlineNode "A", onlineNode "B"]))) := rfl

/-- A promotion, and `InitCluster` up to its allocation. -/
theorem run_initCluster {hash : String → UInt32} {table : RouteTable} {e : PartitionInfo} (he : table.entry 28 = some e) :
    ∃ s, run (serverStep hash) (serving table) [.promoteReplica 28, .deliver, .initCluster] = some s ∧
      s.inits = [⟨[onlineNode "A", onlineNode "B"], true, none⟩] ∧
      s.router.committed.entry 28 = some (promoted e (copyRouting e)) := by
  obtain ⟨t, ht⟩ : ∃ t, promoteReplica table 28 = .ok t := editPartition_ok (by rw [he]; rfl)
  have hentry := entry_promoteReplica ht 28
  rw [if_pos rfl, he] at hentry
  have hpromote : serverStep hash (serving table) (.promoteReplica 28) =
      some { serving table with router := (RouterSys.start table).commit (.promote 28) t } := by
    have hstep : step hash (RouterSys.start table) (.promoteReplica 28) =
        some ((RouterSys.start table).commit (.promote 28) t) := by
      simp only [step, RouterSys.start, ht, RouterSys.edit]
    simp only [serverStep, ServerSys.call, serving, hstep, Option.map_some]
  exact ⟨_, run_cons.2 ⟨_, hpromote, rfl⟩, rfl, hentry⟩

/-- **Bug**: two nodes register, which allocates the partitions, partition 28 fails over, and `InitCluster` allocates
again: the epoch goes back from 2 to 1, and the pair to where it was. -/
theorem init_cluster_allocates_again : ∃ s s' : ServerSys,
    run (serverStep hashKey) .start (registerTwo ++ [.allocate 0, .initDone 0 true, .deliver] ++
      [.promoteReplica 28, .deliver, .initCluster]) = some s ∧
    serverStep hashKey s (.allocate 0) = some s' ∧
    (s.router.committed.entry 28).map (·.epoch) = some 2 ∧ (s'.router.committed.entry 28).map (·.epoch) = some 1 ∧
    ¬ AllocatesOnce hashKey s (.allocate 0) := by
  obtain ⟨e, he, hepoch⟩ : ∃ e, (allocatePartitions hashKey [onlineNode "A", onlineNode "B"]).entry 28 = some e ∧
      e.epoch = 1 := by
    refine ⟨_, ?_, epoch_allocated hashKey (buildRing hashKey ["A", "B"]) 28⟩
    rw [entry_allocatePartitions, if_pos (by decide)]
    rfl
  obtain ⟨s, hrun, hinits, hs⟩ := @run_initCluster hashKey _ e ((entry_updateRouteTable .new _ 28).trans he)
  have hstep : serverStep hashKey s (.allocate 0) = some (s.storeTable 0 ⟨[onlineNode "A", onlineNode "B"], true, none⟩
      (allocatePartitions hashKey [onlineNode "A", onlineNode "B"])) := by
    simp only [serverStep, hinits, List.getElem?_cons_zero]
  refine ⟨s, _, run_append (run_registerTwo hashKey) hrun, hstep, ?_, ?_, fun h => ?_⟩
  · rw [hs, Option.map_some, promoted, hepoch]
    rfl
  · rw [ServerSys.committed_storeTable, entry_updateRouteTable, he, Option.map_some, hepoch]
  · have hpop : s.router.committed.populated = true := RouteTable.populated_iff.2 ⟨28, by rw [hs]; rfl⟩
    rw [h 0 rfl _ hstep] at hpop
    cases hpop

end RocksKV.Metadata
