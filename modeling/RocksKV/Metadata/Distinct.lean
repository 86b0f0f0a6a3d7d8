import RocksKV.Metadata.Allocation
/-!
# Primary and replica are distinct

Every operation but one makes a valid pair out of valid pairs, from whatever table it starts: the ring names two
different nodes, a promotion swaps them, and a primary that moves leaves the old one as replica.

**Bug**: `CompleteMigration` of a replica (`router.go:539-542`) does not look at the primary. `ShutdownNode` and the
rebalance plan compute its target from a ring, the plan against an older table and the shutdown against none
(`router.go:743-782`), so the target can be the partition's primary: see `shutdown_joins_pair`.
-/

namespace RocksKV.Metadata

open Lib

/-- Two named nodes that differ. -/
def ValidPair (pair : String × String) : Prop := pair.1 ≠ "" ∧ pair.2 ≠ "" ∧ pair.1 ≠ pair.2

/-- Every partition has a primary and a replica, on different nodes. -/
def Distinct (t : RouteTable) : Prop := ∀ p e, t.entry p = some e → ValidPair e.pair

/-! ## Operations -/

section
variable {hash : String → UInt32} {table t : RouteTable}

theorem distinct_of_pairs {f : UInt32 → String × String → String × String}
    (h : ∀ p, (t.entry p).map PartitionInfo.pair = (table.entry p).map fun e => f p e.pair)
    (hf : ∀ p e, table.entry p = some e → ValidPair (f p e.pair)) : Distinct t := by
  intro p e he
  have hp := h p
  rw [he] at hp
  obtain ⟨e', he', hpair⟩ := Option.map_eq_some_iff.1 hp.symm
  rw [← hpair]
  exact hf p e' he'

theorem ValidPair.swap {pair : String × String} (h : ValidPair pair) : ValidPair pair.swap :=
  ⟨h.2.1, h.1, h.2.2.symm⟩

/-- **A completed migration** keeps a pair valid, unless a replica moves onto the primary. -/
theorem ValidPair.migrated {pair : String × String} (h : ValidPair pair) {newNode : String} (hne : newNode ≠ "")
    {isPrimary : Bool} (hrep : isPrimary = false → pair.1 ≠ newNode) :
    ValidPair (migratedPair newNode isPrimary pair) := by
  cases isPrimary with
  | false => exact ⟨h.1, hne, hrep rfl⟩
  | true =>
    by_cases hp : pair.1 = newNode
    · simp only [migratedPair, hp, ne_eq, not_true_eq_false, if_false, if_true]
      exact ⟨hne, h.2.1, hp ▸ h.2.2⟩
    · simp only [migratedPair, ne_eq, hp, not_false_eq_true, if_true]
      exact ⟨hne, h.1, fun he => hp he.symm⟩

theorem distinct_promoteReplica (h : Distinct table) {q : UInt32} (ht : promoteReplica table q = .ok t) : Distinct t := by
  refine distinct_of_pairs (f := fun p pair => if p = q then pair.swap else pair) (pair_promoteReplica ht) ?_
  intro p e he
  split_ifs
  · exact (h p e he).swap
  · exact h p e he

theorem distinct_setPartitionStatus (h : Distinct table) {q : UInt32} {st : PartitionStatus}
    (ht : setPartitionStatus table q st = .ok t) : Distinct t := by
  refine distinct_of_pairs (f := fun _ pair => pair) (fun p => ?_) h
  rw [entry_setPartitionStatus ht p]
  split_ifs
  · rw [Option.map_map]
    rfl
  · rfl

theorem distinct_completeMigration (h : Distinct table) {q : UInt32} {newNode : String} {isPrimary : Bool}
    (hne : newNode ≠ "") (hrep : isPrimary = false → ∀ e ∈ table.entry q, e.primary ≠ newNode)
    (ht : completeMigration table q newNode isPrimary = .ok t) : Distinct t := by
  refine distinct_of_pairs (f := fun p pair => if p = q then migratedPair newNode isPrimary pair else pair)
    (pair_completeMigration ht) ?_
  intro p e he
  split_ifs with hp
  · exact (h p e he).migrated hne fun hb => hrep hb e (hp ▸ he)
  · exact h p e he

theorem distinct_rebalancePartitions {ring : ConsistentHash} (hring : ∀ p, ValidPair (ring.getNodes hash p))
    (table : RouteTable) : Distinct (rebalancePartitions hash ring table) := by
  intro p e he
  rw [entry_rebalancePartitions] at he
  obtain ⟨x, -, rfl⟩ := Option.map_eq_some_iff.1 he
  exact hring x.id

theorem distinct_allocatePartitions {nodes : List NodeInfo}
    (hring : ∀ p, ValidPair ((buildRing hash (nodes.map NodeInfo.addr)).getNodes hash p)) :
    Distinct (allocatePartitions hash nodes) := by
  intro p e he
  rw [entry_allocatePartitions] at he
  split_ifs at he
  obtain rfl := Option.some.inj he
  rw [pair_allocated]
  exact hring p

end

/-! ## The router -/

/-- Every table is valid, and so is what the rings of open rebalances name. -/
structure RouterSys.Apart (hash : String → UInt32) (r : RouterSys) : Prop where
  committed  : Distinct r.committed
  cache      : Distinct r.cache
  watch      : ∀ t ∈ r.watch, Distinct t
  rebalances : ∀ x ∈ r.rebalances, ∀ p, ValidPair (x.1.getNodes hash p)

/-- A replica is not moved onto the primary it has in the cached table. -/
def OffPrimary (r : RouterSys) (partitionID : UInt32) (newNode : String) (isPrimary : Bool) : Prop :=
  isPrimary = false → ∀ e ∈ r.cache.entry partitionID, e.primary ≠ newNode

/-- What the router is asked for keeps pairs valid. -/
def Act.Valid (hash : String → UInt32) (r : RouterSys) : Act → Prop
  | .completeMigration p newNode isPrimary => newNode ≠ "" ∧ OffPrimary r p newNode isPrimary
  | .rebalanceStart nodes => 2 ≤ (onlineNodes nodes).length →
      ∀ p, ValidPair ((buildRing hash (onlineAddrs nodes)).getNodes hash p)
  | _ => True

section
variable {hash : String → UInt32} {r r' : RouterSys}

theorem RouterSys.Apart.commit (h : r.Apart hash) {op : Op} {t : RouteTable} (ht : Distinct t)
    {rs : List (ConsistentHash × RouteTable)} (hrs : ∀ x ∈ rs, x ∈ r.rebalances) :
    RouterSys.Apart hash { r.commit op t with rebalances := rs } := by
  have hc : Distinct (updateRouteTable r.committed t) := ht
  refine ⟨hc, h.cache, fun x hx => ?_, fun x hx => h.rebalances x (hrs x hx)⟩
  rcases List.mem_append.1 hx with hx | hx
  · exact h.watch x hx
  · obtain rfl := List.mem_singleton.1 hx
    exact hc

theorem apart_step (h : r.Apart hash) {a : Act} (ha : a.Valid hash r) (hst : step hash r a = some r') :
    r'.Apart hash := by
  cases a with
  | promoteReplica p =>
    obtain ⟨t, ht, rfl⟩ := edit_eq_some hst
    exact h.commit (distinct_promoteReplica h.cache ht) fun _ hx => hx
  | setPartitionStatus p st =>
    obtain ⟨t, ht, rfl⟩ := edit_eq_some hst
    exact h.commit (distinct_setPartitionStatus h.cache ht) fun _ hx => hx
  | completeMigration p n b =>
    obtain ⟨t, ht, rfl⟩ := edit_eq_some hst
    exact h.commit (distinct_completeMigration h.cache ha.1 ha.2 ht) fun _ hx => hx
  | rebalanceStart nodes =>
    simp only [step] at hst
    split_ifs at hst with h2
    cases hst
    refine ⟨h.committed, h.cache, h.watch, fun x hx => ?_⟩
    rcases List.mem_append.1 hx with hx | hx
    · exact h.rebalances x hx
    · obtain rfl := List.mem_singleton.1 hx
      exact ha (Nat.le_of_not_lt h2)
  | rebalanceCommit i =>
    simp only [step] at hst
    split at hst
    · cases hst
    · rename_i ring snapshot hi
      have hrest : ∀ x ∈ r.rebalances.eraseIdx i, x ∈ r.rebalances := fun x hx => List.mem_of_mem_eraseIdx hx
      have hring := h.rebalances _ (List.mem_of_getElem? hi)
      split_ifs at hst
      · cases hst
        exact h.commit (distinct_rebalancePartitions hring snapshot) hrest
      · cases hst
        exact ⟨h.committed, h.cache, h.watch, fun x hx => h.rebalances x (hrest x hx)⟩
  | deliver =>
    simp only [step] at hst
    split at hst
    · cases hst
    · rename_i t rest hw
      cases hst
      refine ⟨h.committed, h.watch t (by rw [hw]; exact List.mem_cons_self), fun x hx => ?_, h.rebalances⟩
      exact h.watch x (by rw [hw]; exact List.mem_cons_of_mem _ hx)

end

/-! ## The server -/

/-- The registered storage nodes have addresses, different ones, and no two of them collide on the ring. -/
structure ServerSys.GoodAddrs (hash : String → UInt32) (s : ServerSys) : Prop where
  nodup : (s.listNodes.map NodeInfo.addr).Nodup
  named : ∀ n ∈ s.listNodes, n.addr ≠ ""
  free  : CollisionFree hash (s.listNodes.map NodeInfo.addr)

/-- What keeps the two nodes of every partition apart: a ring is built over good addresses, and a replica does not
move onto the primary. -/
def KeepsApart (hash : String → UInt32) (s : ServerSys) : ServerAct → Prop
  | .tryInitializePartitions | .initCluster | .rebalanceStart | .triggerRebalance | .shutdownStart _ _ => s.GoodAddrs hash
  | .completeMigration p newNode isPrimary => newNode ≠ "" ∧ OffPrimary s.router p newNode isPrimary
  | .completeItem item => OffPrimary s.router item.partitionID item.targetNode item.isPrimary
  | .executeTask _ task => OffPrimary s.router task.partitionID task.target task.isPrimary
  | _ => True

structure ApartInv (hash : String → UInt32) (s : ServerSys) : Prop where
  router    : s.router.Apart hash
  inits     : ∀ init ∈ s.inits, (∀ p, ValidPair ((buildRing hash (init.nodes.map NodeInfo.addr)).getNodes hash p)) ∧
    ∀ t ∈ init.stored, Distinct t
  items     : ∀ item ∈ s.items, item.targetNode ≠ ""
  shutdowns : ∀ sd ∈ s.shutdowns, (∀ task, .migrate task ∈ sd.moves → task.target ≠ "") ∧
    ∀ task ∈ sd.tasks, task.target ≠ ""

theorem distinct_new : Distinct .new := fun p e he => absurd he (by simp)

theorem apartInv_start (hash : String → UInt32) : ApartInv hash .start where
  router    := ⟨distinct_new, distinct_new, by simp [ServerSys.start, RouterSys.start],
    by simp [ServerSys.start, RouterSys.start]⟩
  inits     := by simp [ServerSys.start]
  items     := by simp [ServerSys.start]
  shutdowns := by simp [ServerSys.start]

section
variable {hash : String → UInt32} {s s' : ServerSys} {a : ServerAct}

theorem ServerSys.GoodAddrs.validPair (h : s.GoodAddrs hash) {nodes : List NodeInfo} (hsub : nodes.Sublist s.listNodes)
    (h2 : 2 ≤ nodes.length) (p : UInt32) :
    ValidPair ((buildRing hash (nodes.map NodeInfo.addr)).getNodes hash p) := by
  have hfree : CollisionFree hash (nodes.map NodeInfo.addr) := h.free.sublist fun b hb => (hsub.map _).subset hb
  have hnamed : ∀ addr ∈ nodes.map NodeInfo.addr, addr ≠ "" := by
    rintro addr haddr
    obtain ⟨n, hn, rfl⟩ := List.mem_map.1 haddr
    exact h.named n (hsub.subset hn)
  obtain ⟨h1, h2, hne⟩ := getNodes_of_nodup hfree (h.nodup.sublist (hsub.map _)) (by rw [List.length_map]; exact h2) p
  exact ⟨hnamed _ h1, hnamed _ h2, hne.symm⟩

/-- One node is enough for a primary. -/
theorem ServerSys.GoodAddrs.primary_ne (h : s.GoodAddrs hash) {nodes : List NodeInfo} (hsub : nodes.Sublist s.listNodes)
    (h1 : nodes ≠ []) (p : UInt32) : ((buildRing hash (nodes.map NodeInfo.addr)).getNodes hash p).1 ≠ "" := by
  have hfree : CollisionFree hash (nodes.map NodeInfo.addr) := h.free.sublist fun b hb => (hsub.map _).subset hb
  obtain ⟨n, rest, rfl⟩ := List.exists_cons_of_ne_nil h1
  have hmem := ((spans_buildRing hfree).getNodes (List.mem_map_of_mem (List.mem_cons_self : n ∈ n :: rest)) p).1
  obtain ⟨m, hm, hm'⟩ := List.mem_map.1 hmem
  rw [← hm']
  exact h.named m (hsub.subset hm)

theorem target_of_mem_planItems {ring : ConsistentHash} {addrSet : List String} {e : PartitionInfo} {item : PlannedItem}
    (h : item ∈ planItems hash ring addrSet e) :
    item.targetNode = (ring.getNodes hash e.id).1 ∨ item.targetNode = (ring.getNodes hash e.id).2 := by
  rcases hg : ring.getNodes hash e.id with ⟨newPrimary, newReplica⟩
  simp only [planItems, hg] at h
  rcases List.mem_append.1 h with h | h
  · rw [List.mem_ite_nil_right, List.mem_singleton] at h
    refine .inl ?_
    rw [h.2]
    dsimp only
    split_ifs with hrep
    · exact hrep
    · rfl
  · rw [List.mem_ite_nil_right, List.mem_singleton] at h
    exact .inr (by rw [h.2])

theorem ServerSys.GoodAddrs.target_ne (h : s.GoodAddrs hash) {table : RouteTable} {item : PlannedItem}
    (hi : item ∈ calculateMigrationPlan hash table s.listNodes) : item.targetNode ≠ "" := by
  by_cases h2 : (onlineNodes s.listNodes).length < minReplicaNodes
  · rw [calculateMigrationPlan, if_pos h2] at hi
    cases hi
  · obtain ⟨x, -, hi⟩ := List.mem_flatMap.1 ((plan_perm (Nat.le_of_not_lt h2)).subset hi)
    have hvalid := h.validPair (List.filter_sublist.trans List.filter_sublist) (Nat.le_of_not_lt h2) x.2.id
    rcases target_of_mem_planItems hi with ht | ht
    · rw [ht]
      exact hvalid.1
    · rw [ht]
      exact hvalid.2.1

theorem ServerSys.GoodAddrs.move_ne (h : s.GoodAddrs hash) {table : RouteTable} {order : List UInt32} {node : NodeInfo}
    {moves : List Move} (hm : shutdownMoves hash table order s.listNodes node = .ok moves) {task : MigrationTask}
    (ht : .migrate task ∈ moves) : task.target ≠ "" := by
  obtain ⟨e, -, ⟨-, -, -, htarget⟩ | ⟨-, -, hne, -⟩⟩ := mem_shutdownMoves hm ht
  · rw [htarget]
    have hsub : (shutdownTargets s.listNodes node.id).Sublist s.listNodes :=
      List.filter_sublist.trans List.filter_sublist
    refine h.primary_ne hsub (fun hnil => ?_) _
    -- without a target the shutdown is refused
    unfold shutdownMoves at hm
    rw [hnil] at hm
    cases hm
  · exact hne

theorem ApartInv.tryCall (h : ApartInv hash s) {act : Act} (ha : act.Valid hash s.router) :
    ApartInv hash (s.tryCall hash act) := by
  rcases s.tryCall_cases act with ⟨r, hr, heq⟩ | heq
  · rw [heq]
    exact ⟨apart_step h.router ha hr, h.inits, h.items, h.shutdowns⟩
  · rw [heq]
    exact h

theorem ApartInv.call (h : ApartInv hash s) {act : Act} (hst : s.call hash act = some s')
    (ha : act.Valid hash s.router) : ApartInv hash s' := by
  obtain ⟨r, hr, rfl⟩ := s.call_eq_some hst
  exact ⟨apart_step h.router ha hr, h.inits, h.items, h.shutdowns⟩

/-- A new allocation over good addresses. -/
theorem ApartInv.begin (h : ApartInv hash s) (hg : s.GoodAddrs hash) (h2 : 2 ≤ s.listNodes.length) {b : Bool} :
    ∀ init ∈ s.inits ++ [(⟨s.listNodes, b, none⟩ : Init)],
      (∀ p, ValidPair ((buildRing hash (init.nodes.map NodeInfo.addr)).getNodes hash p)) ∧
        ∀ t ∈ init.stored, Distinct t := by
  intro init hi
  rcases List.mem_append.1 hi with hi | hi
  · exact h.inits init hi
  · obtain rfl := List.mem_singleton.1 hi
    exact ⟨hg.validPair (List.Sublist.refl _) h2, fun t ht => by cases ht⟩

theorem ApartInv.storeTable (h : ApartInv hash s) {i : Nat} {init : Init} (hi : s.inits[i]? = some init)
    {table : RouteTable} (htable : Distinct table) : ApartInv hash (s.storeTable i init table) := by
  have hnew : Distinct (updateRouteTable s.router.committed table) := htable
  refine ⟨⟨hnew, h.router.cache, fun t ht => ?_, h.router.rebalances⟩, fun x hx => ?_, h.items, h.shutdowns⟩
  · rcases List.mem_append.1 ht with ht | ht
    · exact h.router.watch t ht
    · obtain rfl := List.mem_singleton.1 ht
      exact hnew
  · rcases List.mem_or_eq_of_mem_set hx with hx | rfl
    · exact h.inits x hx
    · refine ⟨(h.inits init (List.mem_of_getElem? hi)).1, fun t ht => ?_⟩
      cases ht
      exact hnew

/-- One shutdown goes on, with tasks that have targets. -/
theorem ApartInv.setShutdown (h : ApartInv hash s) {i : Nat} {sd : Shutdown}
    (hsd : (∀ task, .migrate task ∈ sd.moves → task.target ≠ "") ∧ ∀ task ∈ sd.tasks, task.target ≠ "") :
    ∀ x ∈ s.shutdowns.set i sd, (∀ task, .migrate task ∈ x.moves → task.target ≠ "") ∧
      ∀ task ∈ x.tasks, task.target ≠ "" := by
  intro x hx
  rcases List.mem_or_eq_of_mem_set hx with hx | rfl
  · exact h.shutdowns x hx
  · exact hsd

theorem apartInv_step (h : ApartInv hash s) (hc : KeepsApart hash s a) (hst : serverStep hash s a = some s') :
    ApartInv hash s' := by
  cases a with
  | registerNode node =>
    cases hst
    exact ⟨h.router, h.inits, h.items, h.shutdowns⟩
  | updateNodeStatus nodeID status =>
    obtain ⟨node, -, rfl⟩ := Option.map_eq_some_iff.1 hst
    exact ⟨h.router, h.inits, h.items, h.shutdowns⟩
  | tryInitializePartitions =>
    simp only [serverStep] at hst
    split_ifs at hst with h0 hno
    · cases hst
      exact ⟨h.router, h.inits, h.items, h.shutdowns⟩
    · cases hst
      exact ⟨h.router, h.begin hc (Nat.le_of_not_lt (not_or.1 hno).2), h.items, h.shutdowns⟩
  | initCluster =>
    simp only [serverStep] at hst
    split_ifs at hst with hno
    cases hst
    exact ⟨h.router, h.begin hc (Nat.le_of_not_lt (not_or.1 (not_or.1 hno).2).1), h.items, h.shutdowns⟩
  | allocate i =>
    simp only [serverStep] at hst
    split at hst
    · rename_i nodes byInitCluster hi
      cases hst
      exact h.storeTable hi (distinct_allocatePartitions (h.inits _ (List.mem_of_getElem? hi)).1)
    · cases hst
  | allocateFailed i rolledBack =>
    simp only [serverStep] at hst
    split at hst
    · cases hst
      exact ⟨h.router, fun x hx => h.inits x (List.mem_of_mem_eraseIdx hx), h.items, h.shutdowns⟩
    · cases hst
  | initDone i stateStored =>
    simp only [serverStep] at hst
    split at hst
    · rename_i nodes byInitCluster table hi
      cases hst
      have htable : Distinct table := (h.inits _ (List.mem_of_getElem? hi)).2 table rfl
      exact ⟨⟨h.router.committed, htable, h.router.watch, h.router.rebalances⟩,
        fun x hx => h.inits x (List.mem_of_mem_eraseIdx hx), h.items, h.shutdowns⟩
    · cases hst
  | promoteReplica p => exact h.call hst trivial
  | setPartitionStatus p status => exact h.call hst trivial
  | completeMigration p newNode isPrimary => exact h.call hst hc
  | rebalanceStart =>
    exact h.call hst fun h2 => hc.validPair (List.filter_sublist.trans List.filter_sublist) h2
  | rebalanceCommit i => exact h.call hst trivial
  | deliver => exact h.call hst trivial
  | watchFull =>
    cases hst
    exact ⟨⟨h.router.committed, h.router.cache, fun t ht => h.router.watch t (List.mem_of_mem_tail ht),
      h.router.rebalances⟩, h.inits, h.items, h.shutdowns⟩
  | triggerRebalance =>
    simp only [serverStep] at hst
    split_ifs at hst
    cases hst
    refine ⟨h.router, h.inits, fun item hi => ?_, h.shutdowns⟩
    rcases List.mem_append.1 hi with hi | hi
    · exact h.items item hi
    · exact ServerSys.GoodAddrs.target_ne hc hi
  | completeItem item =>
    simp only [serverStep] at hst
    split_ifs at hst with hmem
    cases hst
    have hcall := @ApartInv.tryCall hash s h (.completeMigration item.partitionID item.targetNode item.isPrimary)
      ⟨h.items item hmem, hc⟩
    exact ⟨hcall.router, hcall.inits, fun x hx => h.items x (List.mem_of_mem_erase hx), hcall.shutdowns⟩
  | dropItem item =>
    cases hst
    exact ⟨h.router, h.inits, fun x hx => h.items x (List.mem_of_mem_erase hx), h.shutdowns⟩
  | endMigration =>
    cases hst
    exact ⟨h.router, h.inits, h.items, h.shutdowns⟩
  | shutdownStart nodeID order =>
    simp only [serverStep] at hst
    split at hst
    · cases hst
    · rename_i node hnode
      split_ifs at hst
      split at hst
      · cases hst
      · rename_i moves hmoves
        cases hst
        refine ⟨h.router, h.inits, h.items, fun sd hsd => ?_⟩
        rcases List.mem_append.1 hsd with hsd | hsd
        · exact h.shutdowns sd hsd
        · obtain rfl := List.mem_singleton.1 hsd
          exact ⟨fun task ht => ServerSys.GoodAddrs.move_ne hc hmoves ht, fun task ht => absurd ht List.not_mem_nil⟩
  | shutdownMove i =>
    simp only [serverStep] at hst
    split at hst
    · rename_i nodeID p moves tasks hi
      cases hst
      have hsd := h.shutdowns _ (List.mem_of_getElem? hi)
      have hcall := @ApartInv.tryCall hash s h (.promoteReplica p) trivial
      exact ⟨hcall.router, hcall.inits, hcall.items,
        h.setShutdown ⟨fun task ht => hsd.1 task (List.mem_cons_of_mem _ ht), hsd.2⟩⟩
    · rename_i nodeID task moves tasks hi
      cases hst
      have hsd := h.shutdowns _ (List.mem_of_getElem? hi)
      refine ⟨h.router, h.inits, h.items, h.setShutdown ⟨fun x hx => hsd.1 x (List.mem_cons_of_mem _ hx), fun x hx => ?_⟩⟩
      unfold addTask at hx
      split_ifs at hx
      · exact hsd.2 x hx
      · rcases List.mem_append.1 hx with hx | hx
        · exact hsd.2 x hx
        · obtain rfl := List.mem_singleton.1 hx
          exact hsd.1 x List.mem_cons_self
    · cases hst
  | executeTask i task =>
    simp only [serverStep] at hst
    split at hst
    · cases hst
    · rename_i sd hi
      split_ifs at hst with hmem
      cases hst
      have hsd := h.shutdowns sd (List.mem_of_getElem? hi)
      have hcall := @ApartInv.tryCall hash s h (.completeMigration task.partitionID task.target task.isPrimary)
        ⟨hsd.2 task hmem, hc⟩
      exact ⟨hcall.router, hcall.inits, hcall.items,
        h.setShutdown ⟨hsd.1, fun x hx => hsd.2 x (List.mem_of_mem_erase hx)⟩⟩
  | dropTask i task =>
    simp only [serverStep] at hst
    split at hst
    · cases hst
    · rename_i sd hi
      cases hst
      have hsd := h.shutdowns sd (List.mem_of_getElem? hi)
      exact ⟨h.router, h.inits, h.items, h.setShutdown ⟨hsd.1, fun x hx => hsd.2 x (List.mem_of_mem_erase hx)⟩⟩
  | shutdownEnd i =>
    simp only [serverStep] at hst
    split at hst
    · obtain ⟨node, -, rfl⟩ := Option.map_eq_some_iff.1 hst
      exact ⟨h.router, h.inits, h.items, fun sd hsd => h.shutdowns sd (List.mem_of_mem_eraseIdx hsd)⟩
    · cases hst

/-- **Primary and replica are distinct** in every table a run commits, if rings are built over good addresses only
and no replica moves onto the primary. -/
theorem primary_replica_distinct {as : List ServerAct} (hc : Along (serverStep hash) (KeepsApart hash) .start as)
    (hrun : run (serverStep hash) .start as = some s) : Distinct s.router.committed :=
  (run_inv_along (fun _ _ _ hi hc hst => apartInv_step hi hc hst) (apartInv_start hash) hc hrun).router.committed

end

/-- Each ring of the automatic initialization is built over `A`, or over `A` and `B`. -/
theorem keepsApart_registerTwo {hash : String → UInt32} (hfree : CollisionFree hash ["A", "B"]) :
    Along (serverStep hash) (KeepsApart hash) .start
      (registerTwo ++ [ServerAct.allocate 0, .initDone 0 true, .deliver]) := by
  refine ⟨trivial, ?_⟩
  rintro _ ⟨⟩
  refine ⟨⟨by decide, by decide, hfree.sublist (by decide)⟩, ?_⟩
  rintro _ ⟨⟩
  refine ⟨trivial, ?_⟩
  rintro _ ⟨⟩
  refine ⟨⟨by decide, by decide, hfree⟩, ?_⟩
  rintro _ ⟨⟩
  exact ⟨trivial, fun _ _ => ⟨trivial, fun _ _ => ⟨trivial, fun _ _ => trivial⟩⟩⟩

/-- The automatic initialization over `A` and `B`. -/
theorem distinct_after_registerTwo : ∃ s,
    run (serverStep hashKey) .start (registerTwo ++ [.allocate 0, .initDone 0 true, .deliver]) = some s ∧
      s.router.committed.populated = true ∧ Distinct s.router.committed := by
  have hkeeps := keepsApart_registerTwo (collisionFree_abc.sublist (by decide))
  have hpop := populated_allocatePartitions hashKey [onlineNode "A", onlineNode "B"]
  have hrun := run_registerTwo hashKey
  rw [← populated_updateRouteTable .new] at hpop
  generalize updateRouteTable .new (allocatePartitions hashKey [onlineNode "A", onlineNode "B"]) = table at *
  exact ⟨serving table, hrun, hpop, primary_replica_distinct hkeeps hrun⟩

/-! ### A shutdown that joins a pair -/

section
variable {hash : String → UInt32}

/-- A shutdown's promotions, each delivered before the next, leave another partition's pair alone. -/
theorem run_promotes {rest : List Move} : ∀ {ps : List UInt32} {s : ServerSys},
    s.shutdowns = [⟨"A", ps.map Move.promote ++ rest, []⟩] → s.router.watch = [] →
    s.router.cache = s.router.committed → (∀ p ∈ ps, (s.router.cache.entry p).isSome) → 28 ∉ ps →
    ∃ s', run (serverStep hash) s (ps.flatMap fun _ => [.shutdownMove 0, .deliver]) = some s' ∧
      s'.shutdowns = [⟨"A", rest, []⟩] ∧
      (s'.router.cache.entry 28).map PartitionInfo.pair = (s.router.cache.entry 28).map PartitionInfo.pair
  | [], s, hsd, _, _, _, _ => ⟨s, rfl, hsd, rfl⟩
  | p :: ps, s, hsd, hw, hcache, hsome, h28 => by
    obtain ⟨t, ht⟩ : ∃ t, promoteReplica s.router.cache p = .ok t := editPartition_ok (hsome p List.mem_cons_self)
    have hpair := pair_promoteReplica ht
    let new := updateRouteTable s.router.committed t
    let next : ServerSys :=
      { s with
        router := { s.router.commit (.promote p) t with cache := new, watch := [] }
        shutdowns := [⟨"A", ps.map Move.promote ++ rest, []⟩] }
    have hcall : s.tryCall hash (.promoteReplica p) = { s with router := s.router.commit (.promote p) t } := by
      simp only [ServerSys.tryCall, ServerSys.call, step, ht, RouterSys.edit, Option.map_some, Option.getD_some]
    have hmove : serverStep hash s (.shutdownMove 0) =
        some { s with router := s.router.commit (.promote p) t, shutdowns := next.shutdowns } := by
      simp only [serverStep, hsd, List.getElem?_cons_zero, List.map_cons, List.cons_append, hcall, List.set_cons_zero, next]
    have hdeliver : serverStep hash { s with router := s.router.commit (.promote p) t, shutdowns := next.shutdowns }
        .deliver = some next := by
      simp only [serverStep, ServerSys.call, step, RouterSys.commit, hw, List.nil_append, Option.map_some, next, new]
    have hsome' : ∀ q ∈ ps, (next.router.cache.entry q).isSome := by
      intro q hq
      have hq' := congrArg Option.isSome (hpair q)
      rw [Option.isSome_map, Option.isSome_map] at hq'
      exact hq'.trans (hsome q (List.mem_cons_of_mem _ hq))
    obtain ⟨s', hrun, hsd', hpair'⟩ := @run_promotes rest ps next rfl rfl rfl hsome'
      fun h => h28 (List.mem_cons_of_mem _ h)
    refine ⟨s', ?_, hsd', hpair'.trans ?_⟩
    · rw [List.flatMap_cons]
      exact run_append (run_cons.2 ⟨_, hmove, run_cons.2 ⟨_, hdeliver, rfl⟩⟩) hrun
    · refine (hpair 28).trans ?_
      have hne : (28 : UInt32) ≠ p := fun h => h28 (h ▸ List.mem_cons_self)
      simp only [if_neg hne]

/-- `C` registers too; the partitions are allocated already. -/
def servingThree (table : RouteTable) : ServerSys :=
  { serving table with nodes := (serving table).nodes.insert "C" (onlineNode "C") }

theorem run_registerC {table : RouteTable} (hpop : table.populated = true) :
    run (serverStep hash) (serving table) [.registerNode (onlineNode "C"), .tryInitializePartitions] =
      some (servingThree table) := by
  have hcache : ∀ s : ServerSys, s.tries = 1 → s.router.cache = table →
      serverStep hash s .tryInitializePartitions = some { s with tries := 0 } := by
    intro s htries hcache
    simp [serverStep, htries, hcache, hpop]
  exact run_cons.2 ⟨_, rfl, run_cons.2 ⟨_, hcache _ rfl rfl, rfl⟩⟩

/-- The calls of a shutdown of `A` where all partitions are on `A` and `B`: promotions for those with their primary
on `A`, then tasks, and the one for partition 28 names its primary. -/
theorem moves_of28 {ring : ConsistentHash} (hring : ring.getNodes hashKey 28 = ("C", "B")) {table : RouteTable}
    (hall : ∀ p e, table.entry p = some e → e.pair = ("A", "B") ∨ e.pair = ("B", "A")) {e : PartitionInfo}
    (he : table.entry 28 = some e) (hpair : e.pair = ("B", "A")) (order : List UInt32) :
    ∃ (ps : List UInt32) (later : List Move),
      ((table.inOrder (28 :: order)).filter fun x => decide (x.primary = "A")).flatMap (primaryMoves hashKey ring "A") ++
        ((table.inOrder (28 :: order)).filter fun x => decide (x.replica = "A")).flatMap (replicaMoves hashKey ring "A") =
        ps.map Move.promote ++ .migrate ⟨28, "A", "B", .normal, false⟩ :: later ∧
      28 ∉ ps ∧ ∀ p ∈ ps, (table.entry p).isSome := by
  have hentry : ∀ x ∈ table.inOrder (28 :: order), table.entry x.id = some x := fun x hx =>
    RouteTable.entry_of_mem_inOrder hx
  -- a primary on `A` has its replica on `B`
  have hprimary : ∀ x ∈ (table.inOrder (28 :: order)).filter fun x => decide (x.primary = "A"),
      primaryMoves hashKey ring "A" x = [.promote x.id] := by
    intro x hx
    obtain ⟨hin, hx⟩ := List.mem_filter.1 hx
    have hxA : x.primary = "A" := by simpa using hx
    have hxB : x.replica = "B" := by
      rcases hall _ x (hentry x hin) with h | h
      · exact (Prod.mk.inj h).2
      · exact absurd (hxA.symm.trans (Prod.mk.inj h).1) (by decide)
    rcases hg : ring.getNodes hashKey x.id with ⟨newPrimary, newReplica⟩
    simp [primaryMoves, hg, hxB]
  have hinOrder : table.inOrder (28 :: order) = e :: table.inOrder order := by
    rw [RouteTable.inOrder, List.filterMap_cons_some he]
    rfl
  obtain ⟨hP, hR⟩ := Prod.mk.inj hpair
  have hid : e.id = 28 := RouteTable.id_of_entry he
  refine ⟨((table.inOrder (28 :: order)).filter fun x => decide (x.primary = "A")).map PartitionInfo.id,
    ((table.inOrder order).filter fun x => decide (x.replica = "A")).flatMap (replicaMoves hashKey ring "A"), ?_, ?_, ?_⟩
  · rw [List.map_map, List.map_eq_flatMap, List.flatMap_congr hprimary]
    congr 1
    rw [hinOrder, List.filter_cons_of_pos (by simpa using hR), List.flatMap_cons]
    simp [replicaMoves, hid, hring, hP]
  · intro hmem
    obtain ⟨x, hx, hx28⟩ := List.mem_map.1 hmem
    obtain ⟨hin, hx⟩ := List.mem_filter.1 hx
    have hxe := hentry x hin
    rw [hx28, he] at hxe
    obtain rfl := Option.some.inj hxe
    rw [hP] at hx
    exact absurd hx (by decide)
  · intro p hp
    obtain ⟨x, hx, rfl⟩ := List.mem_map.1 hp
    rw [hentry x (List.mem_filter.1 hx).1]
    rfl

/-- The last two steps: the task is added and executed. -/
theorem run_task {s : ServerSys} {later : List Move} {e : PartitionInfo}
    (hsd : s.shutdowns = [⟨"A", .migrate ⟨28, "A", "B", .normal, false⟩ :: later, []⟩])
    (he : s.router.cache.entry 28 = some e) :
    ∃ s', run (serverStep hash) s [.shutdownMove 0, .executeTask 0 ⟨28, "A", "B", .normal, false⟩] = some s' ∧
      (s'.router.committed.entry 28).map PartitionInfo.pair = some (e.primary, "B") := by
  obtain ⟨t, ht⟩ : ∃ t, completeMigration s.router.cache 28 "B" false = .ok t := editPartition_ok (by rw [he]; rfl)
  have hpair := pair_completeMigration ht 28
  rw [he] at hpair
  let added : ServerSys := { s with shutdowns := [⟨"A", later, [⟨28, "A", "B", .normal, false⟩]⟩] }
  have hmove : serverStep hash s (.shutdownMove 0) = some added := by
    simp [serverStep, hsd, addTask, added]
  have hcall : added.tryCall hash (.completeMigration 28 "B" false) =
      { added with router := s.router.commit (.complete 28 "B" false) t } := by
    simp only [ServerSys.tryCall, ServerSys.call, step, added, ht, RouterSys.edit, Option.map_some, Option.getD_some]
  have htask : serverStep hash added (.executeTask 0 ⟨28, "A", "B", .normal, false⟩) =
      some { added with router := s.router.commit (.complete 28 "B" false) t, shutdowns := [⟨"A", later, []⟩] } := by
    have hget : added.shutdowns = [⟨"A", later, [⟨28, "A", "B", .normal, false⟩]⟩] := rfl
    simp [serverStep, hget, hcall]
  exact ⟨_, run_cons.2 ⟨_, hmove, run_cons.2 ⟨_, htask, rfl⟩⟩, hpair⟩

end

/-- A table allocated over `A` and `B` has every partition on both, and partition 28 on `(B, A)`. -/
theorem pairs_allocated_ab :
    (∀ p e, (updateRouteTable .new (allocatePartitions hashKey [onlineNode "A", onlineNode "B"])).entry p = some e →
      e.pair = ("A", "B") ∨ e.pair = ("B", "A")) ∧
    ∃ e, (updateRouteTable .new (allocatePartitions hashKey [onlineNode "A", onlineNode "B"])).entry 28 = some e ∧
      e.pair = ("B", "A") := by
  have haddrs : [onlineNode "A", onlineNode "B"].map NodeInfo.addr = ["A", "B"] := rfl
  have hfree : CollisionFree hashKey ["A", "B"] := collisionFree_abc.sublist (by decide)
  constructor
  · intro p e he
    rw [entry_updateRouteTable, entry_allocatePartitions, haddrs] at he
    split_ifs at he
    obtain rfl := Option.some.inj he
    rw [pair_allocated]
    obtain ⟨h1, h2, hne⟩ := getNodes_of_nodup hfree (by decide) (by decide) p
    rcases hg : (buildRing hashKey ["A", "B"]).getNodes hashKey p with ⟨x, y⟩
    simp only [hg, List.mem_cons, List.not_mem_nil, or_false] at h1 h2 hne
    rcases h1 with rfl | rfl <;> rcases h2 with rfl | rfl
    · exact absurd rfl hne
    · exact .inl rfl
    · exact .inr rfl
    · exact absurd rfl hne
  · refine ⟨_, ?_, (pair_allocated hashKey (buildRing hashKey ["A", "B"]) 28).trans getNodes_ab⟩
    rw [entry_updateRouteTable, entry_allocatePartitions, if_pos (by decide), haddrs]

/-- `C` registers, and the shutdown of `A` makes its promotions, each delivered before the next. -/
def shutdownOfA (order ps : List UInt32) : List ServerAct :=
  [.registerNode (onlineNode "C"), .tryInitializePartitions] ++ [.shutdownStart "A" order] ++
    ps.flatMap fun _ => [.shutdownMove 0, .deliver]

/-- **Bug**: `A` and `B` register, which allocates the partitions, `C` registers, and `A` is shut down with every
commit delivered before the next call. Partition 28 was on `(B, A)`; the ring of `B` and `C` has `B` as its replica,
so its replica moves to `B`, which is its primary. -/
theorem shutdown_joins_pair : CollisionFree hashKey ["A", "B", "C"] ∧
    ∃ (order ps : List UInt32) (s : ServerSys),
      run (serverStep hashKey) .start (registerTwo ++ [.allocate 0, .initDone 0 true, .deliver] ++
        shutdownOfA order ps ++ [.shutdownMove 0, .executeTask 0 ⟨28, "A", "B", .normal, false⟩]) = some s ∧
      (s.router.committed.entry 28).map PartitionInfo.pair = some ("B", "B") ∧ ¬ Distinct s.router.committed := by
  obtain ⟨hall, e, he, hpair⟩ := pairs_allocated_ab
  have hrun := run_registerTwo hashKey
  have hpop := populated_allocatePartitions hashKey [onlineNode "A", onlineNode "B"]
  rw [← populated_updateRouteTable .new] at hpop
  generalize updateRouteTable .new (allocatePartitions hashKey [onlineNode "A", onlineNode "B"]) = table at *
  let order := 28 :: table.partitions.keys.erase 28
  obtain ⟨ps, later, hmoves, h28, hsome⟩ := moves_of28 getNodes_bc hall he hpair (table.partitions.keys.erase 28)
  have hperm : order.Perm table.partitions.keys := by
    refine (List.perm_cons_erase ?_).symm
    rw [OrdMap.mem_keys, OrdMap.contains, show table.partitions.get 28 = some e from he]
    rfl
  let draining : ServerSys :=
    { (servingThree table).setNodeStatus (onlineNode "A") .draining with
      shutdowns := [⟨"A", ps.map Move.promote ++ .migrate ⟨28, "A", "B", .normal, false⟩ :: later, []⟩] }
  have hstart : serverStep hashKey (servingThree table) (.shutdownStart "A" order) = some draining := by
    have hnode : (servingThree table).nodes.get "A" = some (onlineNode "A") := rfl
    have hlist : (servingThree table).listNodes = [onlineNode "A", onlineNode "B", onlineNode "C"] := rfl
    have hcache : (servingThree table).router.cache = table := rfl
    simp only [serverStep, hnode, hlist, hcache, if_pos hperm, shutdownMoves_three, order, hmoves]
    rfl
  obtain ⟨s, hs, hsd, hs28⟩ := @run_promotes hashKey _ ps draining rfl rfl rfl hsome h28
  obtain ⟨e', he', hpair'⟩ := Option.map_eq_some_iff.1 (hs28.trans (congrArg _ he))
  obtain ⟨s', hs', hjoined⟩ := @run_task hashKey s later e' hsd he'
  have hB : e'.primary = "B" := (Prod.mk.inj (hpair'.trans hpair)).1
  rw [hB] at hjoined
  refine ⟨collisionFree_abc, order, ps, s', ?_, hjoined, fun h => ?_⟩
  · have hbegin : run (serverStep hashKey) (servingThree table) [.shutdownStart "A" order] = some draining :=
      run_cons.2 ⟨_, hstart, rfl⟩
    have hshutdown := run_append (run_append (run_registerC hpop) hbegin) hs
    exact run_append (run_append hrun hshutdown) hs'
  · obtain ⟨x, hx, hxpair⟩ := Option.map_eq_some_iff.1 hjoined
    have hvalid := h 28 x hx
    rw [hxpair] at hvalid
    exact hvalid.2.2 rfl

end RocksKV.Metadata
