import RocksKV.Cluster.Delivery
import RocksKV.Cluster.Fencing
/-!
# Who acknowledges writes, and when

`Cluster.Fencing` says that no two nodes do; this file says that one does. The wire carries no epoch and a node takes
its role with the first table that places the partition on it, so:

- a partition whose primary stays is served: from the first table a storage node and a compute node have been pushed,
  not necessarily the same one, every write that reaches the node is acknowledged, whatever is committed and delivered
  meanwhile (`writes_acknowledged`);
- a partition whose primary changes is not served any more: no other node than the first primary ever acknowledges
  (`promoted_never_acknowledges`). After a failover the writes go to the promoted replica and are refused until it is
  restarted.
-/

namespace RocksKV.Cluster

open Lib Metadata Storage

/-! ## Leases -/

section
variable {s : Server}

theorem canWrite_initializeReplicator {o : UInt32 → Bool} (p : UInt32) (b : Bool) (a : String) :
    (s.initializeReplicator o p b a).canWrite = s.canWrite := by
  unfold Server.initializeReplicator
  cases s.replicators.get p <;> cases o p <;> rfl

theorem canWrite_updateFromEntry {o : UInt32 → Bool} (addr : String) (e : Pb.PartitionInfo) :
    (s.updateFromEntry o addr e).canWrite = s.canWrite := by
  unfold Server.updateFromEntry
  dsimp only
  split_ifs
  · split
    · rfl
    · exact canWrite_initializeReplicator _ _ _
  · split
    · rfl
    · exact canWrite_initializeReplicator _ _ _
  · split <;> rfl
  · rfl

theorem canWrite_dropUnlisted (ids : List UInt32) (p : UInt32) : (s.dropUnlisted ids p).canWrite = s.canWrite := by
  unfold Server.dropUnlisted
  split_ifs
  · rfl
  · dsimp only
    split <;> rfl

/-- A route update does not touch the lease. -/
theorem canWrite_updatePartitionsFromRoute {o : UInt32 → Bool} (partitions : List Pb.PartitionInfo) (addr : String) :
    (s.updatePartitionsFromRoute o partitions addr).canWrite = s.canWrite := by
  unfold Server.updatePartitionsFromRoute
  have hentries : (partitions.foldl (Server.updateFromEntry o addr) s).canWrite = s.canWrite :=
    List.foldlRecOn (motive := fun t : Server => t.canWrite = s.canWrite) partitions _ rfl fun t ht e _ =>
      (canWrite_updateFromEntry addr e).trans ht
  refine List.foldlRecOn (motive := fun t : Server => t.canWrite = s.canWrite) _ _ hentries fun t ht p _ => ?_
  exact (canWrite_dropUnlisted _ p).trans ht

/-- Neither does a write. -/
theorem canWrite_handleWrite {s' : Server} {req : WriteRequest} (h : s.handleWrite req = .ok s') :
    s'.canWrite = s.canWrite := by
  obtain ⟨-, -, heq⟩ := Server.handleWrite_ok h
  rw [heq]
  exact List.foldlRecOn (motive := fun t : Server => t.canWrite = s.canWrite) _ _ rfl fun t ht c _ =>
    (t.append_canWrite _ c).trans ht

/-! ## A node that serves a partition -/

/-- The role and the epoch every request carries, in a state in which all writes are allowed. -/
structure Serves (q : Partition) : Prop where
  prime  : q.isPrime = true
  epoch  : q.epoch = 0
  status : q.status = .normal

/-- **A serving node acknowledges** every write of the partition. -/
theorem handleWrite_of_serves {q : Partition} {req : WriteRequest} (hlease : s.canWrite = true)
    (hq : s.pm.partitions.get req.partitionId = some q) (hserves : Serves q) (hepoch : req.epoch = 0) :
    ∃ s', s.handleWrite req = .ok s' := by
  have hcheck : s.checkWrite req.partitionId req.epoch = .ok () := by
    simp [Server.checkWrite, hlease, PartitionManager.hasPartition, OrdMap.contains, PartitionManager.isPrimary,
      PartitionManager.validateEpoch, hq, hserves.prime, hserves.epoch, hepoch]
  have hwrite : ∃ pm, s.writeDB req.partitionId req.op = .ok pm := by
    cases req.op <;>
      simp [Server.writeDB, PartitionManager.put, PartitionManager.delete, PartitionManager.batchPut,
        PartitionManager.writeIf, hq, hserves.status]
  obtain ⟨pm, hpm⟩ := hwrite
  refine ⟨{ s with pm := pm }.enqueue req.partitionId req.op, ?_⟩
  rw [Server.handleWrite, hcheck]
  simp only [hpm]

/-- A pushed table makes the partition's primary serve it, unless it is hosted in another role. -/
theorem serves_delivered {table : RouteTable} {addr : String} {p : UInt32} {e : PartitionInfo} (o : UInt32 → Bool)
    (he : table.entry p = some e) (hprimary : e.primary = addr)
    (hserves : ∀ q, s.pm.partitions.get p = some q → Serves q) :
    ∃ q, (s.updatePartitionsFromRoute o (sendRouteUpdate table).partitions addr).pm.partitions.get p = some q ∧
      Serves q := by
  obtain ⟨hview, -⟩ := view_updatePartitionsFromRoute o (nodup_sendRouteUpdate table) s addr
  have hon : PlacedOn (wireEntry e) addr := .inl hprimary
  have hid : (wireEntry e).partitionId = p := RouteTable.id_of_entry he
  have hv := congrArg Prod.fst (hview (wireEntry e) (mem_sendRouteUpdate.2 ⟨p, e, he, rfl⟩) hon)
  rw [hid, entryView, if_pos hon] at hv
  cases hget : s.pm.partitions.get p with
  | none =>
    simp only [Server.view, hget] at hv
    exact ⟨_, hv, decide_eq_true hprimary, rfl, rfl⟩
  | some q =>
    simp only [Server.view, hget] at hv
    have hq := hserves q hget
    refine ⟨_, hv, hq.prime, ?_, hq.status⟩
    show max q.epoch 0 = 0
    rw [hq.epoch, max_self]

end

/-! ## The invariant -/

/-- The table has the partition, with `home` as its primary; tables are numbered from 1. -/
def HomeIs (p : UInt32) (home : String) (t : RouteTable) : Prop :=
  0 < t.version ∧ (t.entry p).map PartitionInfo.primary = some home

instance (p : UInt32) (home : String) (t : RouteTable) : Decidable (HomeIs p home t) :=
  inferInstanceAs (Decidable (_ ∧ _))

/-- The compute router sends the partition's writes to `home`, under epoch zero. -/
def RoutesHome (p : UInt32) (home : String) (n : ComputeNode) : Prop :=
  (n.seen ≠ 0 → n.table.partitions.get p ≠ none) ∧ (n.seen = 0 → n.table.version = 0) ∧
    ∀ x, n.table.partitions.get p = some x → x.primary = home ∧ x.epoch = 0

structure ServingInv (p : UInt32) (home : String) (c : ClusterState) : Prop where
  lease    : (c.node home).server.canWrite = true
  hosted   : (c.node home).seen ≠ 0 → (c.node home).server.pm.partitions.get p ≠ none
  serves   : ∀ q, (c.node home).server.pm.partitions.get p = some q → Serves q
  compute  : ∀ name, RoutesHome p home (c.computeNode name)
  inflight : ∀ x ∈ c.inflight, x.2.partitionId = p → x.1 = home ∧ x.2.epoch = 0

section
variable {hash : String → UInt32} {opens : String → UInt32 → Bool} {init : RouteTable} {p : UInt32} {home : String}

theorem servingInv_start : ServingInv p home (.start init) where
  lease := rfl
  hosted h := absurd rfl h
  serves q hq := by simp [ClusterState.start, ClusterState.node, StorageNode.fresh] at hq
  compute name := ⟨fun h => absurd rfl h, fun _ => rfl, fun x hx => by
    simp [ClusterState.start, ClusterState.computeNode, Compute.RouteTable.new] at hx⟩
  inflight x hx := by cases hx

theorem ServingInv.setNode {c : ClusterState} (h : ServingInv p home c) {addr : String} {n : StorageNode}
    (hlease : addr = home → n.server.canWrite = true)
    (hhosted : addr = home → n.seen ≠ 0 → n.server.pm.partitions.get p ≠ none)
    (hserves : addr = home → ∀ q, n.server.pm.partitions.get p = some q → Serves q) :
    ServingInv p home (c.setNode addr n) := by
  have hnode := node_setNode c addr n home
  refine ⟨?_, ?_, ?_, h.compute, h.inflight⟩ <;> rw [hnode] <;> split_ifs with haddr
  · exact hlease haddr.symm
  · exact h.lease
  · exact hhosted haddr.symm
  · exact h.hosted
  · exact hserves haddr.symm
  · exact h.serves

theorem ServingInv.deliverStorage {c : ClusterState} (h : ServingInv p home c) {addr : String} {table : RouteTable}
    (htable : HomeIs p home table) (o : UInt32 → Bool) (seen : Nat) :
    ServingInv p home (c.setNode addr
      ⟨(c.node addr).server.updatePartitionsFromRoute o (sendRouteUpdate table).partitions addr, seen⟩) := by
  obtain ⟨e, he, hprimary⟩ := Option.map_eq_some_iff.1 htable.2
  have hdelivered : addr = home → ∃ q, ((c.node addr).server.updatePartitionsFromRoute o
      (sendRouteUpdate table).partitions addr).pm.partitions.get p = some q ∧ Serves q := fun haddr =>
    serves_delivered o he (hprimary.trans haddr.symm) (haddr ▸ h.serves)
  refine h.setNode (fun haddr => ?_) (fun haddr _ hnone => ?_) fun haddr q hq => ?_
  · rw [canWrite_updatePartitionsFromRoute, haddr]
    exact h.lease
  · obtain ⟨q, hq, -⟩ := hdelivered haddr
    rw [hq] at hnone
    cases hnone
  · obtain ⟨q', hq', hserves⟩ := hdelivered haddr
    rw [hq'] at hq
    cases hq
    exact hserves

/-- A table that is pushed is taken over, or the router has a newer one. -/
theorem RoutesHome.deliver {n : ComputeNode} (h : RoutesHome p home n) {table : RouteTable} (htable : HomeIs p home table)
    (seen : Nat) : RoutesHome p home
      ⟨Compute.updateRouteTableFromUpdate n.table (sendRouteUpdate table), seen + 1⟩ := by
  obtain ⟨e, he, hprimary⟩ := Option.map_eq_some_iff.1 htable.2
  obtain ⟨hknown, hnew, hroute⟩ := h
  by_cases hbehind : n.table.version < table.version
  · have hget := (get_pushed hbehind).2 p e he
    refine ⟨fun _ hnone => ?_, nofun, fun x hx => ?_⟩
    · rw [hget] at hnone
      cases hnone
    · rw [hget] at hx
      cases hx
      exact ⟨hprimary, rfl⟩
  · have hkept : Compute.updateRouteTableFromUpdate n.table (sendRouteUpdate table) = n.table :=
      if_pos (Nat.not_lt.1 hbehind)
    rw [hkept]
    refine ⟨fun _ => hknown fun hseen => hbehind ?_, nofun, hroute⟩
    rw [hnew hseen]
    exact htable.1

theorem computeNode_insert (c : ClusterState) (name : String) (n : ComputeNode) (x : String) :
    ({ c with compute := c.compute.insert name n } : ClusterState).computeNode x =
      if x = name then n else c.computeNode x := by
  unfold ClusterState.computeNode
  rw [OrdMap.get_insert]
  split_ifs <;> rfl

/-- Committed tables stay in the history. -/
theorem tables_subset {c c' : ClusterState} {a : ClusterAct} (h : clusterStep hash opens init c a = some c') :
    c.tables init ⊆ c'.tables init := by
  cases a with
  | router a =>
    obtain ⟨r, hr, rfl⟩ := Option.map_eq_some_iff.1 h
    obtain ⟨op, snapshot, t, rs, -, -, rfl⟩ | ⟨rs, rfl⟩ | ⟨t, rest, -, -, rfl⟩ := step_cases hr
    · intro x hx
      have happend : ({ c with router := { c.router.commit op t with rebalances := rs } } : ClusterState).tables init =
          c.tables init ++ [(c.router.commit op t).committed] := by simp [ClusterState.tables, RouterSys.commit]
      rw [happend]
      exact List.mem_append_left _ hx
    · exact fun x hx => hx
    · exact fun x hx => hx
  | deliverStorage addr i =>
    simp only [clusterStep] at h
    split at h
    · cases h
    · split_ifs at h
      cases h
      exact fun x hx => hx
  | deliverCompute name i =>
    simp only [clusterStep] at h
    split at h
    · cases h
    · split_ifs at h
      cases h
      exact fun x hx => hx
  | send name p op =>
    simp only [clusterStep] at h
    split at h <;> cases h
    exact fun x hx => hx
  | handle i =>
    simp only [clusterStep] at h
    split at h
    · cases h
    · split at h <;> cases h <;> exact fun x hx => hx

/-- **Step**: as long as `home` is the primary in all tables, it serves the partition. -/
theorem servingInv_step {c c' : ClusterState} {a : ClusterAct} (h : ServingInv p home c)
    (hhome : ∀ t ∈ c.tables init, HomeIs p home t) (hstep : clusterStep hash opens init c a = some c') :
    ServingInv p home c' := by
  cases a with
  | router a =>
    obtain ⟨r, -, rfl⟩ := Option.map_eq_some_iff.1 hstep
    exact ⟨h.lease, h.hosted, h.serves, h.compute, h.inflight⟩
  | deliverStorage addr i =>
    simp only [clusterStep] at hstep
    split at hstep
    · cases hstep
    · rename_i table ht
      split_ifs at hstep
      cases hstep
      exact h.deliverStorage (hhome table (List.mem_of_getElem? (tables_of_published ht))) _ _
  | deliverCompute name i =>
    simp only [clusterStep] at hstep
    split at hstep
    · cases hstep
    · rename_i table ht
      split_ifs at hstep
      cases hstep
      refine ⟨h.lease, h.hosted, h.serves, fun x => ?_, h.inflight⟩
      rw [computeNode_insert]
      split_ifs
      · exact (h.compute name).deliver (hhome table (List.mem_of_getElem? (tables_of_published ht))) i
      · exact h.compute x
  | send name p' op =>
    simp only [clusterStep] at hstep
    split at hstep
    · cases hstep
    · rename_i primary replica epoch hroute
      cases hstep
      refine ⟨h.lease, h.hosted, h.serves, h.compute, fun x hx hxp => ?_⟩
      rcases List.mem_append.1 hx with hold | hnew
      · exact h.inflight x hold hxp
      · obtain rfl := List.mem_singleton.1 hnew
        obtain rfl : p' = p := hxp
        unfold Compute.getPartitionNodesByID at hroute
        split at hroute <;> cases hroute
        rename_i info hget
        exact (h.compute name).2.2 info hget
  | handle i =>
    simp only [clusterStep] at hstep
    split at hstep
    · cases hstep
    · rename_i addr req hreq
      have hless : ServingInv p home { c with inflight := c.inflight.eraseIdx i } :=
        ⟨h.lease, h.hosted, h.serves, h.compute, fun x hx => h.inflight x (List.mem_of_mem_eraseIdx hx)⟩
      split at hstep
      · cases hstep
        exact hless
      · rename_i server hw
        cases hstep
        have hparts : server.pm.partitions = (c.node addr).server.pm.partitions := by
          rw [(Server.handleWrite_ok hw).2.1]
          rfl
        have hset : ServingInv p home (({ c with inflight := c.inflight.eraseIdx i } : ClusterState).setNode addr
            ⟨server, (c.node addr).seen⟩) := by
          refine hless.setNode (fun haddr => ?_) (fun haddr => ?_) fun haddr => ?_
          · rw [canWrite_handleWrite hw]
            exact haddr ▸ h.lease
          · simp only [hparts]
            exact haddr ▸ h.hosted
          · simp only [hparts]
            exact haddr ▸ h.serves
        exact ⟨hset.lease, hset.hosted, hset.serves, hset.compute, hset.inflight⟩

/-- **Writes are acknowledged.** Let `home` be the primary of partition `p` in every table that has been committed, with
any commits, deliveries in order, sends and writes in between. A compute node that has been pushed a table sends its
writes of `p`; and once `home` has been pushed a table, it acknowledges every write of `p` that is on its way, at the
moment it arrives. -/
theorem writes_acknowledged (hash : String → UInt32) (opens : String → UInt32 → Bool) (init : RouteTable)
    {as : List ClusterAct} {c : ClusterState} (hrun : run (clusterStep hash opens init) (.start init) as = some c)
    {p : UInt32} {home : String} (hhome : ∀ t ∈ c.tables init, HomeIs p home t) :
    (∀ name op, (c.computeNode name).seen ≠ 0 →
      ∃ c' epoch, clusterStep hash opens init c (.send name p op) = some c' ∧
        c'.inflight = c.inflight ++ [(home, ⟨p, epoch, op⟩)]) ∧
    ((c.node home).seen ≠ 0 → ∀ (i : Nat) (addr : String) (req : WriteRequest), c.inflight[i]? = some (addr, req) →
      req.partitionId = p → ∃ c', clusterStep hash opens init c (.handle i) = some c' ∧
        c'.acks = c.acks ++ [⟨p, 0, home⟩]) := by
  have hinv : ServingInv p home c := by
    -- what holds of all tables at the end held of those before
    refine run_inv (P := fun c => (∀ t ∈ c.tables init, HomeIs p home t) → ServingInv p home c)
      (fun c a c' hc hstep hhome => ?_) (fun _ => servingInv_start) hrun hhome
    have hbefore : ∀ t ∈ c.tables init, HomeIs p home t := fun t ht => hhome t (tables_subset hstep ht)
    exact servingInv_step (hc hbefore) hbefore hstep
  refine ⟨fun name op hseen => ?_, fun hseen i addr req hreq hp => ?_⟩
  · obtain ⟨hknown, -, hroute⟩ := hinv.compute name
    obtain ⟨x, hx⟩ := Option.ne_none_iff_exists'.1 (hknown hseen)
    obtain ⟨rfl, -⟩ := hroute x hx
    refine ⟨{ c with inflight := c.inflight ++ [(x.primary, ⟨p, x.epoch, op⟩)] }, x.epoch, ?_, rfl⟩
    simp only [clusterStep, Compute.getPartitionNodesByID, hx]
  · obtain ⟨rfl, hepoch⟩ := hinv.inflight _ (List.mem_of_getElem? hreq) hp
    obtain ⟨q, hq⟩ := Option.ne_none_iff_exists'.1 (hinv.hosted hseen)
    obtain ⟨server, hserver⟩ := handleWrite_of_serves hinv.lease (hp ▸ hq) (hinv.serves q hq) hepoch
    refine ⟨{ ({ c with inflight := c.inflight.eraseIdx i } : ClusterState).setNode addr
      ⟨server, (c.node addr).seen⟩ with acks := c.acks ++ [⟨req.partitionId, req.epoch, addr⟩] }, ?_, ?_⟩
    · simp only [clusterStep, hreq]
      have hnode : ({ c with inflight := c.inflight.eraseIdx i } : ClusterState).node addr = c.node addr := rfl
      simp only [hnode, hserver]
    · rw [← hp, ← hepoch]

/-- **A promoted replica never acknowledges.** In a steady run, however often a partition's primary changes within its
pair and is announced to everyone, a write that a compute node sends to another node than the first primary leaves no
acknowledgement. -/
theorem promoted_never_acknowledges (hash : String → UInt32) (opens : String → UInt32 → Bool) (init : RouteTable)
    {as : List ClusterAct} {c c' : ClusterState}
    (hsteady : Along (clusterStep hash opens init) (Steady hash) (.start init) as)
    (hrun : run (clusterStep hash opens init) (.start init) as = some c) {i : Nat} {addr : String} {req : WriteRequest}
    (hreq : c.inflight[i]? = some (addr, req))
    (haddr : ∀ e, init.entry req.partitionId = some e → e.primary ≠ addr)
    (hstep : clusterStep hash opens init c (.handle i) = some c') : c'.acks = c.acks := by
  have hi : FencingInv init c :=
    run_inv_along (fun _ _ _ hi hs h => fencingInv_step hi hs h) fencingInv_start hsteady hrun
  have hi' : FencingInv init c' := fencingInv_step (a := .handle i) hi trivial hstep
  simp only [clusterStep, hreq] at hstep
  split at hstep <;> cases hstep
  · rfl
  · obtain ⟨e, he, hprimary⟩ := hi'.acked ⟨req.partitionId, req.epoch, addr⟩ (List.mem_append_right _ List.mem_cons_self)
    exact absurd hprimary (haddr e he)

end

/-- Compute node `x` has the first table and storage node `a` a later one. -/
theorem writes_acknowledged_pairOnAB :
    ∃ c c', run (clusterStep hashKey (fun _ _ => true) pairOnAB) (.start pairOnAB)
      [.deliverCompute "x" 0, .send "x" 0 (.put [1] [1]), .router (.setPartitionStatus 0 .migratingOut), .router .deliver,
        .deliverStorage "a" 1] = some c ∧
      clusterStep hashKey (fun _ _ => true) pairOnAB c (.handle 0) = some c' ∧ c'.acks = c.acks ++ [⟨0, 0, "a"⟩] := by
  obtain ⟨c', hstep, hacks⟩ := (@writes_acknowledged hashKey (fun _ _ => true) pairOnAB
    [.deliverCompute "x" 0, .send "x" 0 (.put [1] [1]), .router (.setPartitionStatus 0 .migratingOut), .router .deliver,
      .deliverStorage "a" 1] _ rfl 0 "a" (by decide)).2 (by decide) 0 "a" ⟨0, 0, .put [1] [1]⟩ rfl rfl
  exact ⟨_, c', rfl, hstep, hacks⟩

/-- Partition 0 is promoted from `a` to `b`, and everyone knows it. -/
def failoverRun : List ClusterAct :=
  [.deliverStorage "a" 0, .deliverStorage "b" 0, .deliverCompute "x" 0, .router (.promoteReplica 0), .router .deliver,
    .deliverStorage "a" 1, .deliverStorage "b" 1, .deliverCompute "x" 1, .send "x" 0 (.put [1] [2])]

theorem promoted_never_acknowledges_failover :
    ∃ c c', run (clusterStep hashKey (fun _ _ => true) pairOnAB) (.start pairOnAB) failoverRun = some c ∧
      clusterStep hashKey (fun _ _ => true) pairOnAB c (.handle 0) = some c' ∧ c'.acks = c.acks := by
  refine ⟨_, _, rfl, rfl, @promoted_never_acknowledges hashKey (fun _ _ => true) pairOnAB failoverRun _ _ (by decide) rfl
    0 "b" ⟨0, 0, .put [1] [2]⟩ rfl (fun e he => ?_) rfl⟩
  cases he
  decide

end RocksKV.Cluster
