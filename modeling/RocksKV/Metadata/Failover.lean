import RocksKV.Metadata.RouteTable
/-!
# One tick of the failover manager (`pkg/metadata/failover.go`)

| here | there |
| --- | --- |
| `NodeRecord`, `NodeStore` | a stored `NodeInfo` with its `LastHeartbeat` (`store.go:80-88`), under `nodePrefix + id` |
| `getNode`, `listNodes`, `updateNodeStatus` | `etcd.go:210-250`, `:283-310` |
| `NodeHealth`        | `nodeHealthInfo` (`failover.go:62-67`) |
| `checkNode`         | the loop of `checkNodes` over the listed nodes (`:132-162`) |
| `affectedPartitions` | the partitions whose primary is on the failed node (`:196-199`) |
| `handleNodeFailure` | `:171-225`, with calls that succeed and each commit in the cache before the next call |
| `checkNodes`        | `:119-168`, likewise |

The order in which `handleNodeFailure` ranges over the table is Go's: `order` stands for it, for each failed node.

A tick handles one failed node after the other, each on the table the one before has left. A partition that loses its
primary and still has its replica is promoted once, since the new primary is not among the failed ones
(`entry_failures`). `PromoteReplica` copies a table without its migration fields, so these are cleared in every
partition as soon as one is promoted.
-/

namespace RocksKV.Metadata

open Lib

/-! ## Nodes in the store -/

structure NodeRecord extends NodeInfo where
  lastHeartbeat : Int
  deriving DecidableEq, Repr

/-- The node records, at most one for an id. -/
structure NodeStore where
  records  : List NodeRecord
  distinct : (records.map fun n => n.id).Nodup

namespace NodeStore

variable {s : NodeStore} {n : NodeRecord} {i j : String} {status : NodeStatus}

def getNode (s : NodeStore) (nodeID : String) : Option NodeRecord := s.records.find? fun n => decide (n.id = nodeID)

def listNodes (s : NodeStore) (role : NodeRole) : List NodeRecord := s.records.filter fun n => decide (n.role = role)

def setStatus (nodeID : String) (status : NodeStatus) (n : NodeRecord) : NodeRecord :=
  if n.id = nodeID then { n with status := status } else n

theorem id_setStatus : (setStatus i status n).id = n.id := by
  unfold setStatus
  split_ifs <;> rfl

theorem addr_setStatus : (setStatus i status n).addr = n.addr := by
  unfold setStatus
  split_ifs <;> rfl

def updateNodeStatus (s : NodeStore) (nodeID : String) (status : NodeStatus) : NodeStore where
  records := s.records.map (setStatus nodeID status)
  distinct := by
    rw [List.map_map, show (fun n : NodeRecord => n.id) ∘ setStatus nodeID status = fun n => n.id from
      funext fun _ => id_setStatus]
    exact s.distinct

theorem getNode_of_mem (h : n ∈ s.records) : s.getNode n.id = some n := by
  have hsome : (s.getNode n.id).isSome := List.find?_isSome.2 ⟨n, h, by simp⟩
  obtain ⟨m, hm⟩ := Option.isSome_iff_exists.1 hsome
  have hid : m.id = n.id := by simpa using List.find?_some hm
  rw [hm, List.inj_on_of_nodup_map s.distinct (List.mem_of_find?_eq_some hm) h hid]

theorem getNode_updateNodeStatus : (s.updateNodeStatus i status).getNode j = (s.getNode j).map (setStatus i status) := by
  simp only [getNode, updateNodeStatus, List.find?_map]
  congr 2
  funext n
  rw [Function.comp_apply, id_setStatus]

theorem mem_listNodes {role : NodeRole} : n ∈ s.listNodes role ↔ n ∈ s.records ∧ n.role = role := by
  simp [listNodes]

end NodeStore

/-! ## Which nodes have timed out -/

structure NodeHealth where
  lastHeartbeat : Int
  failCount     : Nat
  isHealthy     : Bool
  deriving DecidableEq, Repr

/-- A node seen for the first time takes its record's time, later a record that is newer counts (`:133-148`). -/
def mergeHeartbeat (health : Option NodeHealth) (node : NodeRecord) : NodeHealth :=
  let health := health.getD { lastHeartbeat := node.lastHeartbeat, failCount := 0, isHealthy := true }
  if health.lastHeartbeat < node.lastHeartbeat then
    { lastHeartbeat := node.lastHeartbeat, failCount := 0, isHealthy := true }
  else health

/-- One node: the health map, and `failedNodes`. -/
def checkNode (timeout now : Int) (acc : (String → Option NodeHealth) × List String) (node : NodeRecord) :
    (String → Option NodeHealth) × List String :=
  let health := mergeHeartbeat (acc.1 node.id) node
  if timeout < now - health.lastHeartbeat then
    (Function.update acc.1 node.id (some { health with failCount := health.failCount + 1, isHealthy := false }),
      acc.2 ++ [node.id])
  else (Function.update acc.1 node.id (some health), acc.2)

/-- The later of the node's own record and what the health map has. -/
def lastSeen (nodeHealth : String → Option NodeHealth) (node : NodeRecord) : Int :=
  match nodeHealth node.id with
  | none => node.lastHeartbeat
  | some health => max health.lastHeartbeat node.lastHeartbeat

def timedOut (timeout now : Int) (nodeHealth : String → Option NodeHealth) (node : NodeRecord) : Bool :=
  decide (timeout < now - lastSeen nodeHealth node)

section
variable {timeout now : Int} {nodeHealth : String → Option NodeHealth}

theorem lastHeartbeat_mergeHeartbeat (n : NodeRecord) :
    (mergeHeartbeat (nodeHealth n.id) n).lastHeartbeat = lastSeen nodeHealth n := by
  unfold mergeHeartbeat lastSeen
  cases nodeHealth n.id with
  | none => simp
  | some health =>
    simp only [Option.getD_some]
    split_ifs with h
    · exact (max_eq_right h.le).symm
    · exact (max_eq_left (not_lt.1 h)).symm

theorem checkNode_spec (failed : List String) (n : NodeRecord) :
    (checkNode timeout now (nodeHealth, failed) n).2 =
      failed ++ (if timedOut timeout now nodeHealth n then [n.id] else []) ∧
    ∀ i, i ≠ n.id → (checkNode timeout now (nodeHealth, failed) n).1 i = nodeHealth i := by
  unfold checkNode timedOut
  simp only [lastHeartbeat_mergeHeartbeat]
  by_cases h : timeout < now - lastSeen nodeHealth n
  · rw [if_pos h, if_pos (decide_eq_true h)]
    exact ⟨rfl, fun i hi => Function.update_of_ne hi ..⟩
  · rw [if_neg h, if_neg (by simpa using h)]
    exact ⟨(List.append_nil _).symm, fun i hi => Function.update_of_ne hi ..⟩

/-- **`failedNodes`**: the listed nodes that have timed out, by the health map as it was before the tick. -/
theorem foldl_checkNode {nodes : List NodeRecord} (hnd : (nodes.map fun n => n.id).Nodup) (failed : List String) :
    (nodes.foldl (checkNode timeout now) (nodeHealth, failed)).2 =
      failed ++ (nodes.filter (timedOut timeout now nodeHealth)).map fun n => n.id := by
  induction nodes generalizing nodeHealth failed with
  | nil => simp
  | cons n nodes ih =>
    obtain ⟨hnot, hnd⟩ := List.nodup_cons.1 hnd
    obtain ⟨hfailed, hother⟩ := @checkNode_spec timeout now nodeHealth failed n
    -- the rest of the list has other ids, whose health is still the old one
    have hsame : nodes.filter (timedOut timeout now (checkNode timeout now (nodeHealth, failed) n).1) =
        nodes.filter (timedOut timeout now nodeHealth) := by
      refine List.filter_congr fun m hm => ?_
      have hne : m.id ≠ n.id := fun h => hnot (List.mem_map.2 ⟨m, hm, h⟩)
      rw [timedOut, lastSeen, hother m.id hne]
      rfl
    have hstep := @ih (checkNode timeout now (nodeHealth, failed) n).1 hnd (checkNode timeout now (nodeHealth, failed) n).2
    rw [List.foldl_cons, hstep, hsame, hfailed, List.filter_cons]
    split_ifs <;> simp

end

/-! ## The tick -/

def affectedPartitions (table : RouteTable) (addr : String) : List UInt32 :=
  (table.partitions.entries.filter fun x => decide (x.2.primary = addr)).map Prod.fst

/-- `PromoteReplica` and its commit. An error is logged and the loop goes on. -/
def promoteNext (table : RouteTable) (partitionID : UInt32) : RouteTable :=
  match promoteReplica table partitionID with
  | .ok new => updateRouteTable table new
  | .error _ => table

section
variable (order : String → List UInt32 → List UInt32)

def handleNodeFailure (s : NodeStore × RouteTable) (nodeID : String) : NodeStore × RouteTable :=
  let store := s.1.updateNodeStatus nodeID .offline
  match store.getNode nodeID with
  | none => (store, s.2)
  | some node => (store, (order nodeID (affectedPartitions s.2 node.addr)).foldl promoteNext s.2)

def checkNodes (timeout now : Int) (store : NodeStore) (nodeHealth : String → Option NodeHealth) (table : RouteTable) :
    (String → Option NodeHealth) × NodeStore × RouteTable :=
  let (nodeHealth, failedNodes) := (store.listNodes .storage).foldl (checkNode timeout now) (nodeHealth, [])
  (nodeHealth, failedNodes.foldl (handleNodeFailure order) (store, table))

end

theorem mem_affectedPartitions {table : RouteTable} {addr : String} {p : UInt32} :
    p ∈ affectedPartitions table addr ↔ ∃ e, table.entry p = some e ∧ e.primary = addr := by
  simp only [affectedPartitions, List.mem_map, List.mem_filter, Prod.exists, decide_eq_true_eq]
  constructor
  · rintro ⟨q, e, ⟨he, hp⟩, rfl⟩
    exact ⟨e, OrdMap.mem_entries.1 he, hp⟩
  · rintro ⟨e, he, hp⟩
    exact ⟨p, e, ⟨OrdMap.mem_entries.2 he, hp⟩, rfl⟩

theorem nodup_affectedPartitions (table : RouteTable) (addr : String) : (affectedPartitions table addr).Nodup :=
  (List.filter_sublist.map Prod.fst).nodup (OrdMap.nodup_keys table.partitions)

/-- One promotion. -/
theorem entry_promoteNext {table : RouteTable} {q : UInt32} (hq : (table.entry q).isSome) (p : UInt32) :
    (promoteNext table q).entry p = if p = q then (table.entry p).map (fun e => promoted e (copyRouting e))
      else (table.entry p).map copyRouting := by
  obtain ⟨t, ht⟩ : ∃ t, promoteReplica table q = .ok t := editPartition_ok hq
  rw [promoteNext, ht]
  exact entry_promoteReplica ht p

/-- **The promotions of one failed node**: its partitions are swapped once each, the others copied if there is any. -/
theorem entry_promotions {ps : List UInt32} (hnd : ps.Nodup) {table : RouteTable}
    (hall : ∀ q ∈ ps, (table.entry q).isSome) (p : UInt32) :
    (p ∈ ps → (ps.foldl promoteNext table).entry p = (table.entry p).map fun e => promoted e (copyRouting e)) ∧
    (p ∉ ps → (ps.foldl promoteNext table).entry p = table.entry p ∨
      (ps.foldl promoteNext table).entry p = (table.entry p).map copyRouting) := by
  induction ps generalizing table with
  | nil => simp
  | cons q ps ih =>
    obtain ⟨hnot, hnd⟩ := List.nodup_cons.1 hnd
    have hentry := entry_promoteNext (hall q List.mem_cons_self)
    have hall' : ∀ r ∈ ps, ((promoteNext table q).entry r).isSome := by
      intro r hr
      have hsome := hall r (List.mem_cons_of_mem _ hr)
      rw [hentry]
      split_ifs <;> simpa using hsome
    obtain ⟨hin, hout⟩ := ih hnd hall'
    rw [List.foldl_cons]
    constructor
    · intro hp
      by_cases hpq : p = q
      · -- promoted here, and at most copied afterwards
        have hhere := hentry p
        rw [if_pos hpq] at hhere
        rcases hout (hpq ▸ hnot) with hsame | hcopy
        · rw [hsame, hhere]
        · rw [hcopy, hhere, Option.map_map]
          rfl
      · rw [hin ((List.mem_cons.1 hp).resolve_left hpq), hentry p, if_neg hpq, Option.map_map]
        rfl
    · intro hp
      obtain ⟨hpq, hps⟩ := not_or.1 (mt List.mem_cons.2 hp)
      right
      have hhere := hentry p
      rw [if_neg hpq] at hhere
      rcases hout hps with hsame | hcopy
      · rw [hsame, hhere]
      · rw [hcopy, hhere, Option.map_map]
        rfl

section
variable {order : String → List UInt32 → List UInt32} (horder : ∀ i l, (order i l).Perm l)
include horder

/-- **One failed node**, at address `addr`. -/
theorem entry_handleNodeFailure {s : NodeStore × RouteTable} {i : String} {n : NodeRecord} (hn : s.1.getNode i = some n)
    {p : UInt32} {e : PartitionInfo} (he : s.2.entry p = some e) :
    ∃ e', (handleNodeFailure order s i).2.entry p = some e' ∧
      (e.primary = n.addr → e' = promoted e (copyRouting e)) ∧ (e.primary ≠ n.addr → e' = e ∨ e' = copyRouting e) := by
  have hget : (s.1.updateNodeStatus i .offline).getNode i = some (NodeStore.setStatus i .offline n) := by
    rw [NodeStore.getNode_updateNodeStatus, hn]
    rfl
  have htable : (handleNodeFailure order s i).2 = (order i (affectedPartitions s.2 n.addr)).foldl promoteNext s.2 := by
    rw [handleNodeFailure, hget]
    simp only [NodeStore.addr_setStatus]
  have hperm := horder i (affectedPartitions s.2 n.addr)
  have hmem : ∀ q, q ∈ order i (affectedPartitions s.2 n.addr) ↔ ∃ e, s.2.entry q = some e ∧ e.primary = n.addr :=
    fun q => hperm.mem_iff.trans mem_affectedPartitions
  have hall : ∀ q ∈ order i (affectedPartitions s.2 n.addr), (s.2.entry q).isSome := by
    intro q hq
    obtain ⟨x, hx, -⟩ := (hmem q).1 hq
    rw [hx]
    rfl
  obtain ⟨hin, hout⟩ := entry_promotions (hperm.nodup_iff.2 (nodup_affectedPartitions s.2 n.addr)) hall p
  rw [htable]
  by_cases hp : e.primary = n.addr
  · rw [hin ((hmem p).2 ⟨e, he, hp⟩), he]
    exact ⟨_, rfl, fun _ => rfl, fun h => absurd hp h⟩
  · have hnot : p ∉ order i (affectedPartitions s.2 n.addr) := by
      intro h
      obtain ⟨x, hx, hxp⟩ := (hmem p).1 h
      rw [he] at hx
      cases hx
      exact hp hxp
    rcases hout hnot with h | h
    · rw [h, he]
      exact ⟨e, rfl, fun h => absurd h hp, fun _ => .inl rfl⟩
    · rw [h, he]
      exact ⟨_, rfl, fun h => absurd h hp, fun _ => .inr rfl⟩

/-- **All failed nodes of a tick**, in any order: a partition none of them is primary of is at most copied, one that
loses its primary and keeps its replica is promoted once. -/
theorem entry_failures {ids : List String} {s : NodeStore × RouteTable} (hids : ∀ i ∈ ids, (s.1.getNode i).isSome)
    {p : UInt32} {e : PartitionInfo} (he : s.2.entry p = some e) :
    ∃ e', (ids.foldl (handleNodeFailure order) s).2.entry p = some e' ∧
      ((∀ i ∈ ids, ∀ n, s.1.getNode i = some n → n.addr ≠ e.primary) → e' = e ∨ e' = copyRouting e) ∧
      ((∃ i ∈ ids, ∃ n, s.1.getNode i = some n ∧ n.addr = e.primary) →
        (∀ i ∈ ids, ∀ n, s.1.getNode i = some n → n.addr ≠ e.replica) → e' = promoted e (copyRouting e)) := by
  induction ids generalizing s e with
  | nil => exact ⟨e, he, fun _ => .inl rfl, fun ⟨i, hi, _⟩ => absurd hi List.not_mem_nil⟩
  | cons i ids ih =>
    obtain ⟨n, hn⟩ := Option.isSome_iff_exists.1 (hids i List.mem_cons_self)
    obtain ⟨e₁, he₁, hprom, hkeep⟩ := entry_handleNodeFailure horder hn he
    -- the store keeps its ids and addresses
    have hstore : ∀ j, (handleNodeFailure order s i).1.getNode j = (s.1.getNode j).map (NodeStore.setStatus i .offline) := by
      intro j
      rw [← NodeStore.getNode_updateNodeStatus, handleNodeFailure]
      split <;> rfl
    have haddr : ∀ {x : String}, (∀ j ∈ ids, ∀ m, s.1.getNode j = some m → m.addr ≠ x) →
        ∀ j ∈ ids, ∀ m, (handleNodeFailure order s i).1.getNode j = some m → m.addr ≠ x := by
      intro x h j hj m hm
      rw [hstore] at hm
      obtain ⟨m', hm', rfl⟩ := Option.map_eq_some_iff.1 hm
      rw [NodeStore.addr_setStatus]
      exact h j hj m' hm'
    have hids' : ∀ j ∈ ids, ((handleNodeFailure order s i).1.getNode j).isSome := by
      intro j hj
      rw [hstore, Option.isSome_map]
      exact hids j (List.mem_cons_of_mem _ hj)
    obtain ⟨e', he', huntouched, honce⟩ := ih hids' he₁
    refine ⟨e', he', fun hnone => ?_, fun hsome hreplica => ?_⟩
    · have hrest := fun j hj => hnone j (List.mem_cons_of_mem _ hj)
      rcases hkeep (Ne.symm (hnone i List.mem_cons_self n hn)) with rfl | rfl
      · exact huntouched (haddr hrest)
      · exact .inr ((huntouched (haddr hrest)).elim id id)
    · have hrest := fun j hj => hreplica j (List.mem_cons_of_mem _ hj)
      by_cases hp : e.primary = n.addr
      · obtain rfl := hprom hp
        exact (huntouched (haddr hrest)).elim id id
      · obtain ⟨j, hj, m, hm, hmp⟩ := hsome
        have hj' : j ∈ ids := by
          refine (List.mem_cons.1 hj).resolve_left ?_
          rintro rfl
          rw [hn] at hm
          cases hm
          exact hp hmp.symm
        have hfail : ∃ j ∈ ids, ∃ m, (handleNodeFailure order s i).1.getNode j = some m ∧ m.addr = e.primary :=
          ⟨j, hj', _, by rw [hstore, hm]; rfl, by rw [NodeStore.addr_setStatus, hmp]⟩
        rcases hkeep hp with rfl | rfl
        · exact honce hfail (haddr hrest)
        · exact honce hfail (haddr hrest)

end

section
variable {timeout now : Int} {nodeHealth : String → Option NodeHealth} {store : NodeStore}

/-- The failed nodes of a tick, by id. -/
theorem mem_failedNodes {i : String} :
    i ∈ ((store.listNodes .storage).foldl (checkNode timeout now) (nodeHealth, [])).2 ↔
      ∃ n ∈ store.listNodes .storage, timedOut timeout now nodeHealth n = true ∧ n.id = i := by
  have hnd : ((store.listNodes .storage).map fun n => n.id).Nodup :=
    (List.filter_sublist.map fun n : NodeRecord => n.id).nodup store.distinct
  rw [foldl_checkNode hnd, List.nil_append]
  simp only [List.mem_map, List.mem_filter, and_assoc]

theorem NodeStore.getNode_of_listed {role : NodeRole} {n : NodeRecord} (h : n ∈ store.listNodes role) :
    store.getNode n.id = some n :=
  getNode_of_mem (mem_listNodes.1 h).1

/-- The record of a failed node is the listed one. -/
theorem forall_failedNodes {P : NodeRecord → Prop} :
    (∀ i ∈ ((store.listNodes .storage).foldl (checkNode timeout now) (nodeHealth, [])).2, ∀ n,
      store.getNode i = some n → P n) ↔
    ∀ n ∈ store.listNodes .storage, timedOut timeout now nodeHealth n = true → P n := by
  constructor
  · intro h n hn ht
    exact h n.id (mem_failedNodes.2 ⟨n, hn, ht, rfl⟩) n (NodeStore.getNode_of_listed hn)
  · intro h i hi n hn
    obtain ⟨m, hm, ht, rfl⟩ := mem_failedNodes.1 hi
    rw [NodeStore.getNode_of_listed hm] at hn
    cases hn
    exact h _ hm ht

theorem isSome_of_mem_failedNodes {i : String}
    (h : i ∈ ((store.listNodes .storage).foldl (checkNode timeout now) (nodeHealth, [])).2) : (store.getNode i).isSome := by
  obtain ⟨m, hm, -, rfl⟩ := mem_failedNodes.1 h
  rw [NodeStore.getNode_of_listed hm]
  rfl

end

/-- **A tick restores a healthy primary** to every partition with a copy on a node that has not timed out: the new primary
is one of the two, it has not timed out, and it is a listed node if the old one was. A partition whose primary has not
timed out keeps its entry, or loses its migration fields only. -/
theorem tick_restores_primary {order : String → List UInt32 → List UInt32} (horder : ∀ i l, (order i l).Perm l)
    (timeout now : Int) {store : NodeStore} (haddrs : ((store.listNodes .storage).map fun n => n.addr).Nodup)
    (nodeHealth : String → Option NodeHealth) {table : RouteTable} {p : UInt32} {e : PartitionInfo}
    (he : table.entry p = some e) :
    ∃ e', (checkNodes order timeout now store nodeHealth table).2.2.entry p = some e' ∧
      ((∃ n ∈ store.listNodes .storage, timedOut timeout now nodeHealth n = false ∧
          (n.addr = e.primary ∨ n.addr = e.replica)) →
        (e'.primary = e.primary ∨ e'.primary = e.replica) ∧
        (∀ n ∈ store.listNodes .storage, timedOut timeout now nodeHealth n = true → n.addr ≠ e'.primary) ∧
        ((∃ n ∈ store.listNodes .storage, n.addr = e.primary) →
          ∃ n ∈ store.listNodes .storage, timedOut timeout now nodeHealth n = false ∧ n.addr = e'.primary)) ∧
      ((∀ n ∈ store.listNodes .storage, timedOut timeout now nodeHealth n = true → n.addr ≠ e.primary) →
        e' = e ∨ e' = copyRouting e) := by
  obtain ⟨e', he', huntouched, honce⟩ := entry_failures (s := (store, table)) horder
    (fun _ hi => isSome_of_mem_failedNodes hi) he
  refine ⟨e', he', ?_, fun h => huntouched (forall_failedNodes.2 h)⟩
  rintro ⟨m, hm, hlive, hcopy⟩
  have hother : ∀ n ∈ store.listNodes .storage, timedOut timeout now nodeHealth n = true → n.addr ≠ m.addr := by
    intro n hn ht hnm
    rw [List.inj_on_of_nodup_map haddrs hn hm hnm, hlive] at ht
    cases ht
  by_cases hprimary : ∀ n ∈ store.listNodes .storage, timedOut timeout now nodeHealth n = true → n.addr ≠ e.primary
  · have hsame : e'.primary = e.primary := by
      rcases huntouched (forall_failedNodes.2 hprimary) with rfl | rfl <;> rfl
    refine ⟨.inl hsame, hsame ▸ hprimary, ?_⟩
    rintro ⟨n, hn, hnp⟩
    have hup : timedOut timeout now nodeHealth n = false := Bool.eq_false_iff.2 fun ht => hprimary n hn ht hnp
    exact ⟨n, hn, hup, hnp.trans hsame.symm⟩
  · -- the primary is lost, so the copy that is left is the replica
    push Not at hprimary
    obtain ⟨n, hn, ht, hnp⟩ := hprimary
    have hreplica : m.addr = e.replica := by
      rcases hcopy with h | h
      · exact absurd (hnp.trans h.symm) (hother n hn ht)
      · exact h
    have hprom := honce ⟨n.id, mem_failedNodes.2 ⟨n, hn, ht, rfl⟩, n, NodeStore.getNode_of_listed hn, hnp⟩
      (forall_failedNodes.2 (hreplica ▸ hother))
    have hnew : e'.primary = e.replica := by
      rw [hprom]
      rfl
    rw [hnew, ← hreplica]
    exact ⟨.inr rfl, hother, fun _ => ⟨m, hm, hlive, rfl⟩⟩

/-- `a` was registered at time 0, `b` at time 900. -/
def twoNodes : NodeStore where
  records := [⟨⟨"1", "a", .storage, .online⟩, 0⟩, ⟨⟨"2", "b", .storage, .online⟩, 900⟩]
  distinct := by decide

/-- Partition 0 on `a` and `b`; partition 1 on `b` and `a`, moving to `c`. -/
def twoPartitions : RouteTable :=
  (RouteTable.new.setEntry
    { id := 0, primary := "a", replica := "b", status := .normal, migrationTarget := "", migrationState := .none
      epoch := 1 }).setEntry
    { id := 1, primary := "b", replica := "a", status := .normal, migrationTarget := "c", migrationState := .copying
      epoch := 1 }

/-- Node `a` fails. -/
theorem tick_restores_primary_two : ∃ e', (checkNodes (fun _ l => l) 500 1000 twoNodes (fun _ => none)
    twoPartitions).2.2.entry 0 = some e' ∧ (e'.primary = "a" ∨ e'.primary = "b") ∧ "a" ≠ e'.primary ∧
      ∃ n ∈ twoNodes.listNodes .storage, timedOut 500 1000 (fun _ => none) n = false ∧ n.addr = e'.primary := by
  obtain ⟨e', he', hrestored, -⟩ := @tick_restores_primary (fun _ l => l) (fun _ _ => .refl _) 500 1000 twoNodes
    (by decide) (fun _ => none) twoPartitions 0 _ rfl
  obtain ⟨hpair, hlive, hlisted⟩ := hrestored ⟨⟨⟨"2", "b", .storage, .online⟩, 900⟩, by decide, by decide, .inr rfl⟩
  exact ⟨e', he', hpair, hlive ⟨⟨"1", "a", .storage, .online⟩, 0⟩ (by decide) (by decide),
    hlisted ⟨⟨⟨"1", "a", .storage, .online⟩, 0⟩, by decide, rfl⟩⟩

/-- `b` alone, and partition 0 on `x`, which nobody lists, and `b`. -/
def oneNode : NodeStore where
  records := [⟨⟨"2", "b", .storage, .online⟩, 900⟩]
  distinct := by decide

def strayPartition : RouteTable :=
  RouteTable.new.setEntry
    { id := 0, primary := "x", replica := "b", status := .normal, migrationTarget := "", migrationState := .none
      epoch := 1 }

/-- **A primary that is not listed is not replaced, and migration fields are not kept**: partition 0 has its replica on
`b`, which has not timed out, and keeps `x`; the primary of partition 1 has not timed out, and its entry is not the
same. -/
theorem tick_keeps_unlisted_clears_migration :
    ((∀ n ∈ oneNode.listNodes .storage, timedOut 500 1000 (fun _ => none) n = false ∧ n.addr = "b") ∧
    (strayPartition.entry 0).map PartitionInfo.pair = some ("x", "b") ∧
    ((checkNodes (fun _ l => l) 500 1000 oneNode (fun _ => none) strayPartition).2.2.entry 0).map
      PartitionInfo.pair = some ("x", "b")) ∧
    (∀ n ∈ twoNodes.listNodes .storage, timedOut 500 1000 (fun _ => none) n = true → n.addr ≠ "b") ∧
    (twoPartitions.entry 1).map (fun e => (e.primary, e.migrationTarget)) = some ("b", "c") ∧
    ((checkNodes (fun _ l => l) 500 1000 twoNodes (fun _ => none) twoPartitions).2.2.entry 1).map
      (fun e => (e.primary, e.migrationTarget)) = some ("b", "") := by
  refine ⟨⟨by decide, rfl, rfl⟩, by decide, rfl, rfl⟩

end RocksKV.Metadata
