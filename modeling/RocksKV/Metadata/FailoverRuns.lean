import RocksKV.Metadata.Failover
import RocksKV.Metadata.Router
/-!
# Ticks, heartbeats and the router (`pkg/metadata/failover.go`, `etcd.go`, `router.go`)

| here | there |
| --- | --- |
| `heartbeat` | `UpdateNodeHeartbeat` (`etcd.go:254-280`): a key of its own, the node's record stays as it is |
| `check`     | `checkNodes` up to its loop over the failed nodes (`failover.go:119-162`) |
| `handle`    | `handleNodeFailure` up to its promotions (`:171-202`), for the next failed node |
| `promote`, `skip` | one `PromoteReplica` of its loop (`:213-225`), done or failed |
| `finish`    | the end of the tick |
| `route`     | whatever else the router does meanwhile, the watch and the rebalance that `handleNodeFailure` starts included |

`checkNodes` of `Metadata.Failover` is the run in which nothing fails and every commit reaches the cache before the next
call (`checkNodes_run`).

**Bugs**: `checkNodes` looks at the time in a node's record, which `RegisterNode` alone writes, so a node that sends
heartbeats times out all the same (`heartbeating_node_fails_over`). `handleNodeFailure` promotes without a look at the
replica, so a partition whose copies have both timed out changes hands with every tick (`dead_replica_promoted`), and
these are the only ones that go to a dead node (`dead_node_never_primary`).
-/

namespace RocksKV.Metadata

open Lib

structure Tick where
  now         : Int
  /-- The heartbeats that had succeeded before it. -/
  beats       : List (String × Int)
  /-- The addresses of the nodes that have timed out. -/
  dead        : List String
  /-- Those still to be handled. -/
  failedNodes : List String
  /-- The address of the node being handled, and its partitions that are left. -/
  addr        : String
  affected    : List UInt32

structure FailoverSys where
  store      : NodeStore
  /-- The heartbeat keys written, with their times. -/
  beats      : List (String × Int)
  nodeHealth : String → Option NodeHealth
  router     : RouterSys
  tick       : Option Tick

inductive FailoverAct
  | heartbeat (nodeID : String) (now : Int)
  | check (now : Int)
  /-- Whether `UpdateNodeStatus` and `GetNode` succeed. -/
  | handle (marked found : Bool)
  | promote (partitionID : UInt32)
  | skip (partitionID : UInt32)
  | finish
  | route (a : Act)

/-- A step of the tick itself. -/
def FailoverAct.ofTick : FailoverAct → Bool
  | .check _ | .handle _ _ | .promote _ | .skip _ | .finish => true
  | .heartbeat _ _ | .route _ => false

section
variable (hash : String → UInt32) (timeout : Int)

def FailoverSys.startTick (s : FailoverSys) (now : Int) : FailoverSys :=
  let nodes := s.store.listNodes .storage
  let (nodeHealth, failedNodes) := nodes.foldl (checkNode timeout now) (s.nodeHealth, [])
  { s with
    nodeHealth := nodeHealth
    tick := some
      { now := now, beats := s.beats, dead := (nodes.filter (timedOut timeout now s.nodeHealth)).map fun n => n.addr
        failedNodes := failedNodes, addr := "", affected := [] } }

def failoverStep (s : FailoverSys) : FailoverAct → Option FailoverSys
  | .heartbeat nodeID now =>
    if (s.store.getNode nodeID).isSome then some { s with beats := s.beats ++ [(nodeID, now)] } else none
  | .check now => if s.tick.isNone then some (s.startTick timeout now) else none
  | .handle marked found =>
    match s.tick with
    | none => none
    | some t =>
      match t.affected, t.failedNodes with
      | [], nodeID :: rest =>
        let store := if marked then s.store.updateNodeStatus nodeID .offline else s.store
        match found, store.getNode nodeID with
        | true, some node =>
          some { s with store, tick := some { t with
            failedNodes := rest, addr := node.addr, affected := affectedPartitions s.router.cache node.addr } }
        | _, _ => some { s with store, tick := some { t with failedNodes := rest } }
      | _, _ => none
  | .promote p =>
    match s.tick with
    | none => none
    | some t =>
      if p ∈ t.affected then
        (step hash s.router (.promoteReplica p)).map fun router =>
          { s with router, tick := some { t with affected := t.affected.erase p } }
      else none
  | .skip p =>
    match s.tick with
    | none => none
    | some t => if p ∈ t.affected then some { s with tick := some { t with affected := t.affected.erase p } } else none
  | .finish =>
    match s.tick with
    | some t => if t.affected = [] ∧ t.failedNodes = [] then some { s with tick := none } else none
    | none => none
  | .route a => (step hash s.router a).map fun router => { s with router }

end

variable {hash : String → UInt32} {timeout : Int} {s s' : FailoverSys}

/-! ## What each step does -/

theorem heartbeat_eq_some {nodeID : String} {now : Int} (h : failoverStep hash timeout s (.heartbeat nodeID now) = some s') :
    s' = { s with beats := s.beats ++ [(nodeID, now)] } := by
  simp only [failoverStep, Option.ite_none_right_eq_some] at h
  exact (Option.some.inj h.2).symm

theorem check_eq_some {now : Int} (h : failoverStep hash timeout s (.check now) = some s') :
    s.tick = none ∧ s' = s.startTick timeout now := by
  simp only [failoverStep, Option.ite_none_right_eq_some, Option.isNone_iff_eq_none] at h
  exact ⟨h.1, (Option.some.inj h.2).symm⟩

/-- **`handle`** takes the next failed node, marks it or not, and has its address and partitions or none. -/
theorem handle_eq_some {marked found : Bool} (h : failoverStep hash timeout s (.handle marked found) = some s') :
    ∃ t i rest t', s.tick = some t ∧ t.affected = [] ∧ t.failedNodes = i :: rest ∧ s'.tick = some t' ∧
      t'.now = t.now ∧ t'.beats = t.beats ∧ t'.dead = t.dead ∧ t'.failedNodes = rest ∧ s'.router = s.router ∧
      (s'.store = s.store ∨ s'.store = s.store.updateNodeStatus i .offline) ∧
      (t'.affected = [] ∧ (found = true → s'.store.getNode i = none) ∨ ∃ n, s'.store.getNode i = some n ∧
        t'.addr = n.addr ∧ t'.affected = affectedPartitions s.router.cache n.addr) := by
  simp only [failoverStep] at h
  split at h
  · cases h
  · rename_i t ht
    split at h
    · rename_i i rest hnone hfailed
      have hstore : (if marked then s.store.updateNodeStatus i .offline else s.store) = s.store ∨
          (if marked then s.store.updateNodeStatus i .offline else s.store) = s.store.updateNodeStatus i .offline := by
        cases marked
        · exact .inl rfl
        · exact .inr rfl
      split at h
      · rename_i n hn
        cases h
        exact ⟨t, i, rest, _, ht, hnone, hfailed, rfl, rfl, rfl, rfl, rfl, rfl, hstore, .inr ⟨n, hn, rfl, rfl⟩⟩
      · rename_i hno
        cases h
        refine ⟨t, i, rest, _, ht, hnone, hfailed, rfl, rfl, rfl, rfl, rfl, rfl, hstore, .inl ⟨hnone, ?_⟩⟩
        rintro rfl
        exact Option.eq_none_iff_forall_ne_some.2 fun n hn => hno n rfl hn
    · cases h

/-- **`promote`** commits the cached table with one partition promoted. -/
theorem promote_eq_some {p : UInt32} (h : failoverStep hash timeout s (.promote p) = some s') :
    ∃ t new, s.tick = some t ∧ p ∈ t.affected ∧ promoteReplica s.router.cache p = .ok new ∧ s' = { s with
      router := s.router.commit (.promote p) new, tick := some { t with affected := t.affected.erase p } } := by
  simp only [failoverStep] at h
  split at h
  · cases h
  · rename_i t ht
    split_ifs at h with hp
    obtain ⟨router, hr, rfl⟩ := Option.map_eq_some_iff.1 h
    obtain ⟨new, hnew, rfl⟩ := edit_eq_some hr
    exact ⟨t, new, ht, hp, hnew, rfl⟩

theorem skip_eq_some {p : UInt32} (h : failoverStep hash timeout s (.skip p) = some s') :
    ∃ t, s.tick = some t ∧ p ∈ t.affected ∧ s' = { s with tick := some { t with affected := t.affected.erase p } } := by
  simp only [failoverStep] at h
  split at h
  · cases h
  · rename_i t ht
    split_ifs at h with hp
    exact ⟨t, ht, hp, (Option.some.inj h).symm⟩

theorem finish_eq_some (h : failoverStep hash timeout s .finish = some s') : s' = { s with tick := none } := by
  simp only [failoverStep] at h
  split at h
  · split_ifs at h
    exact (Option.some.inj h).symm
  · cases h

/-- **A step of the tick** promotes one partition from the cached table, or leaves the routes alone. -/
theorem committed_of_tick {a : FailoverAct} (ha : a.ofTick = true) (h : failoverStep hash timeout s a = some s') :
    s'.router = s.router ∨
    ∃ p t new, a = .promote p ∧ s.tick = some t ∧ p ∈ t.affected ∧ promoteReplica s.router.cache p = .ok new ∧
      s'.router = s.router.commit (.promote p) new := by
  cases a with
  | heartbeat i now => cases ha
  | route a => cases ha
  | check now =>
    obtain ⟨-, rfl⟩ := check_eq_some h
    exact .inl rfl
  | handle marked found =>
    obtain ⟨-, -, -, -, -, -, -, -, -, -, -, -, hr, -⟩ := handle_eq_some h
    exact .inl hr
  | promote p =>
    obtain ⟨t, new, ht, hp, hnew, rfl⟩ := promote_eq_some h
    exact .inr ⟨p, t, new, rfl, ht, hp, hnew, rfl⟩
  | skip p =>
    obtain ⟨-, -, -, rfl⟩ := skip_eq_some h
    exact .inl rfl
  | finish =>
    obtain rfl := finish_eq_some h
    exact .inl rfl

/-! ## Promotions from an up-to-date cache -/

/-- The cached table has the entries now in etcd. -/
def FailoverSys.UpToDate (s : FailoverSys) : Prop := s.router.cache.partitions = s.router.committed.partitions

instance (s : FailoverSys) : Decidable s.UpToDate := inferInstanceAs (Decidable (_ = _))

theorem entry_of_upToDate (hf : s.UpToDate) (q : UInt32) : s.router.cache.entry q = s.router.committed.entry q := by
  rw [RouteTable.entry, hf]
  rfl

/-- A promotion from an up-to-date cache, on the table in etcd. -/
theorem entry_promotion {p : UInt32} {new : RouteTable} (hf : s.UpToDate)
    (hnew : promoteReplica s.router.cache p = .ok new) {q : UInt32} {e : PartitionInfo}
    (he : s.router.committed.entry q = some e) :
    (s.router.commit (.promote p) new).committed.entry q =
      some (if q = p then promoted e (copyRouting e) else copyRouting e) := by
  change new.entry q = _
  rw [entry_promoteReplica hnew q, entry_of_upToDate hf, he]
  split_ifs <;> rfl

/-! ## A tick in which nothing fails -/

/-- The watch has delivered everything. -/
structure FailoverSys.Quiet (s : FailoverSys) : Prop where
  watch : s.router.watch = []
  cache : s.router.cache = s.router.committed

/-- A promotion and its delivery. -/
theorem run_promoteNext (hq : s.Quiet) {t : Tick} (ht : s.tick = some t) {p : UInt32} (hp : p ∈ t.affected)
    (hsome : (s.router.committed.entry p).isSome) :
    ∃ s', run (failoverStep hash timeout) s [.promote p, .route .deliver] = some s' ∧ s'.Quiet ∧
      s'.router.committed = promoteNext s.router.committed p ∧ s'.store = s.store ∧ s'.nodeHealth = s.nodeHealth ∧
      s'.tick = some { t with affected := t.affected.erase p } := by
  obtain ⟨new, hnew⟩ : ∃ new, promoteReplica s.router.committed p = .ok new := editPartition_ok hsome
  have hpromote : failoverStep hash timeout s (.promote p) = some { s with
      router := s.router.commit (.promote p) new, tick := some { t with affected := t.affected.erase p } } := by
    simp only [failoverStep, ht, if_pos hp, step, hq.cache, hnew]
    rfl
  have hdeliver : failoverStep hash timeout { s with
      router := s.router.commit (.promote p) new, tick := some { t with affected := t.affected.erase p } }
      (.route .deliver) = some { s with
        router := { s.router.commit (.promote p) new with cache := updateRouteTable s.router.committed new, watch := [] }
        tick := some { t with affected := t.affected.erase p } } := by
    simp only [failoverStep, step, RouterSys.commit, hq.watch]
    rfl
  refine ⟨_, run_cons.2 ⟨_, hpromote, run_cons.2 ⟨_, hdeliver, rfl⟩⟩, ⟨rfl, rfl⟩, ?_, rfl, rfl, rfl⟩
  rw [promoteNext, hnew]
  rfl

/-- The promotions of one failed node, in any order. -/
theorem run_promotions {ps : List UInt32} (hq : s.Quiet) {t : Tick} (ht : s.tick = some t) (hperm : t.affected.Perm ps)
    (hall : ∀ p ∈ ps, (s.router.committed.entry p).isSome) :
    ∃ as s', run (failoverStep hash timeout) s as = some s' ∧ s'.Quiet ∧
      s'.router.committed = ps.foldl promoteNext s.router.committed ∧ s'.store = s.store ∧
      s'.nodeHealth = s.nodeHealth ∧ s'.tick = some { t with affected := [] } := by
  induction ps generalizing s t with
  | nil =>
    refine ⟨[], s, rfl, hq, rfl, rfl, rfl, ?_⟩
    rw [ht, ← hperm.eq_nil]
  | cons p ps ih =>
    have hsome := hall p List.mem_cons_self
    obtain ⟨s₁, hrun₁, hq₁, hc₁, hs₁, hh₁, ht₁⟩ :=
      @run_promoteNext hash timeout s hq t ht p (hperm.mem_iff.2 List.mem_cons_self) hsome
    have hperm₁ : (t.affected.erase p).Perm ps := by
      have := hperm.erase p
      rwa [List.erase_cons_head] at this
    have hall₁ : ∀ q ∈ ps, (s₁.router.committed.entry q).isSome := by
      intro q hqs
      rw [hc₁, entry_promoteNext hsome]
      split_ifs <;> simpa using hall q (List.mem_cons_of_mem _ hqs)
    obtain ⟨as, s', hrun, hq', hc, hs, hh, ht'⟩ := ih hq₁ ht₁ hperm₁ hall₁
    exact ⟨_, s', run_append hrun₁ hrun, hq', by rw [hc, hc₁, List.foldl_cons], hs.trans hs₁, hh.trans hh₁, ht'⟩

section
variable {order : String → List UInt32 → List UInt32} (horder : ∀ i l, (order i l).Perm l)
include horder

/-- The failed nodes, one after the other. -/
theorem run_failures {ids : List String} (hq : s.Quiet) {t : Tick} (ht : s.tick = some t) (hids : t.failedNodes = ids)
    (hnone : t.affected = []) :
    ∃ as s', run (failoverStep hash timeout) s as = some s' ∧ s'.Quiet ∧ s'.nodeHealth = s.nodeHealth ∧
      (s'.store, s'.router.committed) = ids.foldl (handleNodeFailure order) (s.store, s.router.committed) ∧
      ∃ t', s'.tick = some t' ∧ t'.failedNodes = [] ∧ t'.affected = [] := by
  induction ids generalizing s t with
  | nil => exact ⟨[], s, rfl, hq, rfl, rfl, t, ht, hids, hnone⟩
  | cons i ids ih =>
    rw [List.foldl_cons]
    cases hget : (s.store.updateNodeStatus i .offline).getNode i with
    | none =>
      have hstep : failoverStep hash timeout s (.handle true true) = some { s with
          store := s.store.updateNodeStatus i .offline, tick := some { t with failedNodes := ids } } := by
        simp only [failoverStep, ht, hnone, hids, if_true, hget]
      obtain ⟨as, s', hrun, hq', hh, heq, ht'⟩ := @ih { s with
          store := s.store.updateNodeStatus i .offline, tick := some { t with failedNodes := ids } }
        ⟨hq.watch, hq.cache⟩ _ rfl rfl hnone
      refine ⟨_, s', run_cons.2 ⟨_, hstep, hrun⟩, hq', hh, ?_, ht'⟩
      rw [heq, handleNodeFailure, hget]
    | some n =>
      have hstep : failoverStep hash timeout s (.handle true true) = some { s with
          store := s.store.updateNodeStatus i .offline
          tick := some { t with
            failedNodes := ids, addr := n.addr, affected := affectedPartitions s.router.cache n.addr } } := by
        simp only [failoverStep, ht, hnone, hids, if_true, hget]
      have hperm := horder i (affectedPartitions s.router.committed n.addr)
      obtain ⟨as, s₁, hrun₁, hq₁, hc₁, hs₁, hh₁, ht₁⟩ := @run_promotions hash timeout { s with
          store := s.store.updateNodeStatus i .offline
          tick := some { t with
            failedNodes := ids, addr := n.addr, affected := affectedPartitions s.router.cache n.addr } }
        (order i (affectedPartitions s.router.committed n.addr)) ⟨hq.watch, hq.cache⟩ _ rfl
        (by rw [hq.cache]; exact hperm.symm) (fun p hp => by
          obtain ⟨e, he, -⟩ := mem_affectedPartitions.1 (hperm.mem_iff.1 hp)
          exact Option.isSome_iff_exists.2 ⟨e, he⟩)
      obtain ⟨bs, s', hrun, hq', hh, heq, ht'⟩ := ih hq₁ ht₁ rfl rfl
      refine ⟨_, s', run_cons.2 ⟨_, hstep, run_append hrun₁ hrun⟩, hq', hh.trans hh₁, ?_, ht'⟩
      rw [heq, hs₁, hc₁, handleNodeFailure, hget]

/-- **`checkNodes` is a run of the system**, with every commit delivered before the next call. -/
theorem checkNodes_run (hq : s.Quiet) (hs : s.tick = none) (now : Int) :
    ∃ as s', run (failoverStep hash timeout) s as = some s' ∧ s'.Quiet ∧ s'.tick = none ∧
      (s'.nodeHealth, s'.store, s'.router.committed) =
        checkNodes order timeout now s.store s.nodeHealth s.router.committed := by
  have hstep : failoverStep hash timeout s (.check now) = some (s.startTick timeout now) := by
    simp only [failoverStep, hs, Option.isNone_none, if_true]
  obtain ⟨as, s₁, hrun, hq₁, hh, heq, t, ht, hfailed, hnone⟩ := @run_failures hash timeout (s.startTick timeout now) order
    horder _ ⟨hq.watch, hq.cache⟩ _ rfl rfl rfl
  have hfinish : failoverStep hash timeout s₁ .finish = some { s₁ with tick := none } := by
    simp only [failoverStep, ht, hnone, hfailed, and_self, if_true]
  have hall : run (failoverStep hash timeout) s (.check now :: (as ++ [.finish])) = some { s₁ with tick := none } :=
    run_cons.2 ⟨_, hstep, run_append hrun (run_cons.2 ⟨_, hfinish, rfl⟩)⟩
  refine ⟨_, _, hall, ⟨hq₁.watch, hq₁.cache⟩, rfl, ?_⟩
  show (s₁.nodeHealth, s₁.store, s₁.router.committed) = _
  rw [hh, heq]
  rfl

end

/-! ## Heartbeats -/

/-- A heartbeat of the node has succeeded within the timeout before `now`. -/
def Beating (timeout now : Int) (beats : List (String × Int)) (nodeID : String) : Prop :=
  ∃ b ∈ beats, b.1 = nodeID ∧ b.2 ≤ now ∧ now - b.2 ≤ timeout

instance (timeout now : Int) (beats : List (String × Int)) (nodeID : String) : Decidable (Beating timeout now beats nodeID) :=
  inferInstanceAs (Decidable (∃ b ∈ beats, b.1 = nodeID ∧ b.2 ≤ now ∧ now - b.2 ≤ timeout))

/-- Nodes that send heartbeats keep their status, and the partitions they are primary of. -/
def Spares (timeout : Int) (s s' : FailoverSys) : Prop :=
  ∀ t ∈ s.tick, ∀ m ∈ s.store.listNodes .storage, Beating timeout t.now t.beats m.id →
    s'.store.getNode m.id = some m ∧
    ∀ q e, s.router.committed.entry q = some e → e.primary = m.addr →
      ∃ e', s'.router.committed.entry q = some e' ∧ e'.primary = m.addr

/-- A tick begins where every node that sends heartbeats has been registered within the timeout, at an address of its
own; a partition is promoted from an up-to-date cache in which the failed node still is its primary. -/
def Registered (timeout : Int) (s : FailoverSys) : FailoverAct → Prop
  | .check now => ∀ m ∈ s.store.listNodes .storage, Beating timeout now s.beats m.id →
      now - m.lastHeartbeat ≤ timeout ∧ ∀ n ∈ s.store.listNodes .storage, n.addr = m.addr → n.id = m.id
  | .promote p => s.UpToDate ∧ ∀ t ∈ s.tick, ∀ e ∈ s.router.cache.entry p, e.primary = t.addr
  | _ => True

instance (timeout : Int) (s : FailoverSys) : ∀ a, Decidable (Registered timeout s a)
  | .check now => inferInstanceAs (Decidable (∀ m ∈ s.store.listNodes .storage, Beating timeout now s.beats m.id →
      now - m.lastHeartbeat ≤ timeout ∧ ∀ n ∈ s.store.listNodes .storage, n.addr = m.addr → n.id = m.id))
  | .promote p => inferInstanceAs (Decidable (s.UpToDate ∧ ∀ t ∈ s.tick, ∀ e ∈ s.router.cache.entry p, e.primary = t.addr))
  | .heartbeat _ _ | .handle _ _ | .skip _ | .finish | .route _ => isTrue trivial

/-- What a tick in progress has to do does not concern a node that sends heartbeats. -/
structure Sparing (store : NodeStore) (t : Tick) (m : NodeRecord) : Prop where
  failed : m.id ∉ t.failedNodes
  addrs  : ∀ i ∈ t.failedNodes, ∀ n, store.getNode i = some n → n.addr ≠ m.addr
  addr   : t.affected ≠ [] → t.addr ≠ m.addr

def SparingAll (timeout : Int) (s : FailoverSys) : Prop :=
  ∀ t ∈ s.tick, ∀ m ∈ s.store.listNodes .storage, Beating timeout t.now t.beats m.id → Sparing s.store t m

theorem lastHeartbeat_le_lastSeen (nodeHealth : String → Option NodeHealth) (n : NodeRecord) :
    n.lastHeartbeat ≤ lastSeen nodeHealth n := by
  unfold lastSeen
  split
  · exact le_refl _
  · exact le_max_right _ _

theorem sparing_startTick {now : Int} (hc : Registered timeout s (.check now)) :
    SparingAll timeout (s.startTick timeout now) := by
  rintro t ht m hm hbeat
  cases ht
  obtain ⟨hrecord, haddr⟩ := hc m hm hbeat
  have hlive : timedOut timeout now s.nodeHealth m = false := by
    have hseen := lastHeartbeat_le_lastSeen s.nodeHealth m
    rw [timedOut, decide_eq_false_iff_not]
    omega
  -- a failed node is another one
  have hother : ∀ n ∈ s.store.listNodes .storage, timedOut timeout now s.nodeHealth n = true → n.id ≠ m.id := by
    intro n hn ht hnm
    have := List.inj_on_of_nodup_map s.store.distinct (NodeStore.mem_listNodes.1 hn).1 (NodeStore.mem_listNodes.1 hm).1 hnm
    rw [this, hlive] at ht
    cases ht
  refine ⟨fun hfailed => ?_, ?_, fun h => absurd rfl h⟩
  · obtain ⟨n, hn, ht, hnm⟩ := mem_failedNodes.1 hfailed
    exact hother n hn ht hnm
  · exact forall_failedNodes.2 fun n hn ht hnm => hother n hn ht (haddr n hn hnm)

/-- A record of the store with one status changed is a record of the old one, but for the status. -/
theorem mem_updateNodeStatus {store : NodeStore} {i : String} {status : NodeStatus} {m : NodeRecord}
    (h : m ∈ (store.updateNodeStatus i status).listNodes .storage) :
    ∃ m' ∈ store.listNodes .storage, m'.id = m.id ∧ m'.addr = m.addr := by
  obtain ⟨hm, hrole⟩ := NodeStore.mem_listNodes.1 h
  obtain ⟨m', hm', rfl⟩ := List.mem_map.1 hm
  refine ⟨m', NodeStore.mem_listNodes.2 ⟨hm', ?_⟩, NodeStore.id_setStatus.symm, NodeStore.addr_setStatus.symm⟩
  rw [← hrole, NodeStore.setStatus]
  split_ifs <;> rfl

theorem sparing_handle {marked found : Bool} (hi : SparingAll timeout s)
    (h : failoverStep hash timeout s (.handle marked found) = some s') : SparingAll timeout s' := by
  obtain ⟨t, i, rest, t', ht, -, hfailed, ht', hnow, hbeats, -, hrest, -, hstore, haddr⟩ := handle_eq_some h
  -- ids and addresses are those of the old store
  have hrecord : ∀ m ∈ s'.store.listNodes .storage, ∃ m' ∈ s.store.listNodes .storage, m'.id = m.id ∧ m'.addr = m.addr := by
    intro m hm
    rcases hstore with hs | hs <;> rw [hs] at hm
    · exact ⟨m, hm, rfl, rfl⟩
    · exact mem_updateNodeStatus hm
  have hget : ∀ j n, s'.store.getNode j = some n → ∃ n', s.store.getNode j = some n' ∧ n'.addr = n.addr := by
    intro j n hn
    rcases hstore with hs | hs <;> rw [hs] at hn
    · exact ⟨n, hn, rfl⟩
    · rw [NodeStore.getNode_updateNodeStatus] at hn
      obtain ⟨n', hn', rfl⟩ := Option.map_eq_some_iff.1 hn
      exact ⟨n', hn', NodeStore.addr_setStatus.symm⟩
  intro u hu m hm hbeat
  rw [ht', Option.mem_some_iff] at hu
  subst hu
  obtain ⟨m', hm', hid, hma⟩ := hrecord m hm
  rw [hnow, hbeats, ← hid] at hbeat
  have hold := hi t ht m' hm' hbeat
  refine ⟨?_, fun j hj n hn => ?_, fun hne => ?_⟩
  · rw [hrest, ← hid]
    exact fun hin => hold.failed (hfailed ▸ List.mem_cons_of_mem _ hin)
  · obtain ⟨n', hn', hna⟩ := hget j n hn
    rw [← hna, ← hma]
    exact hold.addrs j (hfailed ▸ List.mem_cons_of_mem _ (hrest ▸ hj)) n' hn'
  · rcases haddr with ⟨hnone, -⟩ | ⟨n, hn, hta, -⟩
    · exact absurd hnone hne
    · obtain ⟨n', hn', hna⟩ := hget i n hn
      rw [hta, ← hna, ← hma]
      exact hold.addrs i (hfailed ▸ List.mem_cons_self) n' hn'

theorem Sparing.erase {store : NodeStore} {t : Tick} {m : NodeRecord} (h : Sparing store t m) {p : UInt32}
    (hp : p ∈ t.affected) : Sparing store { t with affected := t.affected.erase p } m :=
  ⟨h.failed, h.addrs, fun _ => h.addr (List.ne_nil_of_mem hp)⟩

theorem sparing_step {a : FailoverAct} (hi : SparingAll timeout s) (hc : Registered timeout s a)
    (h : failoverStep hash timeout s a = some s') : SparingAll timeout s' := by
  cases a with
  | heartbeat i now =>
    obtain rfl := heartbeat_eq_some h
    exact hi
  | check now =>
    obtain ⟨-, rfl⟩ := check_eq_some h
    exact sparing_startTick hc
  | handle marked found => exact sparing_handle hi h
  | promote p =>
    obtain ⟨t, new, ht, hp, -, rfl⟩ := promote_eq_some h
    intro u hu m hm hbeat
    cases hu
    exact (hi t ht m hm hbeat).erase hp
  | skip p =>
    obtain ⟨t, ht, hp, rfl⟩ := skip_eq_some h
    intro u hu m hm hbeat
    cases hu
    exact (hi t ht m hm hbeat).erase hp
  | finish =>
    obtain rfl := finish_eq_some h
    exact nofun
  | route a =>
    obtain ⟨router, -, rfl⟩ := Option.map_eq_some_iff.1 h
    exact hi

/-- The store changes where a failed node is handled, and in that node's record. -/
theorem getNode_of_tick {a : FailoverAct} (ha : a.ofTick = true) (h : failoverStep hash timeout s a = some s') {t : Tick}
    (ht : s.tick = some t) {m : NodeRecord} (hm : m ∈ s.store.records) (hfailed : m.id ∉ t.failedNodes) :
    s'.store.getNode m.id = some m := by
  have hget := NodeStore.getNode_of_mem hm
  cases a with
  | heartbeat i now => cases ha
  | route a => cases ha
  | check now =>
    obtain ⟨hnone, -⟩ := check_eq_some h
    rw [ht] at hnone
    cases hnone
  | handle marked found =>
    obtain ⟨t₀, i, rest, -, ht₀, -, hids, -, -, -, -, -, -, hstore, -⟩ := handle_eq_some h
    rw [ht] at ht₀
    cases ht₀
    rcases hstore with hs | hs
    · rw [hs, hget]
    · have hne : m.id ≠ i := fun hmi => hfailed (hids ▸ hmi ▸ List.mem_cons_self)
      rw [hs, NodeStore.getNode_updateNodeStatus, hget, Option.map_some, NodeStore.setStatus, if_neg hne]
  | promote p =>
    obtain ⟨-, -, -, -, -, rfl⟩ := promote_eq_some h
    exact hget
  | skip p =>
    obtain ⟨-, -, -, rfl⟩ := skip_eq_some h
    exact hget
  | finish =>
    obtain rfl := finish_eq_some h
    exact hget

theorem spares_step {a : FailoverAct} (hi : SparingAll timeout s) (hc : Registered timeout s a) (ha : a.ofTick = true)
    (h : failoverStep hash timeout s a = some s') : Spares timeout s s' := by
  intro t ht m hm hbeat
  have hold := hi t ht m hm hbeat
  refine ⟨getNode_of_tick ha h ht (NodeStore.mem_listNodes.1 hm).1 hold.failed, fun q e he hprimary => ?_⟩
  rcases committed_of_tick ha h with hr | ⟨p, t₀, new, rfl, ht₀, hp, hnew, hr⟩
  · exact ⟨e, by rw [hr, he], hprimary⟩
  · rw [Option.mem_def.1 ht] at ht₀
    cases ht₀
    obtain ⟨hf, hstill⟩ := hc
    rw [hr, entry_promotion hf hnew he]
    refine ⟨_, rfl, ?_⟩
    split_ifs with hqp
    · -- it would be the failed node's partition
      subst hqp
      have hcached : e ∈ s.router.cache.entry q := by rw [entry_of_upToDate hf, he]; rfl
      exact absurd ((hstill t ht e hcached).symm.trans hprimary) (hold.addr (List.ne_nil_of_mem hp))
    · exact hprimary

/-- **Nodes that send heartbeats are not failed over**: in every run whose ticks find them registered within the timeout
and promote partitions of the failed node only, no step of a tick changes their status or takes a partition from them. -/
theorem heartbeating_nodes_spared {as : List FailoverAct} (hs : s.tick = none)
    (hc : Along (failoverStep hash timeout) (Registered timeout) s as) :
    Along (failoverStep hash timeout)
      (fun s a => a.ofTick = true → ∀ s', failoverStep hash timeout s a = some s' → Spares timeout s s') s as := by
  have hstart : SparingAll timeout s := by
    intro t ht
    rw [hs] at ht
    cases ht
  exact along_of_inv (fun _ _ _ hi hc h => sparing_step hi hc h)
    (fun _ _ hi hc ha _ hstep => spares_step hi hc ha hstep) hstart hc

/-- The two nodes and partitions of a tick, before any. -/
def twoNodeCluster : FailoverSys :=
  { store := twoNodes, beats := [], nodeHealth := fun _ => none, router := .start twoPartitions, tick := none }

/-- `b` sends a heartbeat, `a` does not. -/
theorem heartbeating_nodes_spared_two :
    ∃ s', run (failoverStep hashKey 500) twoNodeCluster
        [.heartbeat "2" 950, .check 1000, .handle true true, .promote 0, .route .deliver, .finish] = some s' ∧
      Along (failoverStep hashKey 500)
        (fun s a => a.ofTick = true → ∀ s', failoverStep hashKey 500 s a = some s' → Spares 500 s s') twoNodeCluster
        [.heartbeat "2" 950, .check 1000, .handle true true, .promote 0, .route .deliver, .finish] :=
  ⟨_, rfl, heartbeating_nodes_spared rfl (by decide +kernel)⟩

/-- **Bug**: `b` has sent a heartbeat 50 before the tick and is marked offline; its partition goes to `a`, which is down. -/
theorem heartbeating_node_fails_over :
    ∃ s', run (failoverStep hashKey 500) twoNodeCluster
        [.heartbeat "2" 1950, .check 2000, .handle true true, .promote 0, .route .deliver, .handle true true, .promote 1] =
          some s' ∧
      Beating 500 2000 [("2", 1950)] "2" ∧
      (s'.store.getNode "2").map (fun n => (n.addr, n.status)) = some ("b", .offline) ∧
      (twoPartitions.entry 1).map (fun e => e.primary) = some "b" ∧
      (s'.router.committed.entry 1).map (fun e => e.primary) = some "a" :=
  ⟨_, rfl, by decide, rfl, rfl, rfl⟩

/-! ## Dead replicas -/

/-- The step makes no node that has timed out in this tick the primary of partition `q`; with both its copies timed out,
`q` keeps them and its epoch. -/
def KeepsOffTheDead (q : UInt32) (s s' : FailoverSys) : Prop :=
  ∀ t ∈ s.tick, ∀ e, s.router.committed.entry q = some e → ∃ e', s'.router.committed.entry q = some e' ∧
    (e'.primary ≠ e.primary → e'.primary ∉ t.dead) ∧
    (e.primary ∈ t.dead → e.replica ∈ t.dead → e'.pair = e.pair ∧ e'.epoch = e.epoch)

/-- Whatever the step, if it is the tick's. -/
def TicksKeepOff (hash : String → UInt32) (timeout : Int) (q : UInt32) (s : FailoverSys) (a : FailoverAct) : Prop :=
  a.ofTick = true → ∀ s', failoverStep hash timeout s a = some s' → KeepsOffTheDead q s s'

/-- The addresses of the nodes that a tick at `now` finds timed out. -/
def FailoverSys.down (timeout : Int) (s : FailoverSys) (now : Int) : List String :=
  ((s.store.listNodes .storage).filter (timedOut timeout now s.nodeHealth)).map fun n => n.addr

/-- A tick begins where one of the copies of partition `q` is not on a node that has timed out. -/
def HasLiveCopy (timeout : Int) (q : UInt32) (s : FailoverSys) : FailoverAct → Prop
  | .check now => ∀ e ∈ s.router.committed.entry q, e.primary ∈ s.down timeout now → e.replica ∉ s.down timeout now
  | _ => True

/-- A tick finds every commit in the cache, and is alone in making commits. -/
def TickAlone (s : FailoverSys) : FailoverAct → Prop
  | .handle _ _ | .promote _ => s.UpToDate
  | .route a => s.tick.isSome → (a.source s.router).isNone
  | _ => True

/-- The tick's calls get what they ask for. Whether the node could be marked makes no difference. -/
def FailoverAct.succeeds : FailoverAct → Bool
  | .handle _ found => found
  | .skip _ => false
  | .heartbeat _ _ | .check _ | .promote _ | .finish | .route _ => true

instance (timeout : Int) (q : UInt32) (s : FailoverSys) : ∀ a, Decidable (HasLiveCopy timeout q s a)
  | .check now => inferInstanceAs (Decidable (∀ e ∈ s.router.committed.entry q, e.primary ∈ s.down timeout now →
      e.replica ∉ s.down timeout now))
  | .heartbeat _ _ | .handle _ _ | .promote _ | .skip _ | .finish | .route _ => isTrue trivial

instance (s : FailoverSys) : ∀ a, Decidable (TickAlone s a)
  | .handle _ _ | .promote _ => inferInstanceAs (Decidable s.UpToDate)
  | .route a => inferInstanceAs (Decidable (s.tick.isSome → (a.source s.router).isNone))
  | .heartbeat _ _ | .check _ | .skip _ | .finish => isTrue trivial

/-- A step of the router that commits nothing. -/
theorem committed_of_source_none {r r' : RouterSys} {a : Act} (ha : a.source r = none) (h : step hash r a = some r') :
    r'.committed = r.committed := by
  obtain ⟨op, snapshot, t, rs, hsrc, -, -⟩ | ⟨rs, rfl⟩ | ⟨t, rest, -, -, rfl⟩ := step_cases h
  · rw [ha] at hsrc
    cases hsrc
  · rfl
  · rfl

/-- Marking a node leaves its address. -/
theorem addr_of_handle {i : String} {store : NodeStore}
    (hstore : store = s.store ∨ store = s.store.updateNodeStatus i .offline) (j : String) :
    (store.getNode j).map (fun n => n.addr) = (s.store.getNode j).map fun n => n.addr := by
  rcases hstore with rfl | rfl
  · rfl
  · rw [NodeStore.getNode_updateNodeStatus, Option.map_map]
    congr 1
    funext n
    exact NodeStore.addr_setStatus

/-- **One of the copies of `q` is alive** throughout the tick, and as long as `q` is to be promoted it is the replica. -/
structure AliveInv (q : UInt32) (s : FailoverSys) (t : Tick) : Prop where
  live   : ∀ e, s.router.committed.entry q = some e → e.primary ∈ t.dead → e.replica ∉ t.dead
  failed : ∀ i ∈ t.failedNodes, ∀ n, s.store.getNode i = some n → n.addr ∈ t.dead
  next   : q ∈ t.affected → ∀ e, s.router.committed.entry q = some e → e.primary ∈ t.dead
  once   : t.affected.Nodup

theorem aliveInv_startTick {q : UInt32} {now : Int} (hc : HasLiveCopy timeout q s (.check now)) {t : Tick}
    (ht : (s.startTick timeout now).tick = some t) : AliveInv q (s.startTick timeout now) t := by
  cases ht
  refine ⟨fun e he => hc e he, ?_, fun h => absurd h List.not_mem_nil, List.nodup_nil⟩
  exact forall_failedNodes.2 fun n hn hout => List.mem_map.2 ⟨n, List.mem_filter.2 ⟨hn, hout⟩, rfl⟩

theorem aliveInv_handle {q : UInt32} {marked found : Bool} (hi : ∀ t ∈ s.tick, AliveInv q s t) (hf : s.UpToDate)
    (h : failoverStep hash timeout s (.handle marked found) = some s') : ∀ t ∈ s'.tick, AliveInv q s' t := by
  obtain ⟨t, i, rest, t', ht, -, hfailed, ht', -, -, hdead, hrest, hr, hstore, haffected⟩ := handle_eq_some h
  have hold := hi t ht
  -- the next failed nodes are among those of the tick, at their addresses
  have hdown : ∀ j ∈ i :: rest, ∀ n, s'.store.getNode j = some n → n.addr ∈ t.dead := by
    intro j hj n hn
    have haddr := addr_of_handle hstore j
    rw [hn] at haddr
    obtain ⟨m, hm, hmn⟩ := Option.map_eq_some_iff.1 haddr.symm
    have hin := hold.failed j (hfailed ▸ hj) m hm
    rwa [show m.addr = n.addr from hmn] at hin
  intro u hu
  rw [ht', Option.mem_some_iff] at hu
  subst hu
  refine ⟨?_, fun j hj n hn => ?_, fun hq e he => ?_, ?_⟩
  · rw [hr, hdead]
    exact hold.live
  · rw [hdead]
    exact hdown j (List.mem_cons_of_mem _ (hrest ▸ hj)) n hn
  · rcases haffected with ⟨hnone, -⟩ | ⟨n, hn, -, haff⟩
    · rw [hnone] at hq
      cases hq
    · rw [haff] at hq
      obtain ⟨x, hx, hprimary⟩ := mem_affectedPartitions.1 hq
      rw [entry_of_upToDate hf, ← hr, he] at hx
      cases hx
      rw [hprimary, hdead]
      exact hdown i List.mem_cons_self n hn
  · rcases haffected with ⟨hnone, -⟩ | ⟨n, -, -, haff⟩
    · rw [hnone]
      exact List.nodup_nil
    · rw [haff]
      exact nodup_affectedPartitions _ _

/-- A promotion swaps the pair of `q`, once, or leaves it. -/
theorem aliveInv_promote {q p : UInt32} {t : Tick} {new : RouteTable} (hi : AliveInv q s t) (hf : s.UpToDate)
    (hnew : promoteReplica s.router.cache p = .ok new) :
    AliveInv q { s with router := s.router.commit (.promote p) new, tick := some { t with affected := t.affected.erase p } }
      { t with affected := t.affected.erase p } := by
  -- the entry of `q` before the promotion
  have hentry : ∀ e', (s.router.commit (.promote p) new).committed.entry q = some e' →
      ∃ e, s.router.committed.entry q = some e ∧ e' = if q = p then promoted e (copyRouting e) else copyRouting e := by
    intro e' he'
    cases he : s.router.committed.entry q with
    | none =>
      have hnone : new.entry q = none := by
        rw [entry_promoteReplica hnew q, entry_of_upToDate hf, he]
        split_ifs <;> rfl
      cases hnone.symm.trans he'
    | some e =>
      rw [entry_promotion hf hnew he] at he'
      exact ⟨e, rfl, (Option.some.inj he').symm⟩
  refine ⟨fun e' he' => ?_, hi.failed, fun hq e' he' => ?_, hi.once.erase p⟩
  · obtain ⟨e, he, rfl⟩ := hentry e' he'
    split_ifs
    · exact fun hreplica hprimary => hi.live e he hprimary hreplica
    · exact hi.live e he
  · obtain ⟨e, he, rfl⟩ := hentry e' he'
    obtain ⟨hne, hq⟩ := (hi.once.mem_erase_iff).1 hq
    rw [if_neg hne]
    exact hi.next hq e he

theorem aliveInv_step {q : UInt32} {a : FailoverAct} (hi : ∀ t ∈ s.tick, AliveInv q s t)
    (hc : TickAlone s a ∧ HasLiveCopy timeout q s a) (h : failoverStep hash timeout s a = some s') :
    ∀ t ∈ s'.tick, AliveInv q s' t := by
  cases a with
  | heartbeat i now =>
    obtain rfl := heartbeat_eq_some h
    exact fun t ht => ⟨(hi t ht).live, (hi t ht).failed, (hi t ht).next, (hi t ht).once⟩
  | check now =>
    obtain ⟨-, rfl⟩ := check_eq_some h
    exact fun t ht => aliveInv_startTick hc.2 ht
  | handle marked found => exact aliveInv_handle hi hc.1 h
  | promote p =>
    obtain ⟨t, new, ht, -, hnew, rfl⟩ := promote_eq_some h
    rintro u ⟨⟩
    exact aliveInv_promote (hi t ht) hc.1 hnew
  | skip p =>
    obtain ⟨t, ht, -, rfl⟩ := skip_eq_some h
    rintro u ⟨⟩
    have hold := hi t ht
    exact ⟨hold.live, hold.failed, fun hq => hold.next (List.mem_of_mem_erase hq), hold.once.erase p⟩
  | finish =>
    obtain rfl := finish_eq_some h
    exact nofun
  | route a =>
    obtain ⟨router, hr, rfl⟩ := Option.map_eq_some_iff.1 h
    intro t ht
    have hsame := committed_of_source_none (Option.isNone_iff_eq_none.1 (hc.1 (Option.isSome_of_mem ht))) hr
    have hold := hi t ht
    exact ⟨by rw [hsame]; exact hold.live, hold.failed, by rw [hsame]; exact hold.next, hold.once⟩

theorem keepsOff_of_aliveInv {q : UInt32} {a : FailoverAct} (hi : ∀ t ∈ s.tick, AliveInv q s t) (hc : TickAlone s a) :
    TicksKeepOff hash timeout q s a := by
  intro ha s' h t ht e he
  rcases committed_of_tick ha h with hr | ⟨p, t₀, new, rfl, ht₀, hp, hnew, hr⟩
  · exact ⟨e, by rw [hr, he], fun hne => absurd rfl hne, fun _ _ => ⟨rfl, rfl⟩⟩
  · rw [Option.mem_def.1 ht] at ht₀
    cases ht₀
    rw [hr, entry_promotion hc hnew he]
    refine ⟨_, rfl, ?_⟩
    split_ifs with hqp
    · subst hqp
      have hprimary := (hi t ht).next hp e he
      have hreplica := (hi t ht).live e he hprimary
      exact ⟨fun _ => hreplica, fun _ hdead => absurd hdead hreplica⟩
    · exact ⟨fun hne => absurd rfl hne, fun _ _ => ⟨rfl, rfl⟩⟩

/-- **Both copies of `q` are down, and the tick is still to promote it**: it is among the partitions left, or its primary
among the nodes left. -/
def Pending (q : UInt32) (s : FailoverSys) : Prop :=
  ∃ t e, s.tick = some t ∧ s.router.committed.entry q = some e ∧ e.primary ∈ t.dead ∧ e.replica ∈ t.dead ∧
    (q ∈ t.affected ∨ ∃ i ∈ t.failedNodes, (s.store.getNode i).map (fun n => n.addr) = some e.primary)

theorem pending_startTick {q : UInt32} {now : Int} (hc : ¬ HasLiveCopy timeout q s (.check now)) :
    Pending q (s.startTick timeout now) := by
  simp only [HasLiveCopy, not_forall, not_not] at hc
  obtain ⟨e, he, hprimary, hreplica⟩ := hc
  refine ⟨_, e, rfl, he, hprimary, hreplica, .inr ?_⟩
  obtain ⟨n, hn, hn'⟩ := List.mem_map.1 hprimary
  obtain ⟨hlisted, hout⟩ := List.mem_filter.1 hn
  refine ⟨n.id, mem_failedNodes.2 ⟨n, hlisted, hout, rfl⟩, ?_⟩
  show (s.store.getNode n.id).map _ = _
  rw [NodeStore.getNode_of_listed hlisted, ← hn']
  rfl

theorem pending_handle {q : UInt32} {marked : Bool} (hp : Pending q s) (hf : s.UpToDate)
    (h : failoverStep hash timeout s (.handle marked true) = some s') : Pending q s' := by
  obtain ⟨t, i, rest, t', ht, hnone, hfailed, ht', -, -, hdead, hrest, hr, hstore, haffected⟩ := handle_eq_some h
  obtain ⟨u, e, hu, he, hprimary, hreplica, hleft⟩ := hp
  rw [ht] at hu
  cases hu
  refine ⟨t', e, ht', by rw [hr, he], hdead ▸ hprimary, hdead ▸ hreplica, ?_⟩
  rcases hleft with hq | ⟨j, hj, haddr⟩
  · rw [hnone] at hq
    cases hq
  · rw [← addr_of_handle hstore] at haddr
    rcases List.mem_cons.1 (hfailed ▸ hj) with rfl | hj
    · -- its partitions are next
      rcases haffected with ⟨-, hno⟩ | ⟨n, hn, -, haff⟩
      · rw [hno rfl] at haddr
        cases haddr
      · rw [hn] at haddr
        have hprim : n.addr = e.primary := Option.some.inj haddr
        refine .inl ?_
        rw [haff, hprim]
        exact mem_affectedPartitions.2 ⟨e, by rw [entry_of_upToDate hf, he], rfl⟩
    · exact .inr ⟨j, hrest ▸ hj, haddr⟩

theorem pending_promote {q p : UInt32} (hp : Pending q s) (hf : s.UpToDate)
    (hkeeps : TicksKeepOff hash timeout q s (.promote p)) (h : failoverStep hash timeout s (.promote p) = some s') :
    Pending q s' := by
  obtain ⟨u, e, hu, he, hprimary, hreplica, hleft⟩ := hp
  obtain ⟨e', he', -, hsame⟩ := hkeeps rfl s' h u hu e he
  obtain ⟨hpair, hepoch⟩ := hsame hprimary hreplica
  obtain ⟨t, new, ht, -, hnew, rfl⟩ := promote_eq_some h
  rw [ht] at hu
  cases hu
  rw [entry_promotion hf hnew he] at he'
  have hne : q ≠ p := by
    -- the promotion of `q` would have moved its epoch
    rintro rfl
    rw [if_pos rfl] at he'
    cases he'
    have hmoved : e.epoch + 1 = e.epoch := hepoch
    simp at hmoved
  rw [if_neg hne] at he'
  cases he'
  refine ⟨_, copyRouting e, rfl, ?_, hprimary, hreplica, ?_⟩
  · rw [entry_promotion hf hnew he, if_neg hne]
  · exact hleft.imp_left fun hq => (List.mem_erase_of_ne hne).2 hq

theorem pending_step {q : UInt32} {a : FailoverAct} (hp : Pending q s)
    (hc : (TickAlone s a ∧ TicksKeepOff hash timeout q s a) ∧ a.succeeds = true)
    (h : failoverStep hash timeout s a = some s') : Pending q s' := by
  cases a with
  | heartbeat i now =>
    obtain rfl := heartbeat_eq_some h
    exact hp
  | check now =>
    obtain ⟨hnone, -⟩ := check_eq_some h
    obtain ⟨t, e, ht, -⟩ := hp
    rw [hnone] at ht
    cases ht
  | handle marked found =>
    obtain rfl : found = true := hc.2
    exact pending_handle hp hc.1.1 h
  | promote p => exact pending_promote hp hc.1.1 hc.1.2 h
  | skip p => cases hc.2
  | finish =>
    obtain ⟨t, e, ht, he, -, -, hleft⟩ := hp
    simp only [failoverStep, ht] at h
    split_ifs at h with hdone
    rw [hdone.1, hdone.2] at hleft
    simp at hleft
  | route a =>
    obtain ⟨router, hr, rfl⟩ := Option.map_eq_some_iff.1 h
    obtain ⟨t, e, ht, he, hrest⟩ := hp
    have hsame := committed_of_source_none (Option.isNone_iff_eq_none.1 (hc.1.1 (Option.isSome_of_mem ht))) hr
    exact ⟨t, e, ht, by rw [hsame]; exact he, hrest⟩

/-- **A dead node is never made primary of a partition, exactly where every tick finds one of its copies alive.** In every
run whose ticks find each commit in the cache and are alone in committing, no step of a tick gives partition `q` a primary
that has timed out, or moves it with both copies down, if at the beginning of each tick one copy is not on a node that has
timed out; and only then, where the ticks are finished and their calls succeed. -/
theorem dead_node_never_primary (q : UInt32) {as : List FailoverAct} (hs : s.tick = none)
    (halone : Along (failoverStep hash timeout) TickAlone s as) :
    (Along (failoverStep hash timeout) (HasLiveCopy timeout q) s as →
      Along (failoverStep hash timeout) (TicksKeepOff hash timeout q) s as) ∧
    ∀ s', run (failoverStep hash timeout) s as = some s' → s'.tick = none → (∀ a ∈ as, a.succeeds = true) →
      Along (failoverStep hash timeout) (TicksKeepOff hash timeout q) s as →
      Along (failoverStep hash timeout) (HasLiveCopy timeout q) s as := by
  constructor
  · intro hlive
    have hstart : ∀ t ∈ s.tick, AliveInv q s t := by simp [hs]
    exact along_of_inv (fun _ _ _ hi hc h => aliveInv_step hi hc h) (fun _ _ hi hc => keepsOff_of_aliveInv hi hc.1)
      hstart (halone.and hlive)
  · intro s' hrun hdone hsucceeds hkeeps
    rcases along_or_exists (HasLiveCopy timeout q) hrun with hlive | ⟨bs, a, cs, u, v, rfl, hbefore, hnot, hstep, hafter⟩
    · exact hlive
    · -- a tick has begun with both copies down: it cannot have come to its end
      cases a with
      | check now =>
        obtain ⟨-, rfl⟩ := check_eq_some hstep
        have hall : Along (failoverStep hash timeout) (fun _ a => a.succeeds = true) s (bs ++ .check now :: cs) :=
          along_of_forall_mem fun a ha _ => hsucceeds a ha
        have hlater := (((halone.and hkeeps).and hall).after hbefore).2 _ hstep
        obtain ⟨t, e, ht, -⟩ := run_inv_along (P := Pending q) (fun _ _ _ hp hc h => pending_step hp hc h)
          (pending_startTick hnot) hlater hafter
        rw [hdone] at ht
        cases ht
      | heartbeat | handle | promote | skip | finish | route => exact absurd trivial hnot

/-- `a` fails, and `b` takes over. -/
def oneFailure : List FailoverAct := [.check 1000, .handle true true, .promote 0, .route .deliver, .finish]

theorem dead_node_never_primary_one : ∃ s', run (failoverStep hashKey 500) twoNodeCluster oneFailure = some s' ∧
    (s'.router.committed.entry 0).map (fun e => e.primary) = some "b" ∧
    Along (failoverStep hashKey 500) (TicksKeepOff hashKey 500 0) twoNodeCluster oneFailure ∧
    Along (failoverStep hashKey 500) (HasLiveCopy 500 0) twoNodeCluster oneFailure := by
  obtain ⟨hkeeps, honly⟩ := @dead_node_never_primary hashKey 500 twoNodeCluster 0 oneFailure rfl (by decide +kernel)
  have hlive := hkeeps (by decide +kernel)
  exact ⟨_, rfl, rfl, hlive, honly _ rfl rfl (by decide) hlive⟩

/-- **Bug**: both nodes have timed out. Partition 0 is given to `b`, and back to `a` in the same tick, once more with
every tick. -/
theorem dead_replica_promoted :
    ∃ s s', run (failoverStep hashKey 500) twoNodeCluster [.check 2000, .handle true true, .promote 0] = some s ∧
      run (failoverStep hashKey 500) s [.route .deliver, .handle true true, .promote 0] = some s' ∧
      s.tick.map (fun t => t.dead) = some ["a", "b"] ∧
      (twoPartitions.entry 0).map (fun e => (e.pair, e.epoch)) = some (("a", "b"), 1) ∧
      (s.router.committed.entry 0).map (fun e => (e.pair, e.epoch)) = some (("b", "a"), 2) ∧
      (s'.router.committed.entry 0).map (fun e => (e.pair, e.epoch)) = some (("a", "b"), 3) :=
  ⟨_, _, rfl, rfl, rfl, rfl, rfl, rfl⟩

end RocksKV.Metadata
