import RocksKV.Metadata.Requests
import RocksKV.Metadata.Ring
/-!
# An initialization that fails (`pkg/metadata/router.go:156-258`, `PLAN.md:338-400`)

| here | there |
| --- | --- |
| `Env.OnlyFails`        | one call to the store fails, the others succeed |
| `MetaServer.Ready`     | the pre-checks of `InitCluster` (`router.go:157-181`) |
| `MetaServer.allocated` | the server once `allocatePartitions` has returned (`:192-199`) |
| `Retryable`            | "rolled back to PENDING, retry allowed" (`PLAN.md:346`) |

`InitCluster` writes three records: the state `INITIALIZING`, the route table, the state `RUNNING`. A failure of the
first leaves the server as it was, a failure of the second is rolled back, and then the server is as it was, too
(`r.hashRing`, which has been replaced by then, is never looked up).
**Bug**: a failure of the third is returned as it is. The state stays `INITIALIZING`, and the pre-check of the next
`InitCluster` refuses it (`init_stuck`).
-/

namespace RocksKV.Metadata

open Lib

/-- `c` is the only call that fails. -/
structure Env.OnlyFails (env : Env) (c : StoreCall) : Prop where
  fails  : env.fails c ≠ none
  others : ∀ d, d ≠ c → env.fails d = none

def Env.Working (env : Env) : Prop := ∀ c, env.fails c = none

/-- A call that fails is the one. -/
theorem Env.OnlyFails.eq {env : Env} {c d : StoreCall} (h : env.OnlyFails c) {err : String}
    (hd : env.fails d = some err) : d = c := by
  by_contra hne
  rw [h.others d hne] at hd
  cases hd

namespace MetaServer

structure Ready (m : MetaServer) : Prop where
  pending : m.sys.state = .pending
  enough  : minReplicaNodes ≤ m.sys.listNodes.length
  online  : ∀ n ∈ m.sys.listNodes, n.status = .online

variable {hash : String → UInt32} {env : Env} {m : MetaServer}

/-! ## The steps of an initialization -/

variable (hash) in
/-- The new table is in etcd, on its way to the watch and cached. -/
def allocated (m : MetaServer) (state : ClusterState) : MetaServer :=
  let new := updateRouteTable m.sys.router.committed (allocatePartitions hash m.sys.listNodes)
  { m with
    sys :=
      { m.sys with
        router := { m.sys.router with committed := new, watch := m.sys.router.watch ++ [new], cache := new }
        state := state } }

/-- The initialization is the last one under way. -/
def initializing (m : MetaServer) : MetaServer :=
  { m with
    sys := { m.sys with state := .initializing, inits := m.sys.inits ++ [⟨m.sys.listNodes, true, none⟩] } }

theorem Ready.perform_initCluster (h : m.Ready) : m.perform hash .initCluster = m.initializing := by
  have hany : (m.sys.listNodes.any fun n => decide (n.status ≠ .online)) = false :=
    List.any_eq_false.2 fun n hn => by simp [h.online n hn]
  have hguard : ¬ (m.sys.state ≠ .pending ∨ m.sys.listNodes.length < minReplicaNodes ∨
      (m.sys.listNodes.any fun n => decide (n.status ≠ .online)) = true) := by
    rw [hany]
    rintro (hstate | hfew | hoff)
    · exact hstate h.pending
    · exact absurd h.enough (Nat.not_le.2 hfew)
    · cases hoff
  rw [perform, serverStep, if_neg hguard]
  rfl

theorem eraseIdx_concat {α : Type} (l : List α) (x : α) : (l ++ [x]).eraseIdx l.length = l := by
  rw [List.eraseIdx_append_of_length_le (Nat.le_refl _), Nat.sub_self]
  exact List.append_nil l

/-- The rollback. -/
theorem perform_allocateFailed (m : MetaServer) (rolledBack : Bool) :
    m.initializing.perform hash (.allocateFailed m.sys.inits.length rolledBack) =
      { m with sys := { m.sys with state := if rolledBack then .pending else .initializing } } := by
  simp [perform, serverStep, initializing, eraseIdx_concat]

theorem perform_initDone (m : MetaServer) (stored : Bool) :
    (m.initializing.perform hash (.allocate m.sys.inits.length)).perform hash (.initDone m.sys.inits.length stored) =
      m.allocated hash (if stored then .running else .initializing) := by
  simp [perform, serverStep, initializing, allocated, ServerSys.storeTable, eraseIdx_concat]

/-! ## What an initialization returns -/

/-- A pre-check that fails leaves the server as it is. -/
theorem init_of_not_ready (h : ¬ m.Ready) (hash : String → UInt32) (env : Env) :
    (m.routerInitCluster hash env).1 = m ∧ (m.routerInitCluster hash env).2 ≠ none := by
  unfold routerInitCluster
  split
  · exact ⟨rfl, nofun⟩
  split
  · exact ⟨rfl, nofun⟩
  next hstate =>
  split
  · exact ⟨rfl, nofun⟩
  split
  · exact ⟨rfl, nofun⟩
  next hfew =>
  split
  · exact ⟨rfl, nofun⟩
  next hfind =>
  refine absurd ⟨not_not.1 hstate, Nat.le_of_not_lt hfew, fun n hn => ?_⟩ h
  simpa using List.find?_eq_none.1 hfind n hn

theorem Ready.find_offline (h : m.Ready) : (m.sys.listNodes.find? fun n => decide (n.status ≠ .online)) = none :=
  List.find?_eq_none.2 fun n hn => by simp [h.online n hn]

/-- Past the pre-checks three writes decide. -/
theorem Ready.routerInitCluster (h : m.Ready) (hinfo : env.fails .getClusterInfo = none)
    (hlist : env.fails .listNodes = none) (hinit : env.fails (.setClusterState .initializing) = none) :
    m.routerInitCluster hash env =
      match env.fails .updateRouteTable with
      | some err =>
        ({ m with
          sys := { m.sys with state := if (env.fails (.setClusterState .pending)).isNone then .pending else .initializing } },
          some s!"failed to allocate partitions: failed to save route table: {err}")
      | none =>
        (m.allocated hash (if (env.fails (.setClusterState .running)).isNone then .running else .initializing),
          (env.fails (.setClusterState .running)).map fun err => s!"failed to set cluster state to RUNNING: {err}") := by
  rw [MetaServer.routerInitCluster, hinfo]
  dsimp only
  rw [if_neg (not_not.2 h.pending), hlist]
  dsimp only
  rw [if_neg (Nat.not_lt.2 h.enough), h.find_offline, hinit]
  dsimp only
  rw [h.perform_initCluster, perform_initDone]
  cases env.fails .updateRouteTable with
  | some err =>
    dsimp only
    rw [perform_allocateFailed]
  | none => rfl

theorem init_working (h : m.Ready) (hw : env.Working) :
    m.routerInitCluster hash env = (m.allocated hash .running, none) := by
  rw [h.routerInitCluster (hw _) (hw _) (hw _), hw .updateRouteTable, hw (.setClusterState .running)]
  rfl

/-- **One failure** leaves the server as it was, unless it is the failure of the last write. -/
theorem init_one_failure (h : m.Ready) {c : StoreCall} (hone : env.OnlyFails c)
    (herr : (m.routerInitCluster hash env).2 ≠ none) :
    c ≠ .setClusterState .running ∧ (m.routerInitCluster hash env).1 = m ∨
      c = .setClusterState .running ∧ (m.routerInitCluster hash env).1 = m.allocated hash .initializing := by
  cases hinfo : env.fails .getClusterInfo with
  | some err =>
    obtain rfl := hone.eq hinfo
    exact .inl ⟨nofun, by simp [MetaServer.routerInitCluster, hinfo]⟩
  | none =>
  cases hlist : env.fails .listNodes with
  | some err =>
    obtain rfl := hone.eq hlist
    exact .inl ⟨nofun, by simp [MetaServer.routerInitCluster, hinfo, h.pending, hlist]⟩
  | none =>
  cases hinit : env.fails (.setClusterState .initializing) with
  | some err =>
    obtain rfl := hone.eq hinit
    refine .inl ⟨nofun, ?_⟩
    simp only [MetaServer.routerInitCluster, hinfo, h.pending, hlist, Nat.not_lt.2 h.enough, h.find_offline, hinit,
      ne_eq, not_true_eq_false, if_false]
  | none =>
  rw [h.routerInitCluster hinfo hlist hinit] at herr ⊢
  cases hupdate : env.fails .updateRouteTable with
  | some err =>
    -- the rollback succeeds, and the state was pending
    obtain rfl := hone.eq hupdate
    refine .inl ⟨nofun, ?_⟩
    rw [hone.others (.setClusterState .pending) nofun]
    show ({ m with sys := { m.sys with state := .pending } } : MetaServer) = m
    rw [← h.pending]
  | none =>
    cases hlast : env.fails (.setClusterState .running) with
    | some err => exact .inr ⟨(hone.eq hlast).symm, rfl⟩
    | none =>
      rw [hupdate, hlast] at herr
      exact absurd rfl herr

/-! ## Trying again -/

/-- Every partition has an entry, whose primary is a storage node. -/
def AllAllocated (m : MetaServer) : Prop :=
  ∀ p : UInt32, p.toNat < totalPartitions →
    ∃ e, m.sys.router.committed.entry p = some e ∧ m.sys.router.cache.entry p = some e ∧
      e.primary ∈ m.sys.listNodes.map NodeInfo.addr

variable (hash) in
theorem Ready.allAllocated (h : m.Ready) (state : ClusterState) : (m.allocated hash state).AllAllocated := by
  intro p hp
  have hne : m.sys.listNodes.map NodeInfo.addr ≠ [] := by
    have hpos : 0 < m.sys.listNodes.length := Nat.lt_of_lt_of_le (by decide) h.enough
    rw [Ne, List.map_eq_nil_iff]
    exact List.ne_nil_of_length_pos hpos
  have hentry : (updateRouteTable m.sys.router.committed (allocatePartitions hash m.sys.listNodes)).entry p =
      some (Metadata.allocated hash (buildRing hash (m.sys.listNodes.map NodeInfo.addr)) p) := by
    rw [entry_updateRouteTable, entry_allocatePartitions, if_pos hp]
  exact ⟨_, hentry, hentry, primary_buildRing hash hne p⟩

variable (hash) in
/-- The cluster is pending, and an initialization over a working store succeeds and allocates all partitions. -/
structure Retryable (m : MetaServer) : Prop where
  pending : m.sys.state = .pending
  retry   : ∀ env : Env, env.Working → (m.routerInitCluster hash env).2 = none ∧
    (m.routerInitCluster hash env).1.sys.state = .running ∧ (m.routerInitCluster hash env).1.AllAllocated

theorem Ready.retryable (h : m.Ready) : m.Retryable hash where
  pending := h.pending
  retry env hw := by
    rw [init_working h hw]
    exact ⟨rfl, rfl, h.allAllocated hash .running⟩

/-- **`InitCluster` rolls back**: on a pending cluster with two online storage nodes, after an initialization in which
one call fails, the next one succeeds, exactly if all storage nodes are online and the call was not the last. -/
theorem initCluster_rolls_back_iff {c : StoreCall} (hpending : m.sys.state = .pending)
    (hnodes : 2 ≤ (m.sys.listNodes.filter fun n => decide (n.status = .online)).length) (hone : env.OnlyFails c)
    (herr : (m.routerInitCluster hash env).2 ≠ none) :
    (m.routerInitCluster hash env).1.Retryable hash ↔
      (∀ n ∈ m.sys.listNodes, n.status = .online) ∧ c ≠ .setClusterState .running := by
  have henough : minReplicaNodes ≤ m.sys.listNodes.length := hnodes.trans (List.length_filter_le _ _)
  by_cases honline : ∀ n ∈ m.sys.listNodes, n.status = .online
  · have hready : m.Ready := ⟨hpending, henough, honline⟩
    rcases init_one_failure hready hone herr with ⟨hc, hsame⟩ | ⟨hc, hstuck⟩
    · rw [hsame]
      exact iff_of_true hready.retryable ⟨honline, hc⟩
    · rw [hstuck]
      exact iff_of_false (fun h => nomatch h.pending) fun h => h.2 hc
  · have hnot : ¬ m.Ready := fun h => honline h.online
    rw [(init_of_not_ready hnot hash env).1]
    refine iff_of_false (fun h => ?_) fun h => honline h.1
    have hworks := (h.retry { env with fails := fun _ => none } fun _ => rfl).1
    exact (init_of_not_ready hnot hash _).2 hworks

end MetaServer

/-! ## Two nodes -/

/-- A pending cluster of two storage nodes that are online. -/
def twoOnline : MetaServer :=
  { sys := { ServerSys.start with nodes := ⟨[("A", onlineNode "A"), ("B", onlineNode "B")], by decide⟩ }
    migrations := OrdMap.empty }

/-- Only the call `c` fails. -/
def failingAt (c : StoreCall) : Env :=
  { fails := fun d => if d = c then some "deadline exceeded" else none, migrationID := "", order := [], executed := []
    inTime := 0, expired := fun _ => false }

theorem onlyFails_failingAt (c : StoreCall) : (failingAt c).OnlyFails c :=
  ⟨by simp [failingAt], fun d hd => by simp [failingAt, hd]⟩

theorem ready_twoOnline : twoOnline.Ready := ⟨rfl, by decide, by decide⟩

theorem initCluster_rolls_back_table :
    (twoOnline.routerInitCluster hashKey (failingAt .updateRouteTable)).2 ≠ none ∧
      (twoOnline.routerInitCluster hashKey (failingAt .updateRouteTable)).1.Retryable hashKey := by
  have herr : (twoOnline.routerInitCluster hashKey (failingAt .updateRouteTable)).2 ≠ none := by
    rw [ready_twoOnline.routerInitCluster rfl rfl rfl]
    exact nofun
  exact ⟨herr, (MetaServer.initCluster_rolls_back_iff rfl (by decide) (onlyFails_failingAt _) herr).2
    ⟨by decide, by decide⟩⟩

/-- **Bug**: the last write of an initialization fails. The error is returned, the table is allocated, the state is
`INITIALIZING`, and the next initialization is refused although the store works again. -/
theorem init_stuck :
    (twoOnline.routerInitCluster hashKey (failingAt (.setClusterState .running))).2 =
      some "failed to set cluster state to RUNNING: deadline exceeded" ∧
    (twoOnline.routerInitCluster hashKey (failingAt (.setClusterState .running))).1.sys.state = .initializing ∧
    ∀ env : Env, env.Working →
      ((twoOnline.routerInitCluster hashKey (failingAt (.setClusterState .running))).1.routerInitCluster hashKey env).2 =
        some "cluster is not in PENDING state (current: initializing)" := by
  rw [ready_twoOnline.routerInitCluster rfl rfl rfl]
  refine ⟨rfl, rfl, fun env hw => ?_⟩
  rw [MetaServer.routerInitCluster, hw .getClusterInfo]
  rfl

end RocksKV.Metadata
