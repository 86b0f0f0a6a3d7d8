import RocksKV.Compute.Router
import RocksKV.Metadata.Router
import RocksKV.Metadata.Wire
import RocksKV.Storage.RouteUpdate
/-!
# Fencing across the cluster

The metadata router, the storage nodes and the compute routers together: route tables are committed,
pushed to every receiver in order and with any delay, and compute nodes send writes to the primary of the
table they hold, under its epoch.

| here | there |
| --- | --- |
| `ClusterAct.router`         | a step of the metadata router (`Metadata.Router`) |
| `ClusterAct.deliverStorage` | `sendRouteUpdate` to a storage node, and its `updatePartitionsFromRoute` |
| `ClusterAct.deliverCompute` | `sendRouteUpdate` to a compute node, and its `updateRouteTableFromUpdate` |
| `ClusterAct.send`           | a compute handler up to its RPC (`compute/server.go:211-265` and its siblings) |
| `ClusterAct.handle`         | the RPC reaching the storage node's write handler |

Subscribers are served after the router's own cache (`router.go:59-66`), so a receiver sees only tables the
watch has delivered. A table may be pushed twice (`server.go:291-307` sends the current one on subscription
and again through the channel) and a full channel drops tables (`router.go:131-138`). Leases are valid.

The wire carries no epoch, so every node compares zero with zero, and a node keeps the role it had when it
adopted a partition. Safety rests on roles alone: as long as no table makes a node primary that was not in the
partition's pair, the first primary is the only node that ever acknowledges (`no_split_brain`); a migration of
the primary to a third node gives two (`migration_splits_the_brain`).
-/

namespace RocksKV.Cluster

open Lib Metadata Storage

/-- A storage node, and how many of the pushed tables it has come to. -/
structure StorageNode where
  server : Server
  seen   : Nat

structure ComputeNode where
  table : Compute.RouteTable
  seen  : Nat

/-- A started storage node: a valid lease, no partitions. -/
def StorageNode.fresh (addr : String) : StorageNode where
  server :=
    { pm := { nodeID := addr, partitions := OrdMap.empty, db := OrdMap.empty }
      nodeLease := 1, nodeLeaseLost := false, replicators := OrdMap.empty, logs := OrdMap.empty }
  seen := 0

/-- An acknowledged write: partition, request epoch, node. -/
structure Ack where
  partitionId : UInt32
  epoch       : UInt64
  node        : String
  deriving DecidableEq

structure ClusterState where
  router   : RouterSys
  storage  : OrdMap String StorageNode
  compute  : OrdMap String ComputeNode
  /-- Requests on their way, with the address they go to. -/
  inflight : List (String × WriteRequest)
  acks     : List Ack

inductive ClusterAct
  | router (a : Act)
  | deliverStorage (addr : String) (i : Nat)
  | deliverCompute (name : String) (i : Nat)
  | send (name : String) (partitionID : UInt32) (op : WriteOp)
  | handle (i : Nat)

namespace ClusterState

def start (table : RouteTable) : ClusterState :=
  { router := .start table, storage := OrdMap.empty, compute := OrdMap.empty, inflight := [], acks := [] }

def node (c : ClusterState) (addr : String) : StorageNode := (c.storage.get addr).getD (.fresh addr)

def computeNode (c : ClusterState) (name : String) : ComputeNode := (c.compute.get name).getD ⟨.new, 0⟩

def setNode (c : ClusterState) (addr : String) (n : StorageNode) : ClusterState :=
  { c with storage := c.storage.insert addr n }

/-- Every table committed so far, the initial one first. -/
def tables (init : RouteTable) (c : ClusterState) : List RouteTable := init :: c.router.commits.map Prod.snd

/-- Those the watch has delivered to the router, which alone are pushed. -/
def published (init : RouteTable) (c : ClusterState) : List RouteTable :=
  (c.tables init).take ((c.tables init).length - c.router.watch.length)

end ClusterState

section
variable (hash : String → UInt32) (opens : String → UInt32 → Bool) (init : RouteTable)

def clusterStep (c : ClusterState) : ClusterAct → Option ClusterState
  | .router a => (step hash c.router a).map fun r => { c with router := r }
  | .deliverStorage addr i =>
    match (c.published init)[i]? with
    | none => none
    | some table =>
      let n := c.node addr
      -- in order: never a table before the last one seen
      if i + 1 < n.seen then none
      else
        let server := n.server.updatePartitionsFromRoute (opens addr) (sendRouteUpdate table).partitions addr
        some (c.setNode addr ⟨server, i + 1⟩)
  | .deliverCompute name i =>
    match (c.published init)[i]? with
    | none => none
    | some table =>
      let n := c.computeNode name
      if i + 1 < n.seen then none
      else
        let table := Compute.updateRouteTableFromUpdate n.table (sendRouteUpdate table)
        some { c with compute := c.compute.insert name ⟨table, i + 1⟩ }
  | .send name p op =>
    match Compute.getPartitionNodesByID (c.computeNode name).table p with
    | .error _ => none
    | .ok (primary, _, epoch) => some { c with inflight := c.inflight ++ [(primary, ⟨p, epoch, op⟩)] }
  | .handle i =>
    match c.inflight[i]? with
    | none => none
    | some (addr, req) =>
      let c := { c with inflight := c.inflight.eraseIdx i }
      let n := c.node addr
      match n.server.handleWrite req with
      | .error _ => some c
      | .ok server =>
        some { c.setNode addr ⟨server, n.seen⟩ with acks := c.acks ++ [⟨req.partitionId, req.epoch, addr⟩] }

/-- Acknowledged writes of one partition under one epoch come from one node. -/
def NoSplitBrain (c : ClusterState) : Prop :=
  ∀ a ∈ c.acks, ∀ b ∈ c.acks, a.partitionId = b.partitionId → a.epoch = b.epoch → a.node = b.node

/-- Commits start from the committed entries and keep every primary inside its pair, and storage nodes are pushed
every table. -/
def Steady (c : ClusterState) : ClusterAct → Prop
  | .router a => Fresh c.router a ∧ ∀ x ∈ a.source c.router, x.1.KeepsPair hash x.2
  | .deliverStorage addr i => i ≤ (c.node addr).seen
  | .deliverCompute _ _ | .send _ _ _ | .handle _ => True

instance (c : ClusterState) (a : ClusterAct) : Decidable (Steady hash c a) :=
  match a with
  | .router a => inferInstanceAs (Decidable (Fresh c.router a ∧ ∀ x ∈ a.source c.router, x.1.KeepsPair hash x.2))
  | .deliverStorage addr i => inferInstanceAs (Decidable (i ≤ (c.node addr).seen))
  | .deliverCompute _ _ | .send _ _ _ | .handle _ => inferInstanceAs (Decidable True)

/-! ## The invariant -/

/-- The entry's node pair contains `addr`. -/
def OnPair (e : PartitionInfo) (addr : String) : Prop := e.primary = addr ∨ e.replica = addr

/-- The primaries of `t'` come out of the pairs of `t`. -/
def PrimariesFrom (t t' : RouteTable) : Prop :=
  ∀ p e', t'.entry p = some e' → ∃ e, t.entry p = some e ∧ OnPair e e'.primary

structure FencingInv (c : ClusterState) : Prop where
  last   : (c.tables init).getLast? = some c.router.committed
  chain  : ∀ i t t', (c.tables init)[i]? = some t → (c.tables init)[i + 1]? = some t' → PrimariesFrom t t'
  seen   : ∀ addr, (c.node addr).seen ≤ (c.tables init).length
  /-- A node hosts what the last table it saw places on it. -/
  hosts  : ∀ addr k t p e, (c.node addr).seen = k + 1 → (c.tables init)[k]? = some t → t.entry p = some e →
    OnPair e addr → (c.node addr).server.pm.hasPartition p = true
  /-- Only the initial primary holds the role. -/
  prime  : ∀ addr p q, (c.node addr).server.pm.partitions.get p = some q → q.isPrime = true →
    ∃ e, init.entry p = some e ∧ e.primary = addr
  acked  : ∀ a ∈ c.acks, ∃ e, init.entry a.partitionId = some e ∧ e.primary = a.node

variable {hash : String → UInt32} {opens : String → UInt32 → Bool} {init : RouteTable}

theorem node_setNode (c : ClusterState) (addr : String) (n : StorageNode) (x : String) :
    (c.setNode addr n).node x = if x = addr then n else c.node x := by
  unfold ClusterState.node ClusterState.setNode
  rw [OrdMap.get_insert]
  split_ifs <;> rfl

theorem fencingInv_start : FencingInv init (.start init) where
  last := rfl
  chain i t t' ht ht' := by simp [ClusterState.start, ClusterState.tables, RouterSys.start] at ht'
  seen addr := by simp [ClusterState.start, ClusterState.node, StorageNode.fresh]
  hosts addr k t p e hk := by simp [ClusterState.start, ClusterState.node, StorageNode.fresh] at hk
  prime addr p q hq := by simp [ClusterState.start, ClusterState.node, StorageNode.fresh] at hq
  acked a ha := by simp [ClusterState.start] at ha

/-- A steady router step commits at most one table, with primaries out of the committed pairs. -/
theorem tables_router (init : RouteTable) {c : ClusterState} {a : Act} {r : RouterSys} (hs : Steady hash c (.router a))
    (h : step hash c.router a = some r) :
    (({ c with router := r } : ClusterState).tables init = c.tables init ∧ r.committed = c.router.committed) ∨
    (({ c with router := r } : ClusterState).tables init = c.tables init ++ [r.committed] ∧
      PrimariesFrom c.router.committed r.committed) := by
  obtain ⟨op, snapshot, t, rs, hsrc, ht, rfl⟩ | ⟨rs, rfl⟩ | ⟨t, rest, -, -, rfl⟩ := step_cases h
  · refine Or.inr ⟨by simp [ClusterState.tables, RouterSys.commit], fun p e' he' => ?_⟩
    obtain ⟨e, he, hp⟩ := Op.primary_table (hs.2 _ hsrc) ht (p := p) he'
    refine ⟨e, ?_, hp.imp Eq.symm Eq.symm⟩
    rw [← he, RouteTable.entry, RouteTable.entry, hs.1 _ hsrc]
  · exact Or.inl ⟨rfl, rfl⟩
  · exact Or.inl ⟨rfl, rfl⟩

/-- **Committing keeps the invariant**: a new table extends the chain by one link. -/
theorem FencingInv.router {c : ClusterState} (hi : FencingInv init c) {a : Act} {r : RouterSys}
    (hs : Steady hash c (.router a)) (h : step hash c.router a = some r) :
    FencingInv init { c with router := r } := by
  obtain ⟨ht, hc⟩ | ⟨ht, hlink⟩ := tables_router init hs h
  · exact ⟨by rw [ht, hi.last, hc], by rw [ht]; exact hi.chain, by rw [ht]; exact hi.seen,
      by rw [ht]; exact hi.hosts, hi.prime, hi.acked⟩
  · have hpos : 0 < (c.tables init).length := by simp [ClusterState.tables]
    have hlast : (c.tables init)[(c.tables init).length - 1]? = some c.router.committed := by
      rw [← hi.last, List.getLast?_eq_getElem?]
    refine ⟨by rw [ht]; simp, ?_, fun addr => ?_, ?_, hi.prime, hi.acked⟩
    · rw [ht]
      intro i t t' hti hti'
      rcases Nat.lt_or_ge (i + 1) (c.tables init).length with hlt | hge
      · rw [List.getElem?_append_left (by omega)] at hti
        rw [List.getElem?_append_left hlt] at hti'
        exact hi.chain i t t' hti hti'
      · -- the new link, from the last table to the committed one
        have hlen := (List.getElem?_eq_some_iff.1 hti').1
        have hi1 : i = (c.tables init).length - 1 := by simp at hlen; omega
        rw [List.getElem?_append_left (by omega), hi1, hlast] at hti
        rw [hi1, Nat.sub_add_cancel hpos, List.getElem?_append_right le_rfl] at hti'
        simp only [Nat.sub_self, List.getElem?_cons_zero] at hti'
        cases hti; cases hti'
        exact hlink
    · have := hi.seen addr
      rw [ht]; simp only [List.length_append]
      exact Nat.le_add_right_of_le this
    · rw [ht]
      intro addr k t p e hk htk
      have hseen := hi.seen addr
      rw [List.getElem?_append_left (by
        have : (c.node addr).seen = k + 1 := hk
        omega)] at htk
      exact hi.hosts addr k t p e hk htk

/-- Replacing a node keeps the invariant when the new one meets its part. -/
theorem FencingInv.setNode {c : ClusterState} (hi : FencingInv init c) {addr : String} {n : StorageNode}
    (hseen : n.seen ≤ (c.tables init).length)
    (hhosts : ∀ k t p e, n.seen = k + 1 → (c.tables init)[k]? = some t → t.entry p = some e → OnPair e addr →
      n.server.pm.hasPartition p = true)
    (hprime : ∀ p q, n.server.pm.partitions.get p = some q → q.isPrime = true →
      ∃ e, init.entry p = some e ∧ e.primary = addr) : FencingInv init (c.setNode addr n) := by
  have hnode := node_setNode c addr n
  refine ⟨hi.last, hi.chain, fun x => ?_, fun x => ?_, fun x => ?_, hi.acked⟩ <;> rw [hnode] <;> split_ifs with hx
  · exact hseen
  · exact hi.seen x
  · subst hx; exact hhosts
  · exact hi.hosts x
  · subst hx; exact hprime
  · exact hi.prime x

/-- A pushed table leaves a partition it places on the node there, in the role it had or, when new, in the
table's. -/
theorem get_delivered {s : Server} {table : RouteTable} {addr : String} {p : UInt32} {e : PartitionInfo}
    (o : UInt32 → Bool) (he : table.entry p = some e) (hon : OnPair e addr) :
    ∃ q, (s.updatePartitionsFromRoute o (sendRouteUpdate table).partitions addr).pm.partitions.get p = some q ∧
      q.isPrime = ((s.pm.partitions.get p).map Partition.isPrime).getD (decide (e.primary = addr)) := by
  obtain ⟨hview, -⟩ := view_updatePartitionsFromRoute o (nodup_sendRouteUpdate table) s addr
  have hid : (wireEntry e).partitionId = p := RouteTable.id_of_entry he
  have hv := hview (wireEntry e) (mem_sendRouteUpdate.2 ⟨p, e, he, rfl⟩) hon
  obtain ⟨q, hq, hprime⟩ := entryView_placed (e := wireEntry e) hon (s.view p)
  rw [hid] at hv
  exact ⟨q, (congrArg Prod.fst hv).trans hq, hprime⟩

/-- The partitions a pushed table leaves on the node are those it places there. -/
theorem placed_of_delivered {s : Server} {table : RouteTable} {addr : String} {p : UInt32} {q : Partition}
    {o : UInt32 → Bool}
    (hq : (s.updatePartitionsFromRoute o (sendRouteUpdate table).partitions addr).pm.partitions.get p = some q) :
    ∃ e, table.entry p = some e ∧ OnPair e addr := by
  obtain ⟨-, hgone⟩ := view_updatePartitionsFromRoute o (nodup_sendRouteUpdate table) s addr
  by_cases hmem : p ∈ placedOn (sendRouteUpdate table).partitions addr
  · obtain ⟨w, hw, hon, hid⟩ := mem_placedOn.1 hmem
    obtain ⟨p', e, he, rfl⟩ := mem_sendRouteUpdate.1 hw
    have hp' : p' = p := (RouteTable.id_of_entry he).symm.trans hid
    exact ⟨e, hp' ▸ he, hon⟩
  · rw [hgone p hmem] at hq; cases hq

/-- A node pushed the next table, or the last one again, already hosts every partition the table makes it primary
of, unless the table is the first. -/
theorem FencingInv.hosts_new_primary {c : ClusterState} (hi : FencingInv init c) {addr : String} {j : Nat}
    {table : RouteTable} (ht : (c.tables init)[j + 1]? = some table) (hord : (c.node addr).seen ≤ j + 2)
    (hgap : j + 1 ≤ (c.node addr).seen) {p : UInt32} {e : PartitionInfo} (he : table.entry p = some e)
    (hpr : e.primary = addr) : (c.node addr).server.pm.hasPartition p = true := by
  rcases Nat.eq_or_lt_of_le hord with hagain | hless
  · exact hi.hosts addr (j + 1) table p e hagain ht he (Or.inl hpr)
  · have hseen : (c.node addr).seen = j + 1 := by omega
    have hj : j < (c.tables init).length := by
      have := (List.getElem?_eq_some_iff.1 ht).1
      omega
    have hprev := List.getElem?_eq_getElem hj
    obtain ⟨e0, he0, hon0⟩ := hi.chain j _ table hprev ht p e he
    exact hi.hosts addr j _ p e0 hseen hprev he0 (hpr ▸ hon0)

/-- **Delivering keeps the invariant**: a node that adopts a partition as primary is its initial primary, since
every later primary comes out of a pair the node was already hosting. -/
theorem FencingInv.deliverStorage {c : ClusterState} (hi : FencingInv init c) (o : UInt32 → Bool) {addr : String}
    {i : Nat} {table : RouteTable} (ht : (c.tables init)[i]? = some table) (hord : (c.node addr).seen ≤ i + 1)
    (hgap : i ≤ (c.node addr).seen) :
    FencingInv init (c.setNode addr
      ⟨(c.node addr).server.updatePartitionsFromRoute o (sendRouteUpdate table).partitions addr, i + 1⟩) := by
  refine hi.setNode (List.getElem?_eq_some_iff.1 ht).1 (fun k t p e hk htk he hon => ?_) fun p q hq hprime => ?_
  · obtain rfl : i = k := Nat.succ_injective hk
    obtain rfl : t = table := Option.some.inj (htk.symm.trans ht)
    obtain ⟨q, hq, -⟩ := get_delivered o he hon
    exact PartitionManager.hasPartition_eq_true.2 ⟨q, hq⟩
  · obtain ⟨e, he, hon⟩ := placed_of_delivered hq
    obtain ⟨q', hq', hrole⟩ := get_delivered o he hon (s := (c.node addr).server)
    obtain rfl : q' = q := Option.some.inj (hq'.symm.trans hq)
    rw [hrole] at hprime
    cases hg : (c.node addr).server.pm.partitions.get p with
    | some q0 =>
      -- already hosted: the role is the one it had
      rw [hg] at hprime
      exact hi.prime addr p q0 hg hprime
    | none =>
      rw [hg] at hprime
      have hpr : e.primary = addr := by simpa using hprime
      cases i with
      | zero =>
        have hinit : some init = some table := by simpa [ClusterState.tables] using ht
        cases hinit
        exact ⟨e, he, hpr⟩
      | succ j =>
        have hhost := hi.hosts_new_primary ht hord hgap he hpr
        rw [PartitionManager.hasPartition_eq_false.2 hg] at hhost
        cases hhost

/-- **Acknowledging keeps the invariant**: only a node with the role acknowledges. -/
theorem FencingInv.handle {c : ClusterState} (hi : FencingInv init c) {addr : String} {req : WriteRequest}
    {server : Server} (h : (c.node addr).server.handleWrite req = .ok server) :
    FencingInv init { c.setNode addr ⟨server, (c.node addr).seen⟩ with
      acks := c.acks ++ [⟨req.partitionId, req.epoch, addr⟩] } := by
  obtain ⟨hcheck, hpm, -⟩ := Server.handleWrite_ok h
  have hparts : server.pm.partitions = (c.node addr).server.pm.partitions := by rw [hpm]
  have hset : FencingInv init (c.setNode addr ⟨server, (c.node addr).seen⟩) := by
    refine hi.setNode (hi.seen addr) ?_ ?_
    · simp only [PartitionManager.hasPartition, hparts]
      exact hi.hosts addr
    · simp only [hparts]
      exact hi.prime addr
  refine ⟨hset.last, hset.chain, hset.seen, hset.hosts, hset.prime, fun a ha => ?_⟩
  rcases List.mem_append.1 ha with ha | ha
  · exact hi.acked a ha
  · obtain rfl := List.mem_singleton.1 ha
    obtain ⟨q, hq, hprime, -⟩ := Server.checkWrite_ok hcheck
    exact hi.prime addr req.partitionId q hq hprime

theorem tables_of_published {c : ClusterState} {i : Nat} {t : RouteTable} (h : (c.published init)[i]? = some t) :
    (c.tables init)[i]? = some t := by
  rw [ClusterState.published, List.getElem?_take] at h
  split_ifs at h
  exact h

/-- **Every steady step keeps the invariant.** -/
theorem fencingInv_step {c c' : ClusterState} {a : ClusterAct} (hi : FencingInv init c) (hs : Steady hash c a)
    (h : clusterStep hash opens init c a = some c') : FencingInv init c' := by
  cases a with
  | router a =>
    obtain ⟨r, hr, rfl⟩ := Option.map_eq_some_iff.1 h
    exact hi.router hs hr
  | deliverStorage addr i =>
    simp only [clusterStep] at h
    split at h
    · cases h
    · rename_i table ht
      split_ifs at h with hord
      cases h
      exact hi.deliverStorage (opens addr) (tables_of_published ht) (not_lt.1 hord) hs
  | deliverCompute name i =>
    simp only [clusterStep] at h
    split at h
    · cases h
    · split_ifs at h
      cases h
      exact ⟨hi.last, hi.chain, hi.seen, hi.hosts, hi.prime, hi.acked⟩
  | send name p op =>
    simp only [clusterStep] at h
    split at h
    · cases h
    · cases h
      exact ⟨hi.last, hi.chain, hi.seen, hi.hosts, hi.prime, hi.acked⟩
  | handle i =>
    simp only [clusterStep] at h
    split at h
    · cases h
    · rename_i addr req hreq
      have hi' : FencingInv init { c with inflight := c.inflight.eraseIdx i } :=
        ⟨hi.last, hi.chain, hi.seen, hi.hosts, hi.prime, hi.acked⟩
      split at h
      · cases h; exact hi'
      · rename_i server hw
        cases h
        exact hi'.handle hw

/-- **No split brain**: in a steady run, acknowledged writes of one partition and epoch come from one node, the
partition's initial primary. -/
theorem no_split_brain (hash : String → UInt32) (opens : String → UInt32 → Bool) (init : RouteTable)
    {as : List ClusterAct} {c : ClusterState}
    (hsteady : Along (clusterStep hash opens init) (Steady hash) (.start init) as)
    (hrun : run (clusterStep hash opens init) (.start init) as = some c) : NoSplitBrain c := by
  have hi : FencingInv init c :=
    run_inv_along (fun _ _ _ hi hs h => fencingInv_step hi hs h) fencingInv_start hsteady hrun
  intro a ha b hb hp _
  obtain ⟨ea, hea, hna⟩ := hi.acked a ha
  obtain ⟨eb, heb, hnb⟩ := hi.acked b hb
  rw [hp, heb] at hea
  cases hea
  rw [← hna, ← hnb]

end

/-- Partition 0 is promoted from `a` to `b` while a compute node holds the old table; both its writes are answered
by `a`. -/
def promotionRun : List ClusterAct :=
  [.deliverStorage "a" 0, .deliverStorage "b" 0, .deliverCompute "x" 0, .send "x" 0 (.put [1] [1]), .handle 0,
   .router (.promoteReplica 0), .router .deliver, .deliverStorage "a" 1, .deliverStorage "b" 1,
   .send "x" 0 (.put [1] [2]), .handle 0]

theorem promotion_keeps_one_brain :
    ∃ c, run (clusterStep hashKey (fun _ _ => true) pairOnAB) (.start pairOnAB) promotionRun = some c ∧
      c.acks = [⟨0, 0, "a"⟩, ⟨0, 0, "a"⟩] ∧ NoSplitBrain c :=
  ⟨_, rfl, by decide, @no_split_brain hashKey (fun _ _ => true) pairOnAB promotionRun _ (by decide) rfl⟩

/-- The primary of partition 0 migrates from `a` to `c`; compute node `x` still holds the old table. -/
def migrationRun : List ClusterAct :=
  [.deliverStorage "a" 0, .deliverStorage "c" 0, .deliverCompute "x" 0, .deliverCompute "y" 0,
   .router (.completeMigration 0 "c" true), .router .deliver,
   .deliverStorage "a" 1, .deliverStorage "c" 1, .deliverCompute "y" 1,
   .send "x" 0 (.put [1] [1]), .send "y" 0 (.put [1] [2]), .handle 0, .handle 0]

/-- **Bug**: `a` keeps the primary role and `c` takes it, both at epoch zero: each acknowledges a write of
partition 0 under the same epoch. -/
theorem migration_splits_the_brain :
    ∃ c, run (clusterStep hashKey (fun _ _ => true) pairOnAB) (.start pairOnAB) migrationRun = some c ∧
      ¬ NoSplitBrain c := by
  refine ⟨_, rfl, fun h => ?_⟩
  exact absurd (h ⟨0, 0, "a"⟩ (by decide) ⟨0, 0, "c"⟩ (by decide) rfl rfl) (by decide)

end RocksKV.Cluster
