import RocksKV.Storage.Frozen
import RocksKV.Storage.RouteUpdate
/-!
# Epochs across route updates (`pkg/storage/partition.go:149-237`, `server.go:1177-1232`)

| here | there |
| --- | --- |
| `RouteRun`, `routeStep` | one node between the route updates it gets, and the requests it serves |
| `epochsFor`             | the epochs an update gives the node for a partition |
| `KeepsEpoch`            | an update that brings a partition back brings no smaller epoch |

`UpdatePartitionEpoch` only raises the epoch of a hosted partition (`partition.go:184-191`, tested by
`TestEpochForwardProgress`). A partition that an update leaves out is removed with its epoch, and
`AddPartitionWithEpoch` takes the epoch of whatever update brings it back.
-/

namespace RocksKV.Storage

open Lib

/-- The epochs an update gives node `addr` for partition `p`. -/
def epochsFor (partitions : List Pb.PartitionInfo) (addr : String) (p : UInt32) : List UInt64 :=
  (partitions.filter fun e => decide (PlacedOn e addr) && decide (e.partitionId = p)).map (·.epoch)

structure RouteRun where
  node    : Node
  /-- The updates the node has processed. -/
  updates : List (List Pb.PartitionInfo)

inductive RouteAct
  | data (r : DataRequest)
  /-- An update; `opens` says which command logs can be opened. -/
  | route (opens : UInt32 → Bool) (partitions : List Pb.PartitionInfo)

def routeStep (addr : String) (n : RouteRun) : RouteAct → Option RouteRun
  | .data r => (dataStep n.node r).map fun node => { n with node := node }
  | .route opens partitions =>
    some { node := { n.node with server := n.node.server.updatePartitionsFromRoute opens partitions addr }
           updates := partitions :: n.updates }

/-- The epochs the processed updates gave the node for `p`. -/
def RouteRun.assigned (n : RouteRun) (addr : String) (p : UInt32) : List UInt64 :=
  n.updates.flatMap fun partitions => epochsFor partitions addr p

/-- An update that brings a partition back to the node, which does not host it, gives it an epoch that is no smaller
than the earlier ones. -/
def KeepsEpoch (addr : String) (p : UInt32) (n : RouteRun) : RouteAct → Prop
  | .data _ => True
  | .route _ partitions => n.node.server.pm.hasPartition p = false → epochsFor partitions addr p ≠ [] →
      ∀ e ∈ n.assigned addr p, ∃ e' ∈ epochsFor partitions addr p, e ≤ e'

instance (addr : String) (p : UInt32) (n : RouteRun) : ∀ a : RouteAct, Decidable (KeepsEpoch addr p n a)
  | .data _ => inferInstanceAs (Decidable True)
  | .route _ partitions =>
    -- over the lists, not over all epochs
    haveI : ∀ e : UInt64, Decidable (∃ e' ∈ epochsFor partitions addr p, e ≤ e') := fun _ => List.decidableBEx _ _
    haveI : Decidable (∀ e ∈ n.assigned addr p, ∃ e' ∈ epochsFor partitions addr p, e ≤ e') := List.decidableBAll _ _
    inferInstanceAs (Decidable (n.node.server.pm.hasPartition p = false → epochsFor partitions addr p ≠ [] →
      ∀ e ∈ n.assigned addr p, ∃ e' ∈ epochsFor partitions addr p, e ≤ e'))

/-! ## One update -/

section
variable {opens : UInt32 → Bool} {addr : String}

/-- An entry raises the epoch of its partition, which is hosted afterwards; it changes no other. -/
theorem get_updateFromEntry (s : Server) (e : Pb.PartitionInfo) (k : UInt32) :
    (s.updateFromEntry opens addr e).pm.partitions.get k =
      if k = e.partitionId ∧ PlacedOn e addr then
        some (match s.pm.partitions.get k with
          | none => ⟨e.partitionId, .normal, decide (e.primary = addr), e.epoch⟩
          | some q => { q with epoch := max q.epoch e.epoch })
      else s.pm.partitions.get k := by
  have hview := congrArg Prod.fst (@view_updateFromEntry opens addr s e k)
  change _ = Prod.fst _ at hview
  simp only [Server.view] at hview
  rw [hview]
  by_cases hk : k = e.partitionId
  · by_cases hpl : PlacedOn e addr
    · simp only [hk, hpl, if_true, and_self, entryView]
      cases s.pm.partitions.get e.partitionId <;> rfl
    · simp [hk, hpl, entryView]
  · simp [hk]

theorem epochsFor_cons (e : Pb.PartitionInfo) (partitions : List Pb.PartitionInfo) (p : UInt32) :
    epochsFor (e :: partitions) addr p =
      if p = e.partitionId ∧ PlacedOn e addr then e.epoch :: epochsFor partitions addr p
      else epochsFor partitions addr p := by
  unfold epochsFor
  rw [List.filter_cons]
  by_cases hpl : PlacedOn e addr <;> by_cases hk : p = e.partitionId <;> simp [hpl, hk, eq_comm]

/-- **The first loop** raises a hosted partition's epoch, and hosts what is placed on the node with an epoch no
smaller than any the update gives. -/
theorem epoch_foldl (k : UInt32) : ∀ (partitions : List Pb.PartitionInfo) (s : Server),
    (∀ q, s.pm.partitions.get k = some q → ∃ q', (partitions.foldl (Server.updateFromEntry opens addr) s).pm.partitions.get k
        = some q' ∧ q.epoch ≤ q'.epoch) ∧
    ∀ e ∈ epochsFor partitions addr k, ∃ q',
      (partitions.foldl (Server.updateFromEntry opens addr) s).pm.partitions.get k = some q' ∧ e ≤ q'.epoch
  | [], s => ⟨fun q hq => ⟨q, hq, le_refl _⟩, fun e he => by cases he⟩
  | x :: partitions, s => by
    obtain ⟨ih1, ih2⟩ := epoch_foldl k partitions (s.updateFromEntry opens addr x)
    have hx := @get_updateFromEntry opens addr s x k
    rw [List.foldl_cons, epochsFor_cons]
    by_cases hc : k = x.partitionId ∧ PlacedOn x addr
    · rw [if_pos hc] at hx ⊢
      obtain ⟨q', hq', hle⟩ := ih1 _ hx
      refine ⟨fun q hq => ⟨q', hq', ?_⟩, fun e he => ?_⟩
      · rw [hq] at hle
        exact (le_max_left _ _).trans hle
      · rcases List.mem_cons.1 he with rfl | he
        · refine ⟨q', hq', le_trans ?_ hle⟩
          cases s.pm.partitions.get k with
          | none => exact le_refl _
          | some q => exact le_max_right _ _
        · exact ih2 e he
    · rw [if_neg hc] at hx ⊢
      exact ⟨fun q hq => ih1 q (hx.trans hq), ih2⟩

theorem mem_placedOn_of_epoch {partitions : List Pb.PartitionInfo} {p : UInt32} :
    p ∈ placedOn partitions addr ↔ epochsFor partitions addr p ≠ [] := by
  rw [mem_placedOn, epochsFor, ne_eq, List.map_eq_nil_iff, List.filter_eq_nil_iff]
  push Not
  refine exists_congr fun e => and_congr_right fun _ => ?_
  rw [Bool.and_eq_true, decide_eq_true_iff, decide_eq_true_iff]

/-- **After an update** a hosted partition has been placed on the node, at an epoch no smaller than the update's
and than the one it had. -/
theorem epoch_updatePartitionsFromRoute (s : Server) (partitions : List Pb.PartitionInfo) {k : UInt32} {q' : Partition}
    (h : (s.updatePartitionsFromRoute opens partitions addr).pm.partitions.get k = some q') :
    epochsFor partitions addr k ≠ [] ∧ (∀ e ∈ epochsFor partitions addr k, e ≤ q'.epoch) ∧
      ∀ q, s.pm.partitions.get k = some q → q.epoch ≤ q'.epoch := by
  obtain ⟨hkept, hgone⟩ := view_dropAll (placedOn partitions addr)
    (partitions.foldl (Server.updateFromEntry opens addr) s) k
  obtain ⟨hold, hnew⟩ := @epoch_foldl opens addr k partitions s
  unfold Server.updatePartitionsFromRoute at h
  by_cases hpl : k ∈ placedOn partitions addr
  · have hsame := congrArg Prod.fst (hkept hpl)
    simp only [Server.view] at hsame
    have hq' := hsame.symm.trans h
    refine ⟨mem_placedOn_of_epoch.1 hpl, fun e he => ?_, fun q hq => ?_⟩
    · obtain ⟨r, hr, hle⟩ := hnew e he
      cases hr.symm.trans hq'
      exact hle
    · obtain ⟨r, hr, hle⟩ := hold q hq
      cases hr.symm.trans hq'
      exact hle
  · cases (hgone hpl).symm.trans h

end

/-! ## Runs -/

theorem replicateFrom_partitions {q : UInt32} : ∀ (entries : List Pb.ReplicationEntry) (s : Server) (last : Int),
    (s.replicateFrom q last entries).1.pm.partitions = s.pm.partitions
  | [], _, _ => rfl
  | entry :: entries, s, last => by
    rw [Server.replicateFrom]
    cases h : s.replicateEntry q entry with
    | error e => rfl
    | ok t =>
      have ht : t.pm.partitions = s.pm.partitions := by
        rcases replicateEntry_ok h with ⟨ws, -, rfl, -⟩ | ⟨u, fb, -, rfl⟩ <;> rfl
      exact (replicateFrom_partitions entries t entry.offset).trans ht

/-- Requests leave the partitions, and with them their epochs, alone. -/
theorem dataStep_partitions {n n' : Node} {r : DataRequest} (h : dataStep n r = some n') :
    n'.server.pm.partitions = n.server.pm.partitions := by
  cases r with
  | write disk req =>
    simp only [dataStep, Option.some.injEq] at h
    subst h
    rcases n.server.serve_cases disk req with ⟨e, h⟩ | ⟨-, h⟩
    · simp only [h]
    · simp only [h, Server.logOn_pm]
  | replicate q entries =>
    simp only [dataStep, Option.some.injEq] at h
    subst h
    simp only [Server.replicate]
    split_ifs
    · rfl
    · exact replicateFrom_partitions entries n.server 0

/-- A hosted partition's epoch is no smaller than any the node has been given for it. -/
def EpochsBehind (addr : String) (p : UInt32) (n : RouteRun) : Prop :=
  ∀ q, n.node.server.pm.partitions.get p = some q → ∀ e ∈ n.assigned addr p, e ≤ q.epoch

/-- **Step**: updates that keep epochs keep the hosted epoch ahead. -/
theorem epochsBehind_step {addr : String} {p : UInt32} (n : RouteRun) (a : RouteAct) (n' : RouteRun)
    (h : EpochsBehind addr p n) (hkeep : KeepsEpoch addr p n a) (hstep : routeStep addr n a = some n') :
    EpochsBehind addr p n' := by
  intro q' hq' e he
  cases a with
  | data r =>
    obtain ⟨node, hnode, rfl⟩ := Option.map_eq_some_iff.1 hstep
    rw [dataStep_partitions hnode] at hq'
    exact h q' hq' e he
  | route opens partitions =>
    cases hstep
    obtain ⟨hplaced, hnew, hold⟩ := epoch_updatePartitionsFromRoute n.node.server partitions hq'
    rw [RouteRun.assigned, List.flatMap_cons, List.mem_append] at he
    rcases he with he | he
    · exact hnew e he
    · cases hg : n.node.server.pm.partitions.get p with
      | some q => exact (h q hg e he).trans (hold q hg)
      | none =>
        -- the update brings the partition back
        obtain ⟨e', he', hle⟩ := hkeep (PartitionManager.hasPartition_eq_false.2 hg) hplaced e he
        exact hle.trans (hnew e' he')

/-- **Fencing is monotone** in every run whose updates bring no partition back at a smaller epoch: an acknowledged
write has an epoch no smaller than any the node was given for its partition before. -/
theorem fencing_monotone {addr : String} {p : UInt32} {s : Server} {as : List RouteAct} {n : RouteRun}
    (hkeep : Along (routeStep addr) (KeepsEpoch addr p) ⟨⟨s, []⟩, []⟩ as)
    (hrun : run (routeStep addr) ⟨⟨s, []⟩, []⟩ as = some n) {disk : Disk} {req : WriteRequest}
    (hreq : req.partitionId = p) (hack : (n.node.server.serve disk req).2.success = true) :
    ∀ e ∈ n.assigned addr p, e ≤ req.epoch := by
  have hinv : EpochsBehind addr p n := by
    refine run_inv_along epochsBehind_step ?_ hkeep hrun
    intro q _ e he
    cases he
  obtain ⟨q, hq, -, hepoch⟩ := Server.checkWrite_ok (Server.serve_accepted hack).1
  intro e he
  rw [hepoch]
  exact hinv q (hreq ▸ hq) e he

/-- An update that makes `A` the primary of partition 7. -/
def sevenAt (epoch : UInt64) : List Pb.PartitionInfo :=
  [{ partitionId := 7, primary := "A", replica := "B", status := .normal, migrationTarget := ""
     migrationState := .none, epoch := epoch }]

/-- A node that holds a lease and nothing else. -/
def emptyNode : Server :=
  { pm := { nodeID := "A", partitions := OrdMap.empty, db := OrdMap.empty }
    nodeLease := 1
    nodeLeaseLost := false
    replicators := OrdMap.empty
    logs := OrdMap.empty }

/-- Partition 7 comes, goes, and comes back at a larger epoch. -/
def sevenReturns (epoch : UInt64) : List RouteAct :=
  [.route (fun _ => true) (sevenAt 5), .route (fun _ => true) [], .route (fun _ => true) (sevenAt epoch)]

theorem fencing_monotone_sevenReturns :
    ∃ n : RouteRun, run (routeStep "A") ⟨⟨emptyNode, []⟩, []⟩ (sevenReturns 6) = some n ∧
      (n.node.server.serve .working ⟨7, 6, .put [1] [2]⟩).2.success = true ∧ n.assigned "A" 7 = [6, 5] ∧
      ∀ e ∈ n.assigned "A" 7, e ≤ 6 := by
  refine ⟨_, rfl, by decide, by decide, ?_⟩
  exact @fencing_monotone "A" 7 emptyNode (sevenReturns 6) _ (by decide) rfl .working ⟨7, 6, .put [1] [2]⟩ rfl
    (by decide)

/-- **Bug**: an older table brings partition 7 back at epoch 3 after the node had it at epoch 5, and the node
acknowledges a write at epoch 3. -/
theorem fencing_forgets :
    ∃ n : RouteRun, run (routeStep "A") ⟨⟨emptyNode, []⟩, []⟩ (sevenReturns 3) = some n ∧
      5 ∈ n.assigned "A" 7 ∧ (n.node.server.serve .working ⟨7, 3, .put [1] [2]⟩).2.success = true :=
  ⟨_, rfl, by decide, by decide⟩

end RocksKV.Storage
