import RocksKV.Metadata.Plan
/-!
# What a shutdown leaves on the node (`Router.ShutdownNode`, `pkg/metadata/router.go:585-812`)

| here | there |
| --- | --- |
| `Move.perform`   | `PromoteReplica`, and `CompleteMigration` where a task ends (`migration_scheduler.go:389-392`) or there is no scheduler |
| `accepted`       | `AddTask` (`migration_scheduler.go:139-179`), its error ignored or overwritten |
| `Move.counted`, `Mode.counts` | `migratedCount` and `failedCount`; with a scheduler, its own counts (`router.go:785-793`) |
| `shutdownNode`   | a shutdown that is not forced, up to the mark `REMOVED` |

Store calls succeed and commits are visible to the next call. With a scheduler the tasks end in any order after they
are added; `late` says for which partitions a first task has ended before a second one is added.

**Bug**: a promotion makes the node a replica, and nothing moves that replica away, so every partition that had its
primary there keeps the node as replica; a primary that moves by a task leaves it there too. The only other
task, the replica's, is refused while the primary's is pending. And where the ring has one node left, replicas stay.
`shutdown_drains_iff` is the exact condition.
-/

namespace RocksKV.Metadata

open Lib

def Move.partitionID : Move → UInt32
  | .promote p => p
  | .migrate task => task.partitionID

@[simp] theorem Move.partitionID_promote (p : UInt32) : (Move.promote p).partitionID = p := rfl

@[simp] theorem Move.partitionID_migrate (task : MigrationTask) : (Move.migrate task).partitionID = task.partitionID := rfl

def Move.perform (table : RouteTable) : Move → Except String RouteTable
  | .promote p => promoteReplica table p
  | .migrate task => completeMigration table task.partitionID task.target task.isPrimary

/-- Calls one after another, with their outcomes; one that fails is passed over. -/
def performMoves (table : RouteTable) : List Move → RouteTable × List (Move × Bool)
  | [] => (table, [])
  | move :: moves =>
    match move.perform table with
    | .error _ =>
      let (t, outcomes) := performMoves table moves
      (t, (move, false) :: outcomes)
    | .ok new =>
      let (t, outcomes) := performMoves (updateRouteTable table new) moves
      (t, (move, true) :: outcomes)

/-- The calls that take effect when a scheduler takes the tasks; `added` are the partitions with a task. -/
def accepted (late : UInt32 → Bool) (added : List UInt32) : List Move → List Move
  | [] => []
  | .promote p :: moves => .promote p :: accepted late added moves
  | .migrate task :: moves =>
    if task.partitionID ∈ added ∧ late task.partitionID = false then accepted late added moves
    else .migrate task :: accepted late (task.partitionID :: added) moves

inductive Mode
  | direct
  /-- With a scheduler: what is performed, in the order it is. -/
  | scheduled (late : UInt32 → Bool) (performed : List Move)

/-- A second task of the partition takes effect. -/
def Mode.late : Mode → UInt32 → Bool
  | .direct, _ => true
  | .scheduled late _, p => late p

def Mode.performed (moves : List Move) : Mode → List Move
  | .direct => moves
  | .scheduled _ performed => performed

/-- What is performed are the accepted calls, those of a partition in their order. -/
def Mode.Performs (moves : List Move) : Mode → Prop
  | .direct => True
  | .scheduled late performed => ∀ p, (performed.filter fun m => m.partitionID = p) =
      (accepted late [] moves).filter fun m => m.partitionID = p

/-- The outcome is counted; the replica of a partition with both roles on the node is assigned without a look at
the result. -/
def Move.counted (table : RouteTable) (addr : String) : Move → Bool
  | .promote _ => true
  | .migrate task => task.isPrimary || (table.entry task.partitionID).all fun e => decide (e.primary ≠ addr)

def Mode.counts (table : RouteTable) (addr : String) : Mode → Move → Bool
  | .direct, move => move.counted table addr
  | .scheduled _ _, move => !move.isPromote

structure Drain where
  /-- The table when the node is marked `REMOVED`. -/
  table    : RouteTable
  migrated : Nat
  failed   : Nat

def shutdownNode (hash : String → UInt32) (table : RouteTable) (order : List UInt32) (nodes : List NodeInfo)
    (node : NodeInfo) (mode : Mode) : Except String Drain :=
  match shutdownMoves hash table order nodes node with
  | .error e => .error e
  | .ok moves =>
    let (t, outcomes) := performMoves table (mode.performed moves)
    let counted := outcomes.filter fun x => mode.counts table node.addr x.1
    .ok { table := t
          migrated := (counted.filter fun x => x.2).length
          failed := (counted.filter fun x => !x.2).length }

/-- No partition names the address. -/
def Drained (addr : String) (t : RouteTable) : Prop :=
  ∀ p e, t.entry p = some e → e.primary ≠ addr ∧ e.replica ≠ addr

/-- The node is no primary, unless it is the replica as well, the ring moves both roles to other nodes and the second
task takes effect; and where it is a replica, the ring has another node for that. -/
def Drainable (hash : String → UInt32) (ring : ConsistentHash) (addr : String) (mode : Mode) (table : RouteTable) : Prop :=
  ∀ p e, table.entry p = some e →
    (e.primary = addr → e.replica = addr ∧ (ring.getNodes hash p).1 ≠ addr ∧ mode.late p = true) ∧
    (e.replica = addr → (ring.getNodes hash p).2 ≠ "" ∧ (ring.getNodes hash p).2 ≠ addr)

/-! ## The calls for one partition -/

/-- What a call makes of the pair. -/
def Move.onPair : Move → String × String → String × String
  | .promote _, pair => pair.swap
  | .migrate task, pair => migratedPair task.target task.isPrimary pair

theorem editsPair_perform : EditsPair Move.perform Move.partitionID Move.onPair := by
  constructor
  · intro table move h
    cases move with
    | promote p => exact editPartition_ok h
    | migrate task => exact editPartition_ok h
  · intro table move t h p
    cases move with
    | promote q => exact pair_promoteReplica h p
    | migrate task => exact pair_completeMigration h p

section
variable {hash : String → UInt32} {ring : ConsistentHash} {addr : String} {table : RouteTable} {order : List UInt32}

theorem performMoves_of_runEdits : ∀ {moves : List Move} {table t : RouteTable},
    runEdits Move.perform table moves = .ok t → performMoves table moves = (t, moves.map fun m => (m, true))
  | [], table, t, h => by
    cases h
    rfl
  | move :: moves, table, t, h => by
    rw [runEdits] at h
    cases hm : move.perform table with
    | error e =>
      rw [hm] at h
      cases h
    | ok new =>
      rw [hm] at h
      simp only [performMoves, hm, performMoves_of_runEdits h, List.map_cons]

/-- The calls for a partition, in order. -/
def movesOf (hash : String → UInt32) (ring : ConsistentHash) (addr : String) (e : PartitionInfo) : List Move :=
  (if e.primary = addr then primaryMoves hash ring addr e else []) ++
    if e.replica = addr then replicaMoves hash ring addr e else []

theorem partitionID_of_mem_primaryMoves {e : PartitionInfo} {move : Move} (h : move ∈ primaryMoves hash ring addr e) :
    move.partitionID = e.id := by
  rcases hg : ring.getNodes hash e.id with ⟨newPrimary, newReplica⟩
  simp only [primaryMoves, hg] at h
  rcases List.mem_append.1 h with h | h
  · split_ifs at h
    · rw [List.mem_singleton.1 h]
      rfl
    · rw [List.mem_singleton.1 h]
      rfl
  · rw [List.mem_ite_nil_right, List.mem_singleton] at h
    rw [h.2]
    rfl

theorem partitionID_of_mem_replicaMoves {e : PartitionInfo} {move : Move} (h : move ∈ replicaMoves hash ring addr e) :
    move.partitionID = e.id := by
  rcases hg : ring.getNodes hash e.id with ⟨newPrimary, newReplica⟩
  simp only [replicaMoves, hg, List.mem_ite_nil_left, List.mem_singleton] at h
  rw [h.2]
  rfl

theorem map_id_inOrder (table : RouteTable) : ∀ order : List UInt32,
    (table.inOrder order).map PartitionInfo.id = order.filter fun p => (table.entry p).isSome
  | [] => rfl
  | p :: order => by
    have ih := map_id_inOrder table order
    rw [RouteTable.inOrder] at ih ⊢
    cases he : table.entry p with
    | none => rw [List.filterMap_cons_none he, ih, List.filter_cons_of_neg (by simp [he])]
    | some e =>
      rw [List.filterMap_cons_some he, List.map_cons, ih, List.filter_cons_of_pos (by simp [he]), RouteTable.id_of_entry he]

/-- One loop: the calls of the partitions it lists. -/
theorem filter_loop {c : PartitionInfo → Bool} {f : PartitionInfo → List Move}
    (hf : ∀ e, ∀ m ∈ f e, m.partitionID = e.id) (hnd : order.Nodup) {p : UInt32} (hp : p ∈ order) {e : PartitionInfo}
    (he : table.entry p = some e) :
    ((((table.inOrder order).filter c).flatMap f).filter fun m => m.partitionID = p) = if c e then f e else [] := by
  have hloop : ((table.inOrder order).filter c).flatMap f =
      (table.inOrder order).flatMap fun x => if c x then f x else [] := by
    generalize table.inOrder order = l
    induction l with
    | nil => rfl
    | cons x l ih =>
      by_cases hx : c x = true
      · rw [List.filter_cons_of_pos hx, List.flatMap_cons, List.flatMap_cons, ih, if_pos hx]
      · rw [List.filter_cons_of_neg hx, List.flatMap_cons, ih, if_neg hx, List.nil_append]
  have hids : ((table.inOrder order).map PartitionInfo.id).Nodup := by
    rw [map_id_inOrder]
    exact hnd.filter _
  have hmem : e ∈ table.inOrder order := List.mem_filterMap.2 ⟨p, hp, he⟩
  have hcalls : ∀ x ∈ table.inOrder order, ∀ m ∈ if c x then f x else [], m.partitionID = x.id := by
    intro x _ m hm
    split_ifs at hm
    · exact hf x m hm
    · cases hm
  have hown := filter_flatMap_key hids hcalls hmem
  rw [RouteTable.id_of_entry he] at hown
  rw [hloop, hown]

theorem filter_shutdownMoves {nodes : List NodeInfo} {node : NodeInfo} {moves : List Move}
    (h : shutdownMoves hash table order nodes node = .ok moves) (hnd : order.Nodup) {p : UInt32} (hp : p ∈ order)
    {e : PartitionInfo} (he : table.entry p = some e) : (moves.filter fun m => m.partitionID = p) =
      movesOf hash (buildRing hash ((shutdownTargets nodes node.id).map NodeInfo.addr)) node.addr e := by
  rw [shutdownMoves_eq h, List.filter_append, filter_loop (fun _ _ hm => partitionID_of_mem_primaryMoves hm) hnd hp he,
    filter_loop (fun _ _ hm => partitionID_of_mem_replicaMoves hm) hnd hp he, movesOf]
  simp only [decide_eq_true_eq]

/-- A shutdown calls for the partitions there are. -/
theorem isSome_of_mem_shutdownMoves {nodes : List NodeInfo} {node : NodeInfo} {moves : List Move}
    (h : shutdownMoves hash table order nodes node = .ok moves) {move : Move} (hm : move ∈ moves) :
    (table.entry move.partitionID).isSome := by
  have hin : ∀ e ∈ table.inOrder order, (table.entry e.id).isSome := by
    intro e he
    rw [RouteTable.entry_of_mem_inOrder he]
    rfl
  rw [shutdownMoves_eq h] at hm
  rcases List.mem_append.1 hm with hm | hm
  · obtain ⟨e, he, hm⟩ := List.mem_flatMap.1 hm
    rw [partitionID_of_mem_primaryMoves hm]
    exact hin e (List.mem_filter.1 he).1
  · obtain ⟨e, he, hm⟩ := List.mem_flatMap.1 hm
    rw [partitionID_of_mem_replicaMoves hm]
    exact hin e (List.mem_filter.1 he).1

/-! ## What takes effect -/

theorem accepted_sublist {late : UInt32 → Bool} : ∀ {added : List UInt32} {moves : List Move},
    (accepted late added moves).Sublist moves
  | _, [] => List.Sublist.refl _
  | _, .promote p :: moves => accepted_sublist.cons_cons _
  | added, .migrate task :: moves => by
    rw [accepted]
    split_ifs
    · exact accepted_sublist.cons _
    · exact accepted_sublist.cons_cons _

/-- What is accepted for a partition depends on its own calls only. -/
theorem filter_accepted {late : UInt32 → Bool} {p : UInt32} : ∀ {moves : List Move} {added added' : List UInt32},
    (p ∈ added ↔ p ∈ added') → ((accepted late added moves).filter fun m => m.partitionID = p) =
      accepted late added' (moves.filter fun m => m.partitionID = p)
  | [], _, _, _ => rfl
  | .promote q :: moves, added, added', h => by
    have ih := @filter_accepted late p moves added added' h
    by_cases hq : q = p
    · simp only [accepted, List.filter_cons, Move.partitionID_promote, hq, decide_true, if_true, ih]
    · simp only [accepted, List.filter_cons, Move.partitionID_promote, hq, decide_false, Bool.false_eq_true, if_false, ih]
  | .migrate task :: moves, added, added', h => by
    by_cases hq : task.partitionID = p
    · -- its own task
      simp only [accepted, List.filter_cons, Move.partitionID_migrate, hq, decide_true, if_true, h]
      split_ifs
      · exact filter_accepted h
      · simp only [List.filter_cons, Move.partitionID_migrate, hq, decide_true, if_true]
        rw [@filter_accepted late p moves (p :: added) (p :: added') (by simp)]
    · simp only [accepted, List.filter_cons, Move.partitionID_migrate, hq, decide_false, Bool.false_eq_true, if_false]
      split_ifs
      · exact filter_accepted h
      · simp only [List.filter_cons, Move.partitionID_migrate, hq, decide_false, Bool.false_eq_true, if_false]
        exact filter_accepted (by simp [Ne.symm hq, h])

/-- The calls of a partition that take effect. -/
def Mode.effective (moves : List Move) : Mode → List Move
  | .direct => moves
  | .scheduled late _ => accepted late [] moves

@[simp] theorem Mode.effective_nil (mode : Mode) : mode.effective [] = [] := by cases mode <;> rfl

/-- A single call takes effect. -/
@[simp] theorem Mode.effective_singleton (mode : Mode) (m : Move) : mode.effective [m] = [m] := by
  cases mode with
  | direct => rfl
  | scheduled late performed => cases m <;> simp [Mode.effective, accepted]

/-- The second task for a partition takes effect if the first has left the scheduler by then. -/
theorem Mode.effective_tasks (mode : Mode) {task task' : MigrationTask} (h : task'.partitionID = task.partitionID) :
    mode.effective [.migrate task, .migrate task'] =
      .migrate task :: if mode.late task.partitionID then [.migrate task'] else [] := by
  cases mode with
  | direct => rfl
  | scheduled late performed => cases hl : late task.partitionID <;> simp [Mode.effective, Mode.late, accepted, hl, h]

theorem Mode.filter_performed {moves : List Move} {mode : Mode} (h : mode.Performs moves) (p : UInt32) :
    ((mode.performed moves).filter fun m => m.partitionID = p) =
      mode.effective (moves.filter fun m => m.partitionID = p) := by
  cases mode with
  | direct => rfl
  | scheduled late performed => exact (h p).trans (filter_accepted Iff.rfl)

theorem Mode.mem_of_performed {moves : List Move} {mode : Mode} (h : mode.Performs moves) {move : Move}
    (hm : move ∈ mode.performed moves) : move ∈ moves := by
  cases mode with
  | direct => exact hm
  | scheduled late performed =>
    have hin : move ∈ performed.filter fun m => m.partitionID = move.partitionID :=
      List.mem_filter.2 ⟨hm, decide_eq_true rfl⟩
    rw [h] at hin
    exact accepted_sublist.subset (List.mem_filter.1 hin).1

/-- **The pair a shutdown leaves** is off the node exactly where the partition is drainable. -/
theorem onPair_movesOf_iff (mode : Mode) (e : PartitionInfo) :
    (((mode.effective (movesOf hash ring addr e)).foldl (fun pair m => m.onPair pair) e.pair).1 ≠ addr ∧
      ((mode.effective (movesOf hash ring addr e)).foldl (fun pair m => m.onPair pair) e.pair).2 ≠ addr) ↔
    (e.primary = addr → e.replica = addr ∧ (ring.getNodes hash e.id).1 ≠ addr ∧ mode.late e.id = true) ∧
    (e.replica = addr → (ring.getNodes hash e.id).2 ≠ "" ∧ (ring.getNodes hash e.id).2 ≠ addr) := by
  rcases hg : ring.getNodes hash e.id with ⟨newPrimary, newReplica⟩
  by_cases hP : e.primary = addr
  · by_cases hR : e.replica = addr
    · -- both roles: two tasks, if the ring has a replica
      by_cases hempty : newReplica = ""
      · have hmoves : movesOf hash ring addr e = [.migrate ⟨e.id, addr, newPrimary, .high, true⟩] := by
          simp [movesOf, primaryMoves, replicaMoves, hg, hP, hR, hempty]
        rw [hmoves, mode.effective_singleton]
        by_cases hN : newPrimary = addr
        · simp [Move.onPair, migratedPair, PartitionInfo.pair, hP, hR, hN, hempty]
        · simp [Move.onPair, migratedPair, PartitionInfo.pair, hP, hR, hN, Ne.symm hN, hempty]
      · have hmoves : movesOf hash ring addr e =
            [.migrate ⟨e.id, addr, newPrimary, .high, true⟩, .migrate ⟨e.id, addr, newReplica, .normal, false⟩] := by
          simp [movesOf, primaryMoves, replicaMoves, hg, hP, hR, hempty]
        rw [hmoves, @Mode.effective_tasks mode ⟨e.id, addr, newPrimary, .high, true⟩
          ⟨e.id, addr, newReplica, .normal, false⟩ rfl]
        by_cases hN : newPrimary = addr
        · cases hl : mode.late e.id <;> simp [Move.onPair, migratedPair, PartitionInfo.pair, hP, hR, hN]
        · cases hl : mode.late e.id <;>
            simp [Move.onPair, migratedPair, PartitionInfo.pair, hP, hR, hN, Ne.symm hN, hempty]
    · -- a promotion or a task, and either leaves the node as replica
      by_cases hempty : e.replica = ""
      · have hmoves : movesOf hash ring addr e = [.migrate ⟨e.id, addr, newPrimary, .high, true⟩] := by
          simp only [movesOf, primaryMoves, hg, hP, if_true, hempty, ne_eq, not_true_eq_false, false_and, if_false,
            List.cons_append, List.nil_append]
          rw [hempty] at hR
          simp [hR]
        rw [hmoves, mode.effective_singleton]
        by_cases hN : newPrimary = addr
        · simp [Move.onPair, migratedPair, PartitionInfo.pair, hP, hR, hN]
        · simp [Move.onPair, migratedPair, PartitionInfo.pair, hP, hR, hN, Ne.symm hN]
      · have hmoves : movesOf hash ring addr e = [.promote e.id] := by
          simp [movesOf, primaryMoves, hg, hP, hR, hempty]
        rw [hmoves, mode.effective_singleton]
        simp [Move.onPair, PartitionInfo.pair, hP, hR]
  · by_cases hR : e.replica = addr
    · by_cases hempty : newReplica = ""
      · have hmoves : movesOf hash ring addr e = [] := by
          simp [movesOf, replicaMoves, hg, hP, hempty]
        rw [hmoves, mode.effective_nil]
        simp [PartitionInfo.pair, hP, hR, hempty]
      · have hmoves : movesOf hash ring addr e = [.migrate ⟨e.id, addr, newReplica, .normal, false⟩] := by
          simp [movesOf, replicaMoves, hg, hP, hR, hempty]
        rw [hmoves, mode.effective_singleton]
        simp [Move.onPair, migratedPair, PartitionInfo.pair, hP, hR, hempty]
    · have hmoves : movesOf hash ring addr e = [] := by simp [movesOf, hP, hR]
      rw [hmoves, mode.effective_nil]
      simp [PartitionInfo.pair, hP, hR]

/-- **A shutdown drains the node** exactly where every partition is drainable; no call fails. -/
theorem shutdown_drains_iff {nodes : List NodeInfo} {node : NodeInfo} {mode : Mode}
    (horder : order.Perm table.partitions.keys) (htargets : 0 < (shutdownTargets nodes node.id).length)
    (hmode : ∀ moves, shutdownMoves hash table order nodes node = .ok moves → mode.Performs moves) :
    ∃ r, shutdownNode hash table order nodes node mode = .ok r ∧ r.failed = 0 ∧
      (Drained node.addr r.table ↔ Drainable hash
        (buildRing hash ((shutdownTargets nodes node.id).map NodeInfo.addr)) node.addr mode table) := by
  obtain ⟨moves, hmoves⟩ := @shutdownMoves_ok hash table order nodes node htargets
  have hperf := hmode moves hmoves
  have hsome : ∀ m ∈ mode.performed moves, (table.entry m.partitionID).isSome := fun m hm =>
    isSome_of_mem_shutdownMoves hmoves (Mode.mem_of_performed hperf hm)
  obtain ⟨t, ht, hpair⟩ := editsPair_perform.runEdits hsome
  refine ⟨_, by rw [shutdownNode, hmoves], ?_, ?_⟩
  · rw [performMoves_of_runEdits ht]
    simp
  have hnd : order.Nodup := horder.nodup_iff.2 (OrdMap.nodup_keys _)
  -- partition by partition
  have hown : ∀ p e, table.entry p = some e → ((mode.performed moves).filter fun m => m.partitionID = p) =
      mode.effective (movesOf hash (buildRing hash ((shutdownTargets nodes node.id).map NodeInfo.addr)) node.addr e) := by
    intro p e he
    have hp : p ∈ order := horder.mem_iff.2 (by
      rw [OrdMap.mem_keys, OrdMap.contains, show table.partitions.get p = some e from he]
      rfl)
    rw [Mode.filter_performed hperf, filter_shutdownMoves hmoves hnd hp he]
  rw [performMoves_of_runEdits ht]
  constructor
  · intro h p e he
    have hp := hpair p
    rw [he, Option.map_some, hown p e he] at hp
    obtain ⟨e', he', hpair'⟩ := Option.map_eq_some_iff.1 hp
    have hiff := @onPair_movesOf_iff hash (buildRing hash ((shutdownTargets nodes node.id).map NodeInfo.addr)) node.addr
      mode e
    rw [← hpair', RouteTable.id_of_entry he] at hiff
    exact hiff.1 (h p e' he')
  · intro h p e' he'
    have hp := hpair p
    rw [he'] at hp
    obtain ⟨e, he, hpair'⟩ := Option.map_eq_some_iff.1 hp.symm
    have hiff := @onPair_movesOf_iff hash (buildRing hash ((shutdownTargets nodes node.id).map NodeInfo.addr)) node.addr
      mode e
    rw [← hown p e he, hpair', RouteTable.id_of_entry he] at hiff
    exact hiff.2 (h p e he)

end

/-- The shutdown of `A` beside `B` and `C`, for a table with partition 28 alone. -/
theorem shutdownMoves_of28 (primary replica : String) :
    shutdownMoves hashKey (tableOf28 primary replica) [28] [onlineNode "A", onlineNode "B", onlineNode "C"]
      (onlineNode "A") = .ok (movesOf hashKey (buildRing hashKey ["B", "C"]) "A" (entryOf28 primary replica)) := by
  have hone : ∀ (c : PartitionInfo → Prop) [DecidablePred c] (f : PartitionInfo → List Move) (e : PartitionInfo),
      ([e].filter fun x => decide (c x)).flatMap f = if c e then f e else [] := by
    intro c _ f e
    by_cases hc : c e
    · simp [hc]
    · simp [hc]
  have hentries : (tableOf28 primary replica).inOrder [28] = [entryOf28 primary replica] := rfl
  rw [shutdownMoves_three, hentries, hone fun x => x.primary = "A", hone fun x => x.replica = "A", movesOf]

theorem movesOf_replica {ring : ConsistentHash} (h : ring.getNodes hashKey 28 = ("C", "B")) :
    movesOf hashKey ring "A" (entryOf28 "D" "A") = [.migrate ⟨28, "A", "B", .normal, false⟩] := by
  simp [movesOf, replicaMoves, entryOf28, h]

theorem movesOf_primary {ring : ConsistentHash} (h : ring.getNodes hashKey 28 = ("C", "B")) :
    movesOf hashKey ring "A" (entryOf28 "A" "B") = [.promote 28] := by
  simp [movesOf, primaryMoves, entryOf28, h]

/-- The node is a replica, and the ring has another node for it. -/
theorem shutdown_drains_replica : ∃ r,
    shutdownNode hashKey (tableOf28 "D" "A") [28] [onlineNode "A", onlineNode "B", onlineNode "C"] (onlineNode "A")
      (.scheduled (fun _ => false) [.migrate ⟨28, "A", "B", .normal, false⟩]) = .ok r ∧
    r.failed = 0 ∧ Drained "A" r.table := by
  have hmoves := shutdownMoves_of28 "D" "A"
  rw [movesOf_replica getNodes_bc] at hmoves
  obtain ⟨r, hr, hfailed, hiff⟩ := @shutdown_drains_iff hashKey (tableOf28 "D" "A") [28]
    [onlineNode "A", onlineNode "B", onlineNode "C"] (onlineNode "A")
    (.scheduled (fun _ => false) [.migrate ⟨28, "A", "B", .normal, false⟩]) (List.Perm.refl _) (by decide)
    (fun moves h p => by
      obtain rfl := Except.ok.inj (hmoves.symm.trans h)
      rfl)
  refine ⟨r, hr, hfailed, hiff.2 fun p e he => ?_⟩
  have hring := getNodes_bc
  rw [show ["B", "C"] = (shutdownTargets [onlineNode "A", onlineNode "B", onlineNode "C"] (onlineNode "A").id).map
    NodeInfo.addr from by decide] at hring
  obtain ⟨rfl, rfl⟩ : p = 28 ∧ e = entryOf28 "D" "A" := by
    have hmem : (p, e) ∈ (tableOf28 "D" "A").partitions.entries := OrdMap.mem_entries.2 he
    exact Prod.mk.inj (List.mem_singleton.1 hmem)
  rw [hring]
  decide

/-- **Bug**: partition 28 is on `(A, B)`. The shutdown of `A` promotes `B`, counts no failure, and leaves `A` as the
replica. -/
theorem shutdown_leaves_replica : ∃ r,
    (∀ moves, shutdownMoves hashKey (tableOf28 "A" "B") [28] [onlineNode "A", onlineNode "B", onlineNode "C"]
      (onlineNode "A") = .ok moves → (Mode.scheduled (fun _ => false) [.promote 28]).Performs moves) ∧
    shutdownNode hashKey (tableOf28 "A" "B") [28] [onlineNode "A", onlineNode "B", onlineNode "C"] (onlineNode "A")
      (.scheduled (fun _ => false) [.promote 28]) = .ok r ∧
    r.failed = 0 ∧ (r.table.entry 28).map PartitionInfo.pair = some ("B", "A") ∧ ¬ Drained "A" r.table := by
  have hmoves := shutdownMoves_of28 "A" "B"
  rw [movesOf_primary getNodes_bc] at hmoves
  refine ⟨_, fun moves h p => ?_, by rw [shutdownNode, hmoves], rfl, rfl, fun h => ?_⟩
  · obtain rfl := Except.ok.inj (hmoves.symm.trans h)
    rfl
  · exact (h 28 _ rfl).2 rfl

end RocksKV.Metadata
