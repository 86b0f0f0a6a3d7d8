import RocksKV.Lib.Slice
import RocksKV.Metadata.Scheduler
/-!
# The queue of pending migrations (`pkg/metadata/migration_scheduler.go:98-430`)

| here | there |
| --- | --- |
| `insertPending`  | the insertion of `AddTask` (`:158-169`) |
| `removePending`  | the removal of `CancelTask` (`:211-216`) |
| `QueueCall`, `queueStep` | the calls that touch the queue, one after another, with any arguments |
| `availableSlots` | the `int32` arithmetic of `processQueue` (`:304-306`) |
| `QueueRun.pending` | `ms.pendingTasks` as the slice it is; `ms.pendingTasks` has its elements |

The slice is edited in place: an insertion and a removal write into the array they read from, `processQueue` moves the
slice's start (`:321`), `CancelAllTasks` its end (`:240`). No other slice on the array is kept, so the elements are all
there is to the queue (`StableQueue.slice`).

`accepted` is the history the order is stated with. A partition may be accepted again once its task has left the queue;
what counts is its last acceptance.
-/

namespace RocksKV.Metadata

open Lib

section
variable (grow : Nat → List TaskRef → List TaskRef)

/-- Before the first task of a lower priority, otherwise at the end. -/
def insertPending (task : TaskRef) (pending : Slice TaskRef) : Slice TaskRef :=
  match pending.view.findIdx? fun t => decide (t.task.priority.number < task.task.priority.number) with
  | some i => pending.insertAt grow i task
  | none => pending.append grow [task]

def removePending (partitionID : UInt32) (pending : Slice TaskRef) : Slice TaskRef :=
  match pending.view.findIdx? fun t => decide (t.partitionID = partitionID) with
  | some i => pending.removeAt grow i
  | none => pending

def MigrationScheduler.availableSlots (ms : MigrationScheduler) : Int32 :=
  Int32.ofNat ms.maxConcurrent - Int32.ofNat ms.activeTasks.values.length

structure QueueRun where
  ms       : MigrationScheduler
  pending  : Slice TaskRef
  /-- The tasks `AddTask` has accepted, the last one first. -/
  accepted : List TaskRef

namespace QueueRun

def start : QueueRun := { ms := .new, pending := .ofList [], accepted := [] }

/-- The run after the call, and its error. -/
def addTask (q : QueueRun) (task : TaskRef) : QueueRun × Option String :=
  match q.ms.addTask task with
  | .error e => (q, some e)
  | .ok ms => ({ ms := ms, pending := insertPending grow task q.pending, accepted := task :: q.accepted }, none)

def addTasks (q : QueueRun) : List TaskRef → QueueRun × Option String
  | [] => (q, none)
  | task :: rest =>
    match q.addTask grow task with
    | (q', some e) => (q', some e)
    | (q', none) => q'.addTasks rest

/-- An active task is taken off the map, any other off the queue. -/
def cancelTask (q : QueueRun) (partitionID : UInt32) : QueueRun :=
  match q.ms.cancelTask partitionID with
  | .error _ => q
  | .ok ms =>
    if q.ms.activeTasks.contains partitionID then { q with ms := ms }
    else { q with ms := ms, pending := removePending grow partitionID q.pending }

def processQueue (q : QueueRun) : QueueRun :=
  let tasksToStart := min q.ms.availableSlots.toInt.toNat q.pending.len
  { q with ms := q.ms.processQueue, pending := q.pending.after tasksToStart }

end QueueRun

inductive QueueCall
  | addTask (task : TaskRef)
  | addTasks (tasks : List TaskRef)
  | cancelTask (partitionID : UInt32)
  | cancelAllTasks (order : List (UInt32 × TaskRef))
  | setConfig (maxConcurrent : Int32)
  | processQueue
  | completeMigration (task : TaskRef) (ok : Bool)

def queueStep (q : QueueRun) : QueueCall → Option QueueRun
  | .addTask task => some (q.addTask grow task).1
  | .addTasks tasks => some (q.addTasks grow tasks).1
  | .cancelTask partitionID => some (q.cancelTask grow partitionID)
  | .cancelAllTasks order =>
    if order.Perm q.ms.activeTasks.entries then
      some { q with ms := q.ms.cancelAllTasks order, pending := q.pending.upTo 0 }
    else none
  | .setConfig maxConcurrent => some { q with ms := q.ms.setConfig maxConcurrent.toInt }
  | .processQueue => some q.processQueue
  | .completeMigration task ok => some { q with ms := q.ms.completeMigration task ok }

/-- The scheduler of a run does what `AddTasks` does. -/
theorem ms_addTasks : ∀ (tasks : List TaskRef) (q : QueueRun), (q.addTasks grow tasks).1.ms = q.ms.addTasks tasks
  | [], _ => rfl
  | task :: tasks, q => by
    unfold QueueRun.addTasks MigrationScheduler.addTasks QueueRun.addTask
    cases hadd : q.ms.addTask task with
    | error e => rfl
    | ok ms => exact ms_addTasks tasks _

end

/-! ## The edits of the slice -/

theorem insertByPriority_eq (task : TaskRef) : ∀ l : List TaskRef, insertByPriority task l =
    match l.findIdx? fun t => decide (t.task.priority.number < task.task.priority.number) with
    | some i => l.take i ++ task :: l.drop i
    | none => l ++ [task]
  | [] => rfl
  | t :: l => by
    rw [insertByPriority, List.findIdx?_cons]
    by_cases hlt : t.task.priority.number < task.task.priority.number
    · simp [hlt]
    · rw [insertByPriority_eq task l]
      cases hidx : l.findIdx? fun t => decide (t.task.priority.number < task.task.priority.number) with
      | none => simp [hlt]
      | some i => simp [hlt]

section
variable {grow : Nat → List TaskRef → List TaskRef}

theorem view_insertPending (task : TaskRef) (s : Slice TaskRef) :
    (insertPending grow task s).view = insertByPriority task s.view := by
  rw [insertPending, insertByPriority_eq]
  split
  · exact s.view_insertAt grow _ task
  · exact s.view_append grow [task]

theorem view_removePending (p : UInt32) (s : Slice TaskRef) :
    (removePending grow p s).view = s.view.eraseP fun t => decide (t.partitionID = p) := by
  rw [removePending, List.eraseP_eq_eraseIdx]
  split
  · next i hi =>
    rw [hi]
    exact s.view_removeAt grow i
  · next hnone => rw [hnone]

/-! ## The order -/

/-- The number of the partition's last acceptance. -/
def acceptedAt : List TaskRef → UInt32 → Nat
  | [], _ => 0
  | t :: earlier, p => if t.partitionID = p then earlier.length + 1 else acceptedAt earlier p

/-- `a` has the higher priority, or the same and was accepted before `b`. -/
def Precedes (accepted : List TaskRef) (a b : TaskRef) : Prop :=
  b.task.priority.number < a.task.priority.number ∨
    a.task.priority.number = b.task.priority.number ∧
      acceptedAt accepted a.partitionID < acceptedAt accepted b.partitionID

theorem acceptedAt_le (p : UInt32) : ∀ accepted : List TaskRef, acceptedAt accepted p ≤ accepted.length
  | [] => Nat.le_refl _
  | t :: earlier => by
    rw [acceptedAt]
    split_ifs
    · exact Nat.le_refl _
    · exact (acceptedAt_le p earlier).trans (Nat.le_succ _)

/-- An acceptance leaves the order of the other partitions. -/
theorem precedes_cons {accepted : List TaskRef} {task a b : TaskRef} (ha : a.partitionID ≠ task.partitionID)
    (hb : b.partitionID ≠ task.partitionID) (h : Precedes accepted a b) : Precedes (task :: accepted) a b := by
  unfold Precedes acceptedAt
  rw [if_neg ha.symm, if_neg hb.symm]
  exact h

theorem number_le_of_precedes {accepted : List TaskRef} {a b : TaskRef} (h : Precedes accepted a b) :
    b.task.priority.number ≤ a.task.priority.number := by
  rcases h with hlt | ⟨heq, -⟩
  · exact hlt.le
  · exact heq.ge

/-- **Insertion keeps the order**: the new task goes behind those of its priority and before those of a lower one. -/
theorem pairwise_insertByPriority {accepted : List TaskRef} {task : TaskRef} : ∀ {l : List TaskRef},
    l.Pairwise (Precedes accepted) →
    (∀ t ∈ l, acceptedAt accepted t.partitionID < acceptedAt accepted task.partitionID) →
    (insertByPriority task l).Pairwise (Precedes accepted)
  | [], _, _ => List.pairwise_singleton _ _
  | t :: l, h, hnew => by
    obtain ⟨ht, hl⟩ := List.pairwise_cons.1 h
    rw [insertByPriority]
    split_ifs with hlt
    · refine List.pairwise_cons.2 ⟨fun u hu => .inl ?_, h⟩
      rcases List.mem_cons.1 hu with rfl | hu
      · exact hlt
      · exact (number_le_of_precedes (ht u hu)).trans_lt hlt
    · refine List.pairwise_cons.2
        ⟨fun u hu => ?_, pairwise_insertByPriority hl fun u hu => hnew u (List.mem_cons_of_mem _ hu)⟩
      rcases List.mem_cons.1 ((insertByPriority_perm task l).mem_iff.1 hu) with rfl | hu
      · rcases Nat.lt_or_eq_of_le (Nat.le_of_not_lt hlt) with hless | heq
        · exact .inl hless
        · exact .inr ⟨heq.symm, hnew t List.mem_cons_self⟩
      · exact ht u hu

/-! ## The invariant -/

/-- **A stable priority queue.** -/
structure StableQueue (q : QueueRun) : Prop where
  slice    : q.pending.view = q.ms.pendingTasks
  order    : q.ms.pendingTasks.Pairwise (Precedes q.accepted)
  /-- A pending task is the one its partition was last accepted with. -/
  accepted : ∀ t ∈ q.ms.pendingTasks, (q.accepted.find? fun u => decide (u.partitionID = t.partitionID)) = some t
  oneTask  : OneTask q.ms.pendingTasks q.ms.activeTasks
  /-- The bound and the number of active tasks are numbers of 32 bits. -/
  bound    : q.ms.maxConcurrent < 2 ^ 31
  active   : q.ms.activeTasks.values.length < 2 ^ 31

theorem stableQueue_start : StableQueue QueueRun.start where
  slice    := Slice.view_ofList []
  order    := List.Pairwise.nil
  accepted := fun t ht => by cases ht
  oneTask  := ⟨by simp [QueueRun.start, MigrationScheduler.new], List.nodup_nil, fun t ht => by cases ht⟩
  bound    := by decide
  active   := by decide

variable {q : QueueRun}

/-- Fewer pending and fewer active tasks, the queue otherwise the same. -/
theorem StableQueue.fewer (h : StableQueue q) {ms : MigrationScheduler} {pending : Slice TaskRef}
    (hview : pending.view = ms.pendingTasks) (hsub : ms.pendingTasks.Sublist q.ms.pendingTasks)
    (hone : OneTask ms.pendingTasks ms.activeTasks) (hbound : ms.maxConcurrent < 2 ^ 31)
    (hactive : ms.activeTasks.values.length < 2 ^ 31) :
    StableQueue { q with ms := ms, pending := pending } where
  slice    := hview
  order    := h.order.sublist hsub
  accepted := fun t ht => h.accepted t (hsub.subset ht)
  oneTask  := hone
  bound    := hbound
  active   := hactive

theorem StableQueue.addTask (h : StableQueue q) (task : TaskRef) : StableQueue (q.addTask grow task).1 := by
  unfold QueueRun.addTask
  cases hadd : q.ms.addTask task with
  | error e => exact h
  | ok ms =>
    obtain ⟨hactive, hpending, rfl⟩ := addTask_ok hadd
    have hother : q.ms.pendingTasks.Pairwise (Precedes (task :: q.accepted)) :=
      h.order.imp_of_mem fun ha hb hab => precedes_cons (hpending _ ha) (hpending _ hb) hab
    have hlast : ∀ t ∈ q.ms.pendingTasks,
        acceptedAt (task :: q.accepted) t.partitionID < acceptedAt (task :: q.accepted) task.partitionID := by
      intro t ht
      rw [acceptedAt, acceptedAt, if_neg (hpending t ht).symm, if_pos rfl]
      exact Nat.lt_succ_of_le (acceptedAt_le _ _)
    refine
      { slice := (view_insertPending task q.pending).trans (congrArg _ h.slice)
        order := pairwise_insertByPriority hother hlast
        accepted := fun t ht => ?_
        oneTask := h.oneTask.add hactive hpending
        bound := h.bound
        active := h.active }
    rcases List.mem_cons.1 ((insertByPriority_perm task _).mem_iff.1 ht) with rfl | ht
    · simp
    · rw [List.find?_cons_of_neg (by simpa using (hpending t ht).symm)]
      exact h.accepted t ht

theorem StableQueue.addTasks : ∀ (tasks : List TaskRef) {q : QueueRun}, StableQueue q →
    StableQueue (q.addTasks grow tasks).1
  | [], _, h => h
  | task :: tasks, q, h => by
    have hadded : StableQueue (q.addTask grow task).1 := h.addTask task
    unfold QueueRun.addTasks
    split
    · next heq =>
      rw [heq] at hadded
      exact hadded
    · next heq =>
      rw [heq] at hadded
      exact StableQueue.addTasks tasks hadded

theorem length_values_erase_le (active : OrdMap UInt32 TaskRef) (p : UInt32) :
    (active.erase p).values.length ≤ active.values.length := by
  rw [OrdMap.values, OrdMap.values, List.length_map, List.length_map]
  exact List.length_filter_le _ _

theorem StableQueue.cancelTask (h : StableQueue q) (p : UInt32) : StableQueue (q.cancelTask grow p) := by
  unfold QueueRun.cancelTask
  cases hcancel : q.ms.cancelTask p with
  | error e => exact h
  | ok ms =>
    unfold MigrationScheduler.cancelTask at hcancel
    cases hget : q.ms.activeTasks.get p with
    | some task =>
      rw [hget] at hcancel
      cases hcancel
      have hcontains : q.ms.activeTasks.contains p = true := by rw [OrdMap.contains, hget]; rfl
      dsimp only
      rw [if_pos hcontains]
      exact h.fewer h.slice (List.Sublist.refl _) (h.oneTask.erase p) h.bound
        ((length_values_erase_le _ p).trans_lt h.active)
    | none =>
      rw [hget] at hcancel
      dsimp only at hcancel ⊢
      split_ifs at hcancel
      cases hcancel
      rw [if_neg (by rw [OrdMap.contains, hget]; decide)]
      refine h.fewer ?_ List.eraseP_sublist (h.oneTask.sublist List.eraseP_sublist) h.bound h.active
      rw [view_removePending, h.slice]

theorem StableQueue.cancelAllTasks (h : StableQueue q) (order : List (UInt32 × TaskRef)) :
    StableQueue { q with ms := q.ms.cancelAllTasks order, pending := q.pending.upTo 0 } := by
  refine h.fewer ?_ (List.nil_sublist _) ⟨?_, List.nodup_nil, fun t ht => by cases ht⟩ h.bound (Nat.two_pow_pos 31)
  · exact q.pending.view_upTo 0
  · intro p t ht
    cases ht

theorem StableQueue.setConfig (h : StableQueue q) (n : Int32) :
    StableQueue { q with ms := q.ms.setConfig n.toInt } := by
  unfold MigrationScheduler.setConfig
  split
  · have hlt := n.toInt_lt
    exact h.fewer h.slice (List.Sublist.refl _) h.oneTask (by show n.toInt.toNat < _; omega) h.active
  · exact h

theorem StableQueue.completeMigration (h : StableQueue q) (task : TaskRef) (ok : Bool) :
    StableQueue { q with ms := q.ms.completeMigration task ok } :=
  h.fewer h.slice (List.Sublist.refl _) (h.oneTask.erase _) h.bound ((length_values_erase_le _ _).trans_lt h.active)

/-! ### Starting tasks -/

/-- The subtraction of `processQueue` does not wrap. -/
theorem StableQueue.availableSlots (h : StableQueue q) :
    q.ms.availableSlots.toInt.toNat = q.ms.maxConcurrent - q.ms.activeTasks.values.length := by
  have hbound := h.bound
  have hactive := h.active
  rw [MigrationScheduler.availableSlots, Int32.toInt_sub, Int32.toInt_ofNat_of_lt h.bound,
    Int32.toInt_ofNat_of_lt h.active, Int.bmod_eq_of_le (by omega) (by omega)]
  omega

theorem StableQueue.processQueue (h : StableQueue q) : StableQueue q.processQueue := by
  have hlen : q.pending.len = q.ms.pendingTasks.length := by
    rw [← h.slice, Slice.length_view]
  refine h.fewer ?_ (List.drop_sublist _ _) (h.oneTask.start _) h.bound ?_
  · show (q.pending.after _).view = q.ms.pendingTasks.drop _
    rw [Slice.view_after, h.slice, hlen, ← List.drop_eq_drop_min, h.availableSlots]
  · have hvalues := (h.oneTask.started (q.ms.maxConcurrent - q.ms.activeTasks.values.length)).1.length_eq
    have hbound := h.bound
    have hactive := h.active
    rw [List.length_append, List.length_take] at hvalues
    refine hvalues.trans_lt ?_
    omega

/-- `processQueue` has started the first `k` pending tasks, in their order, and kept the others. -/
structure Starts (ms ms' : MigrationScheduler) (k : Nat) : Prop where
  rest    : ms'.pendingTasks = ms.pendingTasks.drop k
  started : ∀ t ∈ ms.pendingTasks.take k, ms'.activeTasks.get t.partitionID = some t
  others  : ∀ p, (∀ t ∈ ms.pendingTasks.take k, t.partitionID ≠ p) → ms'.activeTasks.get p = ms.activeTasks.get p
  spawned : ms'.goroutines.map (·.task) = ms.goroutines.map (·.task) ++ ms.pendingTasks.take k

theorem StableQueue.starts (h : StableQueue q) :
    Starts q.ms q.ms.processQueue (min q.ms.availableSlots.toInt.toNat q.ms.pendingTasks.length) := by
  obtain ⟨-, hget⟩ := h.oneTask.started (q.ms.maxConcurrent - q.ms.activeTasks.values.length)
  have hnodup := h.oneTask.queue.sublist
    ((List.take_sublist (q.ms.maxConcurrent - q.ms.activeTasks.values.length) q.ms.pendingTasks).map _)
  rw [h.availableSlots]
  refine ⟨List.drop_eq_drop_min, ?_, ?_, ?_⟩ <;> rw [← List.take_eq_take_min]
  · intro t ht
    refine (hget t.partitionID).trans ?_
    rw [Option.or_eq_some_iff]
    left
    obtain ⟨u, hu⟩ : ∃ u, ((q.ms.pendingTasks.take (q.ms.maxConcurrent - q.ms.activeTasks.values.length)).find?
        fun u => decide (t.partitionID = u.partitionID)) = some u :=
      Option.isSome_iff_exists.1 (List.find?_isSome.2 ⟨t, ht, decide_eq_true rfl⟩)
    have heq := List.find?_some hu
    rw [hu, List.inj_on_of_nodup_map hnodup (List.mem_of_find?_eq_some hu) ht (of_decide_eq_true heq).symm]
  · intro p hp
    refine (hget p).trans ?_
    have hnone : ((q.ms.pendingTasks.take (q.ms.maxConcurrent - q.ms.activeTasks.values.length)).find?
        fun t => decide (p = t.partitionID)) = none :=
      List.find?_eq_none.2 fun t ht heq => hp t ht (of_decide_eq_true heq).symm
    rw [hnone]
    rfl
  · show (List.map _ (q.ms.goroutines ++ _)) = _
    rw [List.map_append, map_task_spawned]

/-! ## Runs -/

theorem stableQueue_step (q : QueueRun) (call : QueueCall) (q' : QueueRun) (h : StableQueue q)
    (hstep : queueStep grow q call = some q') : StableQueue q' := by
  cases call with
  | addTask task =>
    cases hstep
    exact h.addTask task
  | addTasks tasks =>
    cases hstep
    exact h.addTasks tasks
  | cancelTask p =>
    cases hstep
    exact h.cancelTask p
  | cancelAllTasks order =>
    simp only [queueStep] at hstep
    split at hstep
    · cases hstep
      exact h.cancelAllTasks order
    · cases hstep
  | setConfig n =>
    cases hstep
    exact h.setConfig n
  | processQueue =>
    cases hstep
    exact h.processQueue
  | completeMigration task ok =>
    cases hstep
    exact h.completeMigration task ok

/-- **The migration queue is a stable priority queue** in every run of its calls; a task that is refused changes nothing,
and `processQueue` starts as many of the first tasks as there are free slots. -/
theorem migration_queue_stable {calls : List QueueCall} (hrun : run (queueStep grow) QueueRun.start calls = some q) :
    StableQueue q ∧
    (∀ task, (q.addTask grow task).2 ≠ none → (q.addTask grow task).1 = q) ∧
    Starts q.ms q.processQueue.ms (min q.ms.availableSlots.toInt.toNat q.ms.pendingTasks.length) := by
  have h : StableQueue q := run_inv stableQueue_step stableQueue_start hrun
  refine ⟨h, fun task hrefused => ?_, h.starts⟩
  unfold QueueRun.addTask at hrefused ⊢
  cases hadd : q.ms.addTask task with
  | error e => rfl
  | ok ms =>
    rw [hadd] at hrefused
    exact absurd rfl hrefused

end

/-- A task for a partition. -/
def taskFor (partitionID : UInt32) (priority : MigrationPriority) : TaskRef :=
  ⟨partitionID.toNat, ⟨partitionID, "A", "B", priority, true⟩⟩

/-- Two tasks of one priority and one of a higher one; the first is cancelled and added again; one slot. -/
def queueCalls : List QueueCall :=
  [.addTasks [taskFor 1 .normal, taskFor 2 .normal, taskFor 3 .high], .addTask (taskFor 2 .urgent), .cancelTask 1,
    .addTask (taskFor 1 .normal), .setConfig 1]

/-- An allocator that doubles the capacity. -/
def doubling (cap : Nat) (tasks : List TaskRef) : List TaskRef := List.replicate (2 * cap - tasks.length) (taskFor 0 .low)

theorem migration_queue_stable_three :
    ∃ q : QueueRun, run (queueStep doubling) QueueRun.start queueCalls = some q ∧
      q.ms.pendingTasks = [taskFor 3 .high, taskFor 2 .normal, taskFor 1 .normal] ∧ StableQueue q ∧
      q.processQueue.ms.pendingTasks = [taskFor 2 .normal, taskFor 1 .normal] := by
  refine ⟨_, rfl, by decide, ?_⟩
  obtain ⟨hstable, -, hstarts⟩ := @migration_queue_stable doubling _ queueCalls rfl
  exact ⟨hstable, hstarts.rest⟩

end RocksKV.Metadata
