import RocksKV.Lib.Run
import RocksKV.Metadata.Shutdown
/-!
# The migration scheduler (`pkg/metadata/migration_scheduler.go`)

| here | there |
| --- | --- |
| `TaskRef`           | a `*MigrationTask`; `ref` is the object, which is what the lists and the map hold |
| `addTask`, `addTasks`, `insertByPriority` | `AddTask` (`:139-179`), `AddTasks` (`:182-189`) |
| `cancelTask`, `cancelAllTasks` | `CancelTask` (`:192-219`), `CancelAllTasks` (`:222-243`) |
| `processQueue`      | `processQueue` (`:300-337`) |
| `Goroutine`, `Point` | a run of `executeMigration` (`:340-395`) and where it stands |
| `completeMigration` | `completeMigration` (`:398-430`) |

`tasksMu` makes each of these one step, but for two. `AddTasks` takes it once a task: as one step it is the run in which
nothing comes between, any other is a run of `addTask`s. `processQueue` spawns after the unlock: the goroutine of a task
that is active and not yet spawned stands at `started`. `executeMigration` takes the mutex only at its end, so between
its store call, its wait and its call of `Router.CompleteMigration` anything may happen. A task's own fields (state,
times, error) and the migration record in etcd are written here but read by none of these functions.

`task.cancel` cancels a context that `processQueue` has thrown away (`_, cancel := context.WithTimeout(…)`, `:323`):
the goroutine waits on another one, derived from `ms.ctx` (`:346`). So a cancelled task goes on.
-/

namespace RocksKV.Metadata

open Lib

structure TaskRef where
  ref  : Nat
  task : MigrationTask
  deriving DecidableEq, Repr

def TaskRef.partitionID (t : TaskRef) : UInt32 := t.task.partitionID

/-- Where an `executeMigration` stands. -/
inductive Point
  /-- To be spawned, or in `SetMigrationState`. -/
  | started
  /-- In the `select`. -/
  | waiting
  /-- The wait is over, `Router.CompleteMigration` comes next. -/
  | switching
  /-- `Router.CompleteMigration` has returned. -/
  | called (ok : Bool)
  /-- On the way out with an error, before that call. -/
  | failing
  deriving DecidableEq, Repr

structure Goroutine where
  gid   : Nat
  task  : TaskRef
  point : Point
  deriving DecidableEq, Repr

structure MigrationScheduler where
  maxConcurrent  : Nat
  pendingTasks   : List TaskRef
  activeTasks    : OrdMap UInt32 TaskRef
  completedTasks : List TaskRef
  totalMigrated  : Nat
  totalFailed    : Nat
  /-- The runs of `executeMigration` that have not returned. -/
  goroutines     : List Goroutine
  /-- How many have been spawned; the next one's `gid`. -/
  spawned        : Nat
  /-- The goroutines that have called `Router.CompleteMigration`. -/
  calls          : List Nat

/-- Behind the tasks of at least its priority. -/
def insertByPriority (task : TaskRef) : List TaskRef → List TaskRef
  | [] => [task]
  | t :: rest =>
    if t.task.priority.number < task.task.priority.number then task :: t :: rest else t :: insertByPriority task rest

namespace MigrationScheduler

/-- `NewMigrationScheduler`, with `DefaultMaxConcurrent`. -/
def new : MigrationScheduler :=
  { maxConcurrent := 4, pendingTasks := [], activeTasks := OrdMap.empty, completedTasks := [], totalMigrated := 0
    totalFailed := 0, goroutines := [], spawned := 0, calls := [] }

def setConfig (ms : MigrationScheduler) (maxConcurrent : Int) : MigrationScheduler :=
  if 0 < maxConcurrent then { ms with maxConcurrent := maxConcurrent.toNat } else ms

def addTask (ms : MigrationScheduler) (task : TaskRef) : Except String MigrationScheduler :=
  if ms.activeTasks.contains task.partitionID then
    .error s!"partition {task.partitionID} already has active migration"
  else if ms.pendingTasks.any fun t => decide (t.partitionID = task.partitionID) then
    .error s!"partition {task.partitionID} already in pending queue"
  else .ok { ms with pendingTasks := insertByPriority task ms.pendingTasks }

/-- The first refused task ends the loop; those before it stay. -/
def addTasks (ms : MigrationScheduler) : List TaskRef → MigrationScheduler
  | [] => ms
  | task :: rest =>
    match ms.addTask task with
    | .error _ => ms
    | .ok ms' => ms'.addTasks rest

def cancelTask (ms : MigrationScheduler) (partitionID : UInt32) : Except String MigrationScheduler :=
  match ms.activeTasks.get partitionID with
  | some task =>
    .ok { ms with
      completedTasks := ms.completedTasks ++ [task]
      activeTasks := ms.activeTasks.erase partitionID
      totalFailed := ms.totalFailed + 1 }
  | none =>
    if ms.pendingTasks.any fun t => decide (t.partitionID = partitionID) then
      .ok { ms with pendingTasks := ms.pendingTasks.eraseP fun t => decide (t.partitionID = partitionID) }
    else .error s!"partition {partitionID} not found in migration queue"

/-- `order` is the order in which the map is ranged over. -/
def cancelAllTasks (ms : MigrationScheduler) (order : List (UInt32 × TaskRef)) : MigrationScheduler :=
  { ms with
    completedTasks := ms.completedTasks ++ order.map Prod.snd
    activeTasks := OrdMap.empty
    totalFailed := ms.totalFailed + order.length
    pendingTasks := [] }

def processQueue (ms : MigrationScheduler) : MigrationScheduler :=
  let availableSlots := ms.maxConcurrent - ms.activeTasks.values.length
  let tasksToStart := ms.pendingTasks.take availableSlots
  { ms with
    pendingTasks := ms.pendingTasks.drop availableSlots
    activeTasks := tasksToStart.foldl (fun active t => active.insert t.partitionID t) ms.activeTasks
    goroutines := ms.goroutines ++ (tasksToStart.zipIdx ms.spawned).map fun t => ⟨t.2, t.1, .started⟩
    spawned := ms.spawned + tasksToStart.length }

/-- `ok` is `err == nil`. -/
def completeMigration (ms : MigrationScheduler) (task : TaskRef) (ok : Bool) : MigrationScheduler :=
  { ms with
    totalMigrated := if ok then ms.totalMigrated + 1 else ms.totalMigrated
    totalFailed := if ok then ms.totalFailed else ms.totalFailed + 1
    completedTasks := ms.completedTasks ++ [task]
    activeTasks := ms.activeTasks.erase task.partitionID }

/-- Goroutine `i` moves on. -/
def moveTo (ms : MigrationScheduler) (i : Nat) (g : Goroutine) (point : Point) : MigrationScheduler :=
  { ms with goroutines := ms.goroutines.set i { g with point := point } }

end MigrationScheduler

inductive SchedAct
  | addTask (task : TaskRef)
  | addTasks (tasks : List TaskRef)
  | cancelTask (partitionID : UInt32)
  | cancelAllTasks (order : List (UInt32 × TaskRef))
  | setConfig (maxConcurrent : Int)
  | processQueue
  /-- `SetMigrationState` of goroutine `i` returns. -/
  | setState (i : Nat) (ok : Bool)
  /-- Its `select` takes the timer, or its context is done. -/
  | select (i : Nat) (timer : Bool)
  /-- It calls `Router.CompleteMigration`, which succeeds or fails. -/
  | completeCall (i : Nat) (ok : Bool)
  /-- It calls `completeMigration` and returns. -/
  | finish (i : Nat)

/-- A call that returns an error changes nothing. -/
def schedStep (ms : MigrationScheduler) : SchedAct → Option MigrationScheduler
  | .addTask task =>
    match ms.addTask task with
    | .error _ => some ms
    | .ok ms' => some ms'
  | .addTasks tasks => some (ms.addTasks tasks)
  | .cancelTask partitionID =>
    match ms.cancelTask partitionID with
    | .error _ => some ms
    | .ok ms' => some ms'
  | .cancelAllTasks order => if order.Perm ms.activeTasks.entries then some (ms.cancelAllTasks order) else none
  | .setConfig maxConcurrent => some (ms.setConfig maxConcurrent)
  | .processQueue => some ms.processQueue
  | .setState i ok =>
    match ms.goroutines[i]? with
    | some ⟨gid, task, .started⟩ => some (ms.moveTo i ⟨gid, task, .started⟩ (if ok then .waiting else .failing))
    | _ => none
  | .select i timer =>
    match ms.goroutines[i]? with
    | some ⟨gid, task, .waiting⟩ => some (ms.moveTo i ⟨gid, task, .waiting⟩ (if timer then .switching else .failing))
    | _ => none
  | .completeCall i ok =>
    match ms.goroutines[i]? with
    | some ⟨gid, task, .switching⟩ =>
      some { ms.moveTo i ⟨gid, task, .switching⟩ (.called ok) with calls := ms.calls ++ [gid] }
    | _ => none
  | .finish i =>
    match ms.goroutines[i]? with
    | some ⟨_, task, .called ok⟩ =>
      some ({ ms with goroutines := ms.goroutines.eraseIdx i }.completeMigration task ok)
    | some ⟨_, task, .failing⟩ =>
      some ({ ms with goroutines := ms.goroutines.eraseIdx i }.completeMigration task false)
    | _ => none

/-- The moves of a goroutine that call nothing. -/
inductive Point.Next : Point → Point → Prop
  | stored (ok : Bool) : Next .started (if ok then .waiting else .failing)
  | waited (timer : Bool) : Next .waiting (if timer then .switching else .failing)

/-- What a step can do. -/
inductive SchedStep (ms : MigrationScheduler) : SchedAct → MigrationScheduler → Prop
  | refused (a : SchedAct) : SchedStep ms a ms
  | addTask {task : TaskRef} {ms' : MigrationScheduler} (h : ms.addTask task = .ok ms') : SchedStep ms (.addTask task) ms'
  | addTasks (tasks : List TaskRef) : SchedStep ms (.addTasks tasks) (ms.addTasks tasks)
  | cancelTask {p : UInt32} {ms' : MigrationScheduler} (h : ms.cancelTask p = .ok ms') :
    SchedStep ms (.cancelTask p) ms'
  | cancelAllTasks {order : List (UInt32 × TaskRef)} (h : order.Perm ms.activeTasks.entries) :
    SchedStep ms (.cancelAllTasks order) (ms.cancelAllTasks order)
  | setConfig (n : Int) : SchedStep ms (.setConfig n) (ms.setConfig n)
  | processQueue : SchedStep ms .processQueue ms.processQueue
  | move {a : SchedAct} {i : Nat} {g : Goroutine} {point : Point} (hg : ms.goroutines[i]? = some g)
    (hp : g.point.Next point) : SchedStep ms a (ms.moveTo i g point)
  | call {a : SchedAct} {i : Nat} {g : Goroutine} (ok : Bool) (hg : ms.goroutines[i]? = some g)
    (hp : g.point = .switching) :
    SchedStep ms a { ms.moveTo i g (.called ok) with calls := ms.calls ++ [g.gid] }
  | finish {a : SchedAct} {i : Nat} {g : Goroutine} (ok : Bool) (hg : ms.goroutines[i]? = some g)
    (hp : g.point = .called ok ∨ g.point = .failing) :
    SchedStep ms a ({ ms with goroutines := ms.goroutines.eraseIdx i }.completeMigration g.task ok)

theorem schedStep_cases {ms ms' : MigrationScheduler} {a : SchedAct} (h : schedStep ms a = some ms') :
    SchedStep ms a ms' := by
  cases a with
  | addTask task =>
    simp only [schedStep] at h
    split at h
    · cases h
      exact .refused _
    · next hadd =>
      cases h
      exact .addTask hadd
  | addTasks tasks =>
    cases h
    exact .addTasks tasks
  | cancelTask p =>
    simp only [schedStep] at h
    split at h
    · cases h
      exact .refused _
    · next hcancel =>
      cases h
      exact .cancelTask hcancel
  | cancelAllTasks order =>
    simp only [schedStep] at h
    split at h
    · next horder =>
      cases h
      exact .cancelAllTasks horder
    · cases h
  | setConfig n =>
    cases h
    exact .setConfig n
  | processQueue =>
    cases h
    exact .processQueue
  | setState i ok =>
    simp only [schedStep] at h
    split at h
    · next hg =>
      cases h
      exact .move hg (.stored ok)
    · cases h
  | select i timer =>
    simp only [schedStep] at h
    split at h
    · next hg =>
      cases h
      exact .move hg (.waited timer)
    · cases h
  | completeCall i ok =>
    simp only [schedStep] at h
    split at h
    · next hg =>
      cases h
      exact .call ok hg rfl
    · cases h
  | finish i =>
    simp only [schedStep] at h
    split at h
    · next ok hg =>
      cases h
      exact .finish ok hg (.inl rfl)
    · next hg =>
      cases h
      exact .finish false hg (.inr rfl)
    · cases h

/-! ## Bookkeeping -/

/-- **Exact bookkeeping.** -/
structure MigrationScheduler.Exact (ms : MigrationScheduler) : Prop where
  /-- The tasks whose `executeMigration` runs are the active ones. -/
  running : (ms.goroutines.map (·.task)).Perm ms.activeTasks.values
  /-- No task is completed twice. -/
  once    : (ms.completedTasks.map (·.ref)).Nodup
  totals  : ms.totalMigrated + ms.totalFailed = ms.completedTasks.length

/-- All tasks of the scheduler. -/
def MigrationScheduler.tasks (ms : MigrationScheduler) : List TaskRef :=
  ms.pendingTasks ++ (ms.activeTasks.values ++ ms.completedTasks)

/-- No active task is cancelled, and no task is added that the scheduler has, or has completed. -/
def Undisturbed (ms : MigrationScheduler) : SchedAct → Prop
  | .addTask task => task.ref ∉ ms.tasks.map (·.ref)
  | .addTasks tasks => (tasks.map (·.ref)).Nodup ∧ ∀ task ∈ tasks, task.ref ∉ ms.tasks.map (·.ref)
  | .cancelTask partitionID => ms.activeTasks.get partitionID = none
  | .cancelAllTasks _ => ms.activeTasks.entries = []
  | _ => True

instance (ms : MigrationScheduler) : ∀ a : SchedAct, Decidable (Undisturbed ms a)
  | .addTask task => inferInstanceAs (Decidable (task.ref ∉ ms.tasks.map (·.ref)))
  | .addTasks tasks =>
    inferInstanceAs (Decidable ((tasks.map (·.ref)).Nodup ∧ ∀ task ∈ tasks, task.ref ∉ ms.tasks.map (·.ref)))
  | .cancelTask partitionID => inferInstanceAs (Decidable (ms.activeTasks.get partitionID = none))
  | .cancelAllTasks _ => inferInstanceAs (Decidable (ms.activeTasks.entries = []))
  | .setConfig _ | .processQueue | .setState _ _ | .select _ _ | .completeCall _ _ | .finish _ =>
    inferInstanceAs (Decidable True)

structure SchedInv (ms : MigrationScheduler) : Prop where
  running : (ms.goroutines.map (·.task)).Perm ms.activeTasks.values
  /-- Every task is in one place. -/
  refs    : (ms.tasks.map (·.ref)).Nodup
  keyed   : ∀ p t, ms.activeTasks.get p = some t → t.partitionID = p
  /-- A partition has one task, pending or active. -/
  queue   : (ms.pendingTasks.map (·.partitionID)).Nodup
  waiting : ∀ t ∈ ms.pendingTasks, ms.activeTasks.get t.partitionID = none

theorem schedInv_new : SchedInv MigrationScheduler.new where
  running := List.Perm.refl _
  refs    := List.nodup_nil
  keyed   := by simp [MigrationScheduler.new]
  queue   := List.nodup_nil
  waiting := by simp [MigrationScheduler.new]

theorem insertByPriority_perm (task : TaskRef) : ∀ l : List TaskRef, (insertByPriority task l).Perm (task :: l)
  | [] => List.Perm.refl _
  | t :: l => by
    unfold insertByPriority
    split_ifs
    · exact List.Perm.refl _
    · exact ((insertByPriority_perm task l).cons t).trans (List.Perm.swap task t l)

/-! ### One task for a partition

This part of the invariant holds in every run, whatever is cancelled. -/

/-- A partition has one task, pending or active. -/
structure OneTask (pending : List TaskRef) (active : OrdMap UInt32 TaskRef) : Prop where
  keyed   : ∀ p t, active.get p = some t → t.partitionID = p
  queue   : (pending.map (·.partitionID)).Nodup
  waiting : ∀ t ∈ pending, active.get t.partitionID = none

section
variable {pending : List TaskRef} {active : OrdMap UInt32 TaskRef}

theorem SchedInv.oneTask {ms : MigrationScheduler} (h : SchedInv ms) : OneTask ms.pendingTasks ms.activeTasks :=
  ⟨h.keyed, h.queue, h.waiting⟩

theorem OneTask.add (h : OneTask pending active) {task : TaskRef} (hactive : active.get task.partitionID = none)
    (hpending : ∀ t ∈ pending, t.partitionID ≠ task.partitionID) : OneTask (insertByPriority task pending) active where
  keyed   := h.keyed
  queue   := by
    refine ((insertByPriority_perm task pending).map _).nodup_iff.2 (List.nodup_cons.2 ⟨fun hin => ?_, h.queue⟩)
    obtain ⟨t, ht, heq⟩ := List.mem_map.1 hin
    exact hpending t ht heq
  waiting := by
    intro t ht
    rcases List.mem_cons.1 ((insertByPriority_perm task pending).mem_iff.1 ht) with rfl | ht
    · exact hactive
    · exact h.waiting t ht

theorem OneTask.sublist (h : OneTask pending active) {fewer : List TaskRef} (hsub : fewer.Sublist pending) :
    OneTask fewer active :=
  ⟨h.keyed, h.queue.sublist (hsub.map _), fun t ht => h.waiting t (hsub.subset ht)⟩

theorem OneTask.erase (h : OneTask pending active) (p : UInt32) : OneTask pending (active.erase p) where
  keyed   := by
    intro q t hq
    rw [OrdMap.get_erase] at hq
    split_ifs at hq
    exact h.keyed q t hq
  queue   := h.queue
  waiting := by
    intro t ht
    rw [OrdMap.get_erase, h.waiting t ht, ite_self]

/-- Tasks of new, distinct partitions are all in the map. -/
theorem insert_started : ∀ {start : List TaskRef} {active : OrdMap UInt32 TaskRef},
    (start.map (·.partitionID)).Nodup → (∀ t ∈ start, active.get t.partitionID = none) →
    (start.foldl (fun active t => active.insert t.partitionID t) active).values.Perm (start ++ active.values) ∧
      ∀ p, (start.foldl (fun active t => active.insert t.partitionID t) active).get p =
        (start.find? fun t => decide (p = t.partitionID)).or (active.get p)
  | [], active, _, _ => ⟨List.Perm.refl _, fun p => rfl⟩
  | t :: start, active, hnd, hnew => by
    rw [List.map_cons, List.nodup_cons] at hnd
    have hother : ∀ u ∈ start, (active.insert t.partitionID t).get u.partitionID = none := by
      intro u hu
      have hne : u.partitionID ≠ t.partitionID := fun heq => hnd.1 (heq ▸ List.mem_map_of_mem hu)
      rw [OrdMap.get_insert_ne _ _ hne]
      exact hnew u (List.mem_cons_of_mem _ hu)
    obtain ⟨hperm, hget⟩ := insert_started hnd.2 hother
    refine ⟨?_, fun p => ?_⟩
    · have hins := OrdMap.values_insert t (hnew t List.mem_cons_self)
      exact hperm.trans ((hins.append_left start).trans List.perm_middle)
    · rw [List.foldl_cons, hget, List.find?_cons]
      by_cases hp : p = t.partitionID
      · subst hp
        have hnone : start.find? (fun u => decide (t.partitionID = u.partitionID)) = none := by
          refine List.find?_eq_none.2 fun u hu heq => hnd.1 ?_
          rw [of_decide_eq_true heq]
          exact List.mem_map_of_mem hu
        simp [hnone]
      · simp [hp, OrdMap.get_insert_ne _ _ hp]

/-- The first `n` tasks move from the queue to the map. -/
theorem OneTask.started (h : OneTask pending active) (n : Nat) :
    ((pending.take n).foldl (fun active t => active.insert t.partitionID t) active).values.Perm
        (pending.take n ++ active.values) ∧
      ∀ p, ((pending.take n).foldl (fun active t => active.insert t.partitionID t) active).get p =
        ((pending.take n).find? fun t => decide (p = t.partitionID)).or (active.get p) :=
  insert_started (h.queue.sublist ((List.take_sublist n pending).map _)) fun t ht =>
    h.waiting t (List.mem_of_mem_take ht)

theorem OneTask.start (h : OneTask pending active) (n : Nat) :
    OneTask (pending.drop n)
      ((pending.take n).foldl (fun active t => active.insert t.partitionID t) active) := by
  obtain ⟨-, hget⟩ := h.started n
  have hqueue := h.queue
  rw [← List.take_append_drop n pending, List.map_append, List.nodup_append] at hqueue
  obtain ⟨-, hrest, hapart⟩ := hqueue
  refine ⟨fun p t hp => ?_, hrest, fun t ht => ?_⟩
  · rw [hget, Option.or_eq_some_iff] at hp
    rcases hp with hfound | ⟨-, hold⟩
    · have heq := List.find?_some hfound
      exact (of_decide_eq_true heq).symm
    · exact h.keyed p t hold
  · rw [hget, Option.or_eq_none_iff]
    refine ⟨List.find?_eq_none.2 fun u hu heq => ?_, h.waiting t (List.mem_of_mem_drop ht)⟩
    exact hapart _ (List.mem_map_of_mem hu) _ (List.mem_map_of_mem ht) (of_decide_eq_true heq).symm

end

section
variable {ms : MigrationScheduler}

theorem SchedInv.once (h : SchedInv ms) : (ms.completedTasks.map (·.ref)).Nodup := by
  have hrefs := h.refs
  rw [MigrationScheduler.tasks, List.map_append, List.map_append] at hrefs
  exact (List.nodup_append.1 (List.nodup_append.1 hrefs).2.1).2.1

/-! ### Queue operations -/

/-- A task that is accepted has a partition with no other. -/
theorem addTask_ok {task : TaskRef} {ms' : MigrationScheduler} (h : ms.addTask task = .ok ms') :
    ms.activeTasks.get task.partitionID = none ∧ (∀ t ∈ ms.pendingTasks, t.partitionID ≠ task.partitionID) ∧
      ms' = { ms with pendingTasks := insertByPriority task ms.pendingTasks } := by
  unfold MigrationScheduler.addTask at h
  split_ifs at h with hactive hpending
  cases h
  refine ⟨OrdMap.contains_eq_false.1 (Bool.eq_false_iff.2 hactive), fun t ht heq => hpending ?_, rfl⟩
  exact List.any_eq_true.2 ⟨t, ht, decide_eq_true heq⟩

theorem SchedInv.addTask (h : SchedInv ms) {task : TaskRef} (hnew : task.ref ∉ ms.tasks.map (·.ref))
    {ms' : MigrationScheduler} (hadd : ms.addTask task = .ok ms') :
    SchedInv ms' ∧ ms'.tasks.Perm (task :: ms.tasks) := by
  obtain ⟨hactive, hpending, rfl⟩ := addTask_ok hadd
  have htasks : ({ ms with pendingTasks := insertByPriority task ms.pendingTasks } : MigrationScheduler).tasks.Perm
      (task :: ms.tasks) := (insertByPriority_perm task ms.pendingTasks).append_right _
  have hone := h.oneTask.add hactive hpending
  refine ⟨⟨h.running, ?_, hone.keyed, hone.queue, hone.waiting⟩, htasks⟩
  exact (htasks.map _).nodup_iff.2 (List.nodup_cons.2 ⟨hnew, h.refs⟩)

theorem SchedInv.addTasks : ∀ {tasks : List TaskRef} {ms : MigrationScheduler}, SchedInv ms →
    (tasks.map (·.ref)).Nodup → (∀ task ∈ tasks, task.ref ∉ ms.tasks.map (·.ref)) → SchedInv (ms.addTasks tasks)
  | [], _, h, _, _ => h
  | task :: tasks, ms, h, hnd, hnew => by
    rw [List.map_cons, List.nodup_cons] at hnd
    unfold MigrationScheduler.addTasks
    cases hadd : ms.addTask task with
    | error e => exact h
    | ok ms' =>
      obtain ⟨h', hperm⟩ := h.addTask (hnew task List.mem_cons_self) hadd
      refine SchedInv.addTasks h' hnd.2 fun t ht hin => ?_
      rw [(hperm.map _).mem_iff, List.map_cons, List.mem_cons] at hin
      rcases hin with heq | hin
      · exact hnd.1 (heq ▸ List.mem_map_of_mem ht)
      · exact hnew t (List.mem_cons_of_mem _ ht) hin

/-- Fewer pending tasks. -/
theorem SchedInv.dropPending (h : SchedInv ms) {pending : List TaskRef} (hsub : pending.Sublist ms.pendingTasks) :
    SchedInv { ms with pendingTasks := pending } :=
  have hone := h.oneTask.sublist hsub
  ⟨h.running, h.refs.sublist ((hsub.append_right _).map _), hone.keyed, hone.queue, hone.waiting⟩

theorem SchedInv.cancelTask (h : SchedInv ms) {p : UInt32} (hnone : ms.activeTasks.get p = none)
    {ms' : MigrationScheduler} (hc : ms.cancelTask p = .ok ms') : SchedInv ms' := by
  simp only [MigrationScheduler.cancelTask, hnone] at hc
  split_ifs at hc
  cases hc
  exact h.dropPending (List.eraseP_sublist)

theorem SchedInv.cancelAllTasks (h : SchedInv ms) {order : List (UInt32 × TaskRef)}
    (hnone : ms.activeTasks.entries = []) (horder : order.Perm ms.activeTasks.entries) :
    SchedInv (ms.cancelAllTasks order) := by
  rw [hnone] at horder
  obtain rfl := horder.eq_nil
  have hempty : ms.activeTasks = OrdMap.empty := OrdMap.eq_of_entries hnone
  have heq : ms.cancelAllTasks [] = { ms with pendingTasks := [] } := by
    simp [MigrationScheduler.cancelAllTasks, hempty]
  rw [heq]
  exact h.dropPending (List.nil_sublist _)

/-! ### Starting tasks -/

theorem map_task_spawned (start : List TaskRef) (n : Nat) :
    (((start.zipIdx n).map fun t => (⟨t.2, t.1, .started⟩ : Goroutine)).map (·.task)) = start := by
  rw [List.map_map]
  exact List.zipIdx_map_fst n start

theorem SchedInv.processQueue (h : SchedInv ms) : SchedInv ms.processQueue := by
  set n := ms.maxConcurrent - ms.activeTasks.values.length with hn
  obtain ⟨hvalues, -⟩ := h.oneTask.started n
  have hone := h.oneTask.start n
  refine ⟨?_, ?_, hone.keyed, hone.queue, hone.waiting⟩
  · show (List.map _ (ms.goroutines ++ _)).Perm _
    rw [List.map_append, map_task_spawned]
    exact (h.running.append_right _).trans (List.perm_append_comm.trans hvalues.symm)
  · -- the started tasks move from the queue to the map
    have hmoved : ms.processQueue.tasks.Perm ms.tasks := by
      have hfront := (hvalues.append_right ms.completedTasks).append_left (ms.pendingTasks.drop n)
      refine hfront.trans ?_
      rw [List.append_assoc]
      refine (List.perm_append_comm_assoc _ _ _).trans ?_
      rw [← List.append_assoc, List.take_append_drop]
      rfl
    exact (hmoved.map _).nodup_iff.2 h.refs

/-! ### Goroutines -/

/-- What a move does not change of a goroutine, it does not change of the list. -/
theorem map_moveTo {β : Type} (f : Goroutine → β) {i : Nat} {g : Goroutine} (hg : ms.goroutines[i]? = some g)
    {point : Point} (hf : f { g with point := point } = f g) :
    (ms.moveTo i g point).goroutines.map f = ms.goroutines.map f := by
  rw [MigrationScheduler.moveTo, List.map_set]
  refine List.ext_getElem? fun j => ?_
  rw [List.getElem?_set]
  split_ifs with hij hlt
  · subst hij
    simp [hg, hf]
  · subst hij
    simp [List.getElem?_eq_none (Nat.le_of_not_lt hlt)]
  · rfl

theorem SchedInv.moveTo (h : SchedInv ms) {i : Nat} {g : Goroutine} (hg : ms.goroutines[i]? = some g) (point : Point) :
    SchedInv (ms.moveTo i g point) := by
  have htasks : (ms.moveTo i g point).goroutines.map (·.task) = ms.goroutines.map (·.task) := map_moveTo _ hg rfl
  exact ⟨htasks ▸ h.running, h.refs, h.keyed, h.queue, h.waiting⟩

/-- The task of a goroutine that ends is the active one of its partition. -/
theorem SchedInv.finish (h : SchedInv ms) {i : Nat} {g : Goroutine} (hg : ms.goroutines[i]? = some g) (ok : Bool) :
    SchedInv ({ ms with goroutines := ms.goroutines.eraseIdx i }.completeMigration g.task ok) := by
  obtain ⟨hi, hgi⟩ := List.getElem?_eq_some_iff.1 hg
  have hgone : (g :: ms.goroutines.eraseIdx i).Perm ms.goroutines := hgi ▸ List.getElem_cons_eraseIdx_perm hi
  have hmem : g.task ∈ ms.activeTasks.values :=
    h.running.mem_iff.1 (List.mem_map_of_mem (List.mem_of_getElem? hg))
  obtain ⟨p, hp⟩ := OrdMap.mem_values.1 hmem
  have hactive : ms.activeTasks.get g.task.partitionID = some g.task := h.keyed p _ hp ▸ hp
  have hvalues := OrdMap.values_erase hactive
  have hone := h.oneTask.erase g.task.partitionID
  refine ⟨?_, ?_, hone.keyed, hone.queue, hone.waiting⟩
  · have hperm := ((hgone.map (·.task)).trans h.running).trans hvalues
    rw [List.map_cons] at hperm
    exact hperm.cons_inv
  · -- the task moves from the map to the completed ones
    refine List.Perm.nodup_iff (List.Perm.map _ (List.Perm.append_left _ ?_)) |>.2 h.refs
    show ((ms.activeTasks.erase g.task.partitionID).values ++ (ms.completedTasks ++ [g.task])).Perm _
    refine List.Perm.trans ?_ (hvalues.symm.append_right _)
    rw [← List.append_assoc]
    exact List.perm_append_singleton _ _

/-! ### Runs -/

theorem schedInv_step (ms : MigrationScheduler) (a : SchedAct) (ms' : MigrationScheduler) (h : SchedInv ms)
    (hc : Undisturbed ms a) (hstep : schedStep ms a = some ms') : SchedInv ms' := by
  cases schedStep_cases hstep with
  | refused => exact h
  | addTask hadd => exact (h.addTask hc hadd).1
  | addTasks tasks => exact h.addTasks hc.1 hc.2
  | cancelTask hcancel => exact h.cancelTask hc hcancel
  | cancelAllTasks horder => exact h.cancelAllTasks hc horder
  | setConfig n =>
    unfold MigrationScheduler.setConfig
    split
    · exact ⟨h.running, h.refs, h.keyed, h.queue, h.waiting⟩
    · exact h
  | processQueue => exact h.processQueue
  | move hg _ => exact h.moveTo hg _
  | call ok hg _ =>
    have hmoved := h.moveTo hg (.called ok)
    exact ⟨hmoved.running, hmoved.refs, hmoved.keyed, hmoved.queue, hmoved.waiting⟩
  | finish ok hg _ => exact h.finish hg ok

/-- What `AddTask` and `AddTasks` leave alone. -/
theorem addTask_frame {task : TaskRef} {ms' : MigrationScheduler} (h : ms.addTask task = .ok ms') :
    ∃ pending, ms' = { ms with pendingTasks := pending } :=
  ⟨_, (addTask_ok h).2.2⟩

theorem addTasks_frame : ∀ (tasks : List TaskRef) (ms : MigrationScheduler),
    ∃ pending, ms.addTasks tasks = { ms with pendingTasks := pending }
  | [], ms => ⟨ms.pendingTasks, rfl⟩
  | task :: tasks, ms => by
    unfold MigrationScheduler.addTasks
    cases hadd : ms.addTask task with
    | error e => exact ⟨ms.pendingTasks, rfl⟩
    | ok ms' =>
      obtain ⟨pending, rfl⟩ := addTask_frame hadd
      exact addTasks_frame tasks _

/-- The totals count the completed tasks, whatever is cancelled. -/
theorem totals_step (ms : MigrationScheduler) (a : SchedAct) (ms' : MigrationScheduler)
    (h : ms.totalMigrated + ms.totalFailed = ms.completedTasks.length) (hstep : schedStep ms a = some ms') :
    ms'.totalMigrated + ms'.totalFailed = ms'.completedTasks.length := by
  cases schedStep_cases hstep with
  | refused => exact h
  | addTask hadd =>
    obtain ⟨pending, rfl⟩ := addTask_frame hadd
    exact h
  | addTasks tasks =>
    obtain ⟨pending, heq⟩ := addTasks_frame tasks ms
    rw [heq]
    exact h
  | cancelTask hcancel =>
    unfold MigrationScheduler.cancelTask at hcancel
    split at hcancel
    · cases hcancel
      simp only [List.length_append, List.length_singleton]
      omega
    · split_ifs at hcancel
      cases hcancel
      exact h
  | cancelAllTasks _ =>
    simp only [MigrationScheduler.cancelAllTasks, List.length_append, List.length_map]
    omega
  | setConfig n =>
    unfold MigrationScheduler.setConfig
    split <;> exact h
  | processQueue => exact h
  | move _ _ => exact h
  | call _ _ _ => exact h
  | finish ok _ _ =>
    simp only [MigrationScheduler.completeMigration, List.length_append, List.length_singleton]
    cases ok with
    | false => exact congrArg Nat.succ h
    | true =>
      show ms.totalMigrated + 1 + ms.totalFailed = _
      omega

/-- `SetConfig` is never called with a smaller bound. -/
def NotLowered (ms : MigrationScheduler) : SchedAct → Prop
  | .setConfig n => n ≤ 0 ∨ ms.maxConcurrent ≤ n
  | _ => True

theorem cancelTask_frame {p : UInt32} {ms' : MigrationScheduler} (h : ms.cancelTask p = .ok ms') :
    ms'.goroutines = ms.goroutines ∧ ms'.maxConcurrent = ms.maxConcurrent ∧ ms'.spawned = ms.spawned ∧
      ms'.calls = ms.calls := by
  unfold MigrationScheduler.cancelTask at h
  split at h
  · cases h
    exact ⟨rfl, rfl, rfl, rfl⟩
  · split_ifs at h
    cases h
    exact ⟨rfl, rfl, rfl, rfl⟩

theorem bounded_step (ms : MigrationScheduler) (a : SchedAct) (ms' : MigrationScheduler) (hinv : SchedInv ms)
    (h : ms.goroutines.length ≤ ms.maxConcurrent) (hc : NotLowered ms a) (hstep : schedStep ms a = some ms') :
    ms'.goroutines.length ≤ ms'.maxConcurrent := by
  cases schedStep_cases hstep with
  | refused => exact h
  | addTask hadd =>
    obtain ⟨pending, rfl⟩ := addTask_frame hadd
    exact h
  | addTasks tasks =>
    obtain ⟨pending, heq⟩ := addTasks_frame tasks ms
    rw [heq]
    exact h
  | cancelTask hcancel =>
    obtain ⟨hgo, hmax, -, -⟩ := cancelTask_frame hcancel
    rw [hgo, hmax]
    exact h
  | cancelAllTasks _ => exact h
  | setConfig n =>
    unfold MigrationScheduler.setConfig
    split
    · next hpos =>
      rcases hc with hneg | hle
      · omega
      · show ms.goroutines.length ≤ n.toNat
        omega
    · exact h
  | processQueue =>
    -- as many goroutines as active tasks, so the free slots are those left over
    have hlen := hinv.running.length_eq
    simp only [List.length_map] at hlen
    simp only [MigrationScheduler.processQueue, List.length_append, List.length_map, List.length_zipIdx,
      List.length_take]
    omega
  | move _ _ => simpa [MigrationScheduler.moveTo] using h
  | call _ _ _ => simpa [MigrationScheduler.moveTo] using h
  | finish _ _ _ => exact (List.length_eraseIdx_le _ _).trans h

/-- **Bookkeeping.** In every run in which no active task is cancelled and every task added is a new one, the running
tasks are the active ones, none is completed twice, the totals add up, and no more than `maxConcurrent` run unless
that bound is lowered. -/
theorem scheduler_bookkeeping {as : List SchedAct} {ms : MigrationScheduler}
    (hrun : run schedStep MigrationScheduler.new as = some ms) (hc : Along schedStep Undisturbed MigrationScheduler.new as) :
    ms.Exact ∧
      (Along schedStep NotLowered MigrationScheduler.new as → ms.goroutines.length ≤ ms.maxConcurrent) := by
  have hinv : SchedInv ms := run_inv_along schedInv_step schedInv_new hc hrun
  have htotals : ms.totalMigrated + ms.totalFailed = ms.completedTasks.length :=
    run_inv totals_step rfl hrun
  refine ⟨⟨hinv.running, hinv.once, htotals⟩, fun hlow => ?_⟩
  have hboth : SchedInv ms ∧ ms.goroutines.length ≤ ms.maxConcurrent := by
    refine run_inv_along (P := fun ms => SchedInv ms ∧ ms.goroutines.length ≤ ms.maxConcurrent)
      (fun s a s' h hca hstep => ?_) ⟨schedInv_new, Nat.zero_le _⟩ (hc.and hlow) hrun
    exact ⟨schedInv_step s a s' h.1 hca.1 hstep, bounded_step s a s' h.1 h.2 hca.2 hstep⟩
  exact hboth.2

end

/-- A task for partition 7. -/
def sevenTo (ref : Nat) (target : String) : TaskRef := ⟨ref, ⟨7, "A", target, .normal, true⟩⟩

/-- Goroutine `i` from its store call to its end. -/
def toTheEnd (i : Nat) : List SchedAct := [.setState i true, .select i true, .completeCall i true, .finish i]

theorem scheduler_bookkeeping_two_tasks :
    ∃ ms : MigrationScheduler,
      run schedStep MigrationScheduler.new
        (([.addTask (sevenTo 0 "B"), .processQueue] : List SchedAct) ++ toTheEnd 0 ++
          ([.addTask (sevenTo 1 "C"), .processQueue] : List SchedAct)) = some ms ∧
      ms.completedTasks = [sevenTo 0 "B"] ∧ ms.activeTasks.values = [sevenTo 1 "C"] ∧ ms.Exact ∧
      ms.goroutines.length ≤ ms.maxConcurrent := by
  refine ⟨_, rfl, by decide, by decide, ?_⟩
  have hboth := @scheduler_bookkeeping
    (([.addTask (sevenTo 0 "B"), .processQueue] : List SchedAct) ++ toTheEnd 0 ++
      ([.addTask (sevenTo 1 "C"), .processQueue] : List SchedAct)) _ rfl (by decide)
  exact ⟨hboth.1, hboth.2 (by simp [Along, NotLowered, toTheEnd])⟩

/-- **Bug**: task 0 is cancelled and task 1 started for the same partition. The goroutine of task 0 then completes it
a second time and takes task 1 off the map, while that one's goroutine runs on. -/
theorem cancelled_task_completed_twice :
    ∃ ms : MigrationScheduler,
      run schedStep MigrationScheduler.new
        (([.addTask (sevenTo 0 "B"), .processQueue, .cancelTask 7, .addTask (sevenTo 1 "C"), .processQueue] :
          List SchedAct) ++ toTheEnd 0) = some ms ∧
      ms.completedTasks = [sevenTo 0 "B", sevenTo 0 "B"] ∧ ms.activeTasks.values = [] ∧
      ms.goroutines.map (·.task) = [sevenTo 1 "C"] ∧ ¬ ms.Exact := by
  refine ⟨_, rfl, by decide, by decide, by decide, fun h => ?_⟩
  exact absurd h.once (by decide)

end RocksKV.Metadata
