import RocksKV.Lib.Run
import RocksKV.Metadata.Migration
/-!
# Starting, running and cancelling migrations (`pkg/metadata/migration.go`)

| here | there |
| --- | --- |
| `MigrationRun`  | a `Migration` (`:60-72`) with its context and what `executeMigration` keeps for it |
| `MigrationRun.step` | `executeMigration` (`:306-411`): the goroutine starts, takes an item, starts its move, …, returns |
| `trigger`       | the check of `TriggerRebalance` that no migration is running (`:104-109`) |
| `create`, `arm` | `mc.currentMigration.Store` (`:165`) and `mc.cancelFunc = cancel` (`:178-180`), later in the same call |
| `giveUp`        | the call returns before it has created a migration (`:111-141`) |
| `cancelLoad`, `cancelCall`, `cancelMark` | `CancelMigration` (`:594-617`): load and check, `cancelFunc()`, `Status` |
| `getMigrationStatus` | what `GetMigrationStatus` says of a migration in progress (`:536-549`) |

A migration is known here by its position in the list of all that were created. A move of a migration whose context is
cancelled does not count as in progress: `migratePartition` gives up at its next call.

**Bugs**: calls of `TriggerRebalance` that overlap both find no migration running; a migration that pauses on an error
is no longer "running" while its other moves still are; and `cancelFunc` is one slot, which a `CancelMigration` that
overlaps with a `TriggerRebalance` finds with another migration's function in it (`two_migrations_run`).
-/

namespace RocksKV.Metadata

open Lib

/-- `Migration.Status`. -/
inductive RunStatus
  | running | completed | completedWithErrors | cancelled | pausedOnError
  deriving DecidableEq, Repr

inductive RunPhase
  /-- Created, its cancel function not yet in the slot. -/
  | stored
  /-- The goroutine is not yet started. -/
  | armed
  /-- At the head of the loop over the plan. -/
  | looping
  /-- Past the checks of the loop, waiting for the semaphore. -/
  | acquiring (item : MigrationPlanItem)
  /-- At `wg.Wait`. -/
  | waiting
  | returned
  deriving DecidableEq, Repr

structure MigrationRun where
  status           : RunStatus
  phase            : RunPhase
  /-- Items of the plan the loop has not reached. -/
  plan             : List MigrationPlanItem
  /-- Moves in progress. -/
  moving           : List MigrationPlanItem
  failedPartitions : Nat
  paused           : Bool
  /-- Its context is done. -/
  cancelled        : Bool
  maxConcurrent    : Int
  pauseOnError     : Bool
  deriving DecidableEq, Repr

namespace MigrationRun

/-- As `TriggerRebalance` creates it. -/
def new (plan : List MigrationPlanItem) (maxConcurrent : Int) (pauseOnError : Bool) : MigrationRun :=
  { status := .running, phase := .stored, plan, moving := [], failedPartitions := 0, paused := false, cancelled := false
    maxConcurrent, pauseOnError }

inductive Act
  | spawn
  /-- One turn of the loop, up to the semaphore; without an item left the loop ends. -/
  | next
  /-- The semaphore is acquired and the move's goroutine started. -/
  | start
  | moved (item : MigrationPlanItem) (ok : Bool)
  /-- `wg.Wait` and the deferred function. -/
  | finish
  deriving DecidableEq, Repr

def step (m : MigrationRun) : Act → Option MigrationRun
  | .spawn => if m.phase = .armed then some { m with phase := .looping } else none
  | .next =>
    if m.phase = .looping then
      match m.plan with
      | [] => some { m with phase := .waiting }
      | item :: plan =>
        -- the deferred function finds a status that is not "running" and leaves it
        if m.cancelled then some { m with status := .cancelled, phase := .returned }
        else if m.pauseOnError && m.paused then some { m with status := .pausedOnError, phase := .waiting }
        else some { m with phase := .acquiring item, plan := plan }
    else none
  | .start =>
    match m.phase with
    | .acquiring item =>
      if (m.moving.length : Int) < m.maxConcurrent then
        some { m with phase := .looping, moving := m.moving ++ [item] }
      else none
    | _ => none
  | .moved item ok =>
    if item ∈ m.moving then
      if ok then some { m with moving := m.moving.erase item }
      else some { m with
        moving := m.moving.erase item
        failedPartitions := m.failedPartitions + 1
        paused := m.paused || m.pauseOnError }
    else none
  | .finish =>
    if m.phase = .waiting ∧ m.moving = [] then
      if m.status = .running then
        some { m with
          phase := .returned
          status := if 0 < m.failedPartitions then .completedWithErrors else .completed }
      else some { m with phase := .returned }
    else none

/-- It has moves in progress, or is going to start some, under a context that is not cancelled. -/
def Live (m : MigrationRun) : Prop :=
  m.cancelled = false ∧ (m.moving ≠ [] ∨ m.phase ≠ .waiting ∧ m.phase ≠ .returned)

/-- It has moves in progress under a context that is not cancelled. -/
def Active (m : MigrationRun) : Prop := m.cancelled = false ∧ m.moving ≠ []

instance (m : MigrationRun) : Decidable m.Active := inferInstanceAs (Decidable (_ ∧ _))

end MigrationRun

inductive CancelStage
  | loaded | called
  deriving DecidableEq, Repr

structure MigrationController where
  migrations       : List MigrationRun
  currentMigration : Option Nat
  /-- Whose cancel function is in the slot. -/
  cancelFunc       : Option Nat
  /-- `TriggerRebalance` calls that have passed the check and created nothing yet. -/
  admitted         : Nat
  /-- `CancelMigration` calls, with the migration they have loaded. -/
  cancels          : List (Nat × CancelStage)

inductive ControlAct
  | trigger
  | giveUp
  | create (plan : List MigrationPlanItem) (maxConcurrent : Int) (pauseOnError : Bool)
  | arm (i : Nat)
  | run (i : Nat) (a : MigrationRun.Act)
  | cancelLoad
  | cancelCall (k : Nat)
  | cancelMark (k : Nat)

namespace MigrationController

def new : MigrationController :=
  { migrations := [], currentMigration := none, cancelFunc := none, admitted := 0, cancels := [] }

/-- `InProgress` and the migration that is meant. -/
def getMigrationStatus (c : MigrationController) : Option (Bool × Nat) :=
  c.currentMigration.bind fun i => (c.migrations[i]?).map fun m => (decide (m.status = .running), i)

def modify (c : MigrationController) (i : Nat) (f : MigrationRun → MigrationRun) : MigrationController :=
  { c with migrations := c.migrations.modify i f }

/-- `current != nil && current.Status == "running"`. -/
def inProgress (c : MigrationController) : Bool := (c.getMigrationStatus.map Prod.fst).getD false

end MigrationController

def controlStep (c : MigrationController) : ControlAct → Option MigrationController
  | .trigger => if c.inProgress then none else some { c with admitted := c.admitted + 1 }
  | .giveUp => if 0 < c.admitted then some { c with admitted := c.admitted - 1 } else none
  | .create plan maxConcurrent pauseOnError =>
    if 0 < c.admitted then
      some { c with
        admitted := c.admitted - 1
        migrations := c.migrations ++ [MigrationRun.new plan maxConcurrent pauseOnError]
        currentMigration := some c.migrations.length }
    else none
  | .arm i =>
    match c.migrations[i]? with
    | some m =>
      if m.phase = .stored then
        some { c with migrations := c.migrations.set i { m with phase := .armed }, cancelFunc := some i }
      else none
    | none => none
  | .run i a =>
    match c.migrations[i]? with
    | some m => (m.step a).map fun m' => { c with migrations := c.migrations.set i m' }
    | none => none
  | .cancelLoad =>
    match c.currentMigration with
    | some i => if c.inProgress then some { c with cancels := c.cancels ++ [(i, .loaded)] } else none
    | none => none
  | .cancelCall k =>
    match c.cancels[k]? with
    | some (i, .loaded) =>
      let c := { c with cancels := c.cancels.set k (i, .called) }
      match c.cancelFunc with
      | some j => some (c.modify j fun m => { m with cancelled := true })
      | none => some c
    | _ => none
  | .cancelMark k =>
    match c.cancels[k]? with
    | some (i, .called) =>
      some ({ c with cancels := c.cancels.eraseIdx k }.modify i fun m => { m with status := .cancelled })
    | _ => none

/-- No call of `TriggerRebalance` is between its check and the slot. -/
def MigrationController.Settled (c : MigrationController) : Prop :=
  c.admitted = 0 ∧ ∀ m ∈ c.migrations, m.phase ≠ .stored

/-- `TriggerRebalance` calls, from the check to the slot, overlap neither each other nor a `CancelMigration`; a migration
pauses when its moves are over. -/
def OneAtATime (c : MigrationController) : ControlAct → Prop
  | .trigger => c.Settled ∧ c.cancels = []
  | .cancelLoad => c.Settled
  | .run i .next => ∀ m ∈ c.migrations[i]?, m.pauseOnError = true → m.paused = true → m.moving = []
  | _ => True

instance (c : MigrationController) : Decidable c.Settled := inferInstanceAs (Decidable (_ ∧ ∀ m ∈ c.migrations, _))

instance (c : MigrationController) : ∀ a, Decidable (OneAtATime c a)
  | .trigger => inferInstanceAs (Decidable (c.Settled ∧ c.cancels = []))
  | .cancelLoad => inferInstanceAs (Decidable c.Settled)
  | .run i .next => inferInstanceAs (Decidable (∀ m ∈ c.migrations[i]?,
      m.pauseOnError = true → m.paused = true → m.moving = []))
  | .run _ .spawn | .run _ .start | .run _ (.moved _ _) | .run _ .finish => isTrue trivial
  | .giveUp | .create _ _ _ | .arm _ | .cancelCall _ | .cancelMark _ => isTrue trivial

/-! ## One migration -/

namespace MigrationRun

/-- **What its goroutines do to a migration**: where it stays live it keeps its status, and it is past the slot. -/
theorem step_spec {m m' : MigrationRun} {a : Act} (h : m.step a = some m')
    (hpause : a = .next → m.pauseOnError = true → m.paused = true → m.moving = [])
    (hstored : m.phase = .stored → m.moving = []) :
    m'.cancelled = m.cancelled ∧ m.phase ≠ .stored ∧ m'.phase ≠ .stored ∧ (m'.Live → m.Live ∧ m'.status = m.status) := by
  cases a with
  | spawn =>
    simp only [step, Option.ite_none_right_eq_some] at h
    obtain ⟨hp, h⟩ := h
    cases h
    exact ⟨rfl, by simp [hp], by simp, fun hl => ⟨⟨hl.1, .inr (by simp [hp])⟩, rfl⟩⟩
  | next =>
    simp only [step, Option.ite_none_right_eq_some] at h
    obtain ⟨hp, h⟩ := h
    have hlive : m.cancelled = false → m.Live := fun hc => ⟨hc, .inr (by simp [hp])⟩
    split at h
    · cases h
      exact ⟨rfl, by simp [hp], by simp, fun hl => ⟨hlive hl.1, rfl⟩⟩
    · split_ifs at h with hcancelled hpaused
      · cases h
        refine ⟨rfl, by simp [hp], by simp, fun hl => ?_⟩
        rw [show m.cancelled = false from hl.1] at hcancelled
        cases hcancelled
      · cases h
        refine ⟨rfl, by simp [hp], by simp, fun hl => ?_⟩
        rw [Bool.and_eq_true] at hpaused
        -- its moves are over, and it starts no other
        have hnone := hpause rfl hpaused.1 hpaused.2
        rcases hl.2 with hmoving | ⟨hwait, -⟩
        · exact absurd hnone hmoving
        · exact absurd rfl hwait
      · cases h
        exact ⟨rfl, by simp [hp], by simp, fun hl => ⟨hlive hl.1, rfl⟩⟩
  | start =>
    simp only [step] at h
    split at h
    · rename_i item hp
      split_ifs at h
      cases h
      exact ⟨rfl, by simp [hp], by simp, fun hl => ⟨⟨hl.1, .inr (by simp [hp])⟩, rfl⟩⟩
    · cases h
  | moved item ok =>
    simp only [step] at h
    split_ifs at h with hin hok
    all_goals
      cases h
      have hne : m.moving ≠ [] := List.ne_nil_of_mem hin
      have hp : m.phase ≠ .stored := fun hp => hne (hstored hp)
      exact ⟨rfl, hp, hp, fun hl => ⟨⟨hl.1, .inl hne⟩, rfl⟩⟩
  | finish =>
    simp only [step] at h
    split_ifs at h with hdone hrunning
    all_goals
      obtain ⟨hp, hnone⟩ := hdone
      cases h
      refine ⟨rfl, by simp [hp], by simp, fun hl => ?_⟩
      rcases hl.2 with hmoving | ⟨-, hreturned⟩
      · exact absurd hnone hmoving
      · exact absurd rfl hreturned

theorem Active.live {m : MigrationRun} (h : m.Active) : m.Live := ⟨h.1, .inl h.2⟩

end MigrationRun

/-! ## All of them -/

/-- At most one migration is live: the current one, "running", with its cancel function in the slot once it is past it. -/
structure ControlInv (c : MigrationController) : Prop where
  stored   : ∀ i m, c.migrations[i]? = some m → m.phase = .stored →
    m.moving = [] ∧ c.currentMigration = some i ∧ c.admitted = 0 ∧ c.cancels = []
  live     : ∀ i m, c.migrations[i]? = some m → m.Live →
    c.currentMigration = some i ∧ m.status = .running ∧ c.admitted = 0
  slot     : ∀ i m, c.currentMigration = some i → c.migrations[i]? = some m → m.phase ≠ .stored → c.cancelFunc = some i
  admitted : c.admitted ≤ 1 ∧ (0 < c.admitted → c.cancels = [])
  cancels  : ∀ i stage, (i, stage) ∈ c.cancels → c.currentMigration = some i ∧
    (stage = .loaded → c.cancelFunc = some i) ∧
    (stage = .called → ∀ m, c.migrations[i]? = some m → m.cancelled = true)

namespace ControlInv

variable {c : MigrationController}

theorem new : ControlInv .new where
  stored _ _ h := by cases h
  live _ _ h := by cases h
  slot _ _ h := by cases h
  admitted := ⟨Nat.zero_le 1, fun _ => rfl⟩
  cancels _ _ h := by cases h

theorem settled (hs : c.Settled) {i : Nat} {m : MigrationRun} (hm : c.migrations[i]? = some m) : m.phase ≠ .stored :=
  hs.2 m (List.mem_of_getElem? hm)

theorem inProgress_of_live (h : ControlInv c) {i : Nat} {m : MigrationRun} (hm : c.migrations[i]? = some m) (hl : m.Live) :
    c.getMigrationStatus = some (true, i) := by
  obtain ⟨hcur, hrunning, -⟩ := h.live i m hm hl
  simp [MigrationController.getMigrationStatus, hcur, hm, hrunning]

/-- No call is on its way to the slot while there is a `CancelMigration`. -/
theorem not_stored (h : ControlInv c) {x : Nat × CancelStage} (hx : x ∈ c.cancels) {i : Nat} {m : MigrationRun}
    (hm : c.migrations[i]? = some m) : m.phase ≠ .stored :=
  fun hp => absurd (h.stored i m hm hp).2.2.2 (List.ne_nil_of_mem hx)

theorem trigger (h : ControlInv c) (hs : c.Settled) (hnone : c.cancels = []) (hfree : c.inProgress = false) :
    ControlInv { c with admitted := c.admitted + 1 } where
  stored i m hm hp := absurd hp (settled hs hm)
  live i m hm hl := by
    have := h.inProgress_of_live hm hl
    simp [MigrationController.inProgress, this] at hfree
  slot := h.slot
  admitted := ⟨by rw [hs.1], fun _ => hnone⟩
  cancels := h.cancels

theorem giveUp (h : ControlInv c) (ha : 0 < c.admitted) : ControlInv { c with admitted := c.admitted - 1 } where
  stored i m hm hp := by
    have := (h.stored i m hm hp).2.2.1
    omega
  live i m hm hl := by
    have := (h.live i m hm hl).2.2
    omega
  slot := h.slot
  admitted := ⟨(Nat.sub_le _ _).trans h.admitted.1, fun hpos => h.admitted.2 (by omega)⟩
  cancels := h.cancels

theorem create (h : ControlInv c) (ha : 0 < c.admitted) (plan : List MigrationPlanItem) (maxConcurrent : Int)
    (pauseOnError : Bool) : ControlInv { c with
      admitted := c.admitted - 1
      migrations := c.migrations ++ [MigrationRun.new plan maxConcurrent pauseOnError]
      currentMigration := some c.migrations.length } := by
  have hone := h.admitted.1
  have hzero : c.admitted - 1 = 0 := by omega
  have hnone := h.admitted.2 ha
  -- whatever was there is neither live nor on its way to the slot
  have hnew : ∀ {i m}, (c.migrations ++ [MigrationRun.new plan maxConcurrent pauseOnError])[i]? = some m →
      (m.phase = .stored ∨ m.Live) → i = c.migrations.length ∧ m = MigrationRun.new plan maxConcurrent pauseOnError := by
    intro i m hm hor
    rcases getElem?_concat_eq_some hm with hnew | hm
    · exact hnew
    · rcases hor with hp | hl
      · have := (h.stored i m hm hp).2.2.1
        omega
      · have := (h.live i m hm hl).2.2
        omega
  refine ⟨fun i m hm hp => ?_, fun i m hm hl => ?_, fun i m hcur hm hp => ?_,
    ⟨hzero.le.trans zero_le_one, fun _ => hnone⟩, ?_⟩
  · obtain ⟨rfl, rfl⟩ := hnew hm (.inl hp)
    exact ⟨rfl, rfl, hzero, hnone⟩
  · obtain ⟨rfl, rfl⟩ := hnew hm (.inr hl)
    exact ⟨rfl, rfl, hzero⟩
  · cases hcur
    rw [List.getElem?_append_right (le_refl _), Nat.sub_self] at hm
    cases hm
    exact absurd rfl hp
  · intro i stage hi
    rw [show c.cancels = [] from hnone] at hi
    cases hi

theorem arm (h : ControlInv c) {i : Nat} {m : MigrationRun} (hm : c.migrations[i]? = some m) (hp : m.phase = .stored) :
    ControlInv { c with migrations := c.migrations.set i { m with phase := .armed }, cancelFunc := some i } := by
  obtain ⟨hmoving, hcur, hadm, hnone⟩ := h.stored i m hm hp
  have hother : ∀ {j n}, j ≠ i → c.migrations[j]? = some n → n.phase ≠ .stored := by
    intro j n hj hn hst
    have := (h.stored j n hn hst).2.1
    rw [hcur, Option.some.injEq] at this
    exact hj this.symm
  refine ⟨fun j n hn hst => ?_, fun j n hn hl => ?_, fun j n hj hn hst => ?_, h.admitted, ?_⟩
  · rcases getElem?_set_eq_some hn with ⟨-, rfl⟩ | ⟨hj, hn⟩
    · cases hst
    · exact absurd hst (hother hj hn)
  · rcases getElem?_set_eq_some hn with ⟨rfl, rfl⟩ | ⟨hj, hn⟩
    · exact h.live j m hm ⟨hl.1, .inr (by simp [hp])⟩
    · exact h.live j n hn hl
  · show some i = some j
    rw [← hcur]
    exact hj
  · intro j stage hj
    rw [show c.cancels = [] from hnone] at hj
    cases hj

theorem run (h : ControlInv c) {i : Nat} {a : MigrationRun.Act} {m m' : MigrationRun} (hm : c.migrations[i]? = some m)
    (hc : OneAtATime c (.run i a)) (hstep : m.step a = some m') :
    ControlInv { c with migrations := c.migrations.set i m' } := by
  have hpause : a = .next → m.pauseOnError = true → m.paused = true → m.moving = [] := by
    rintro rfl
    exact hc m hm
  obtain ⟨hcancelled, hpast, hpast', hlive⟩ := MigrationRun.step_spec hstep hpause fun hp => (h.stored i m hm hp).1
  refine ⟨fun j n hn hst => ?_, fun j n hn hl => ?_, fun j n hj hn hst => ?_, h.admitted, fun j stage hj => ?_⟩
  · rcases getElem?_set_eq_some hn with ⟨-, rfl⟩ | ⟨-, hn⟩
    · exact absurd hst hpast'
    · exact h.stored j n hn hst
  · rcases getElem?_set_eq_some hn with ⟨rfl, rfl⟩ | ⟨-, hn⟩
    · obtain ⟨hl, hstatus⟩ := hlive hl
      rw [hstatus]
      exact h.live j m hm hl
    · exact h.live j n hn hl
  · rcases getElem?_set_eq_some hn with ⟨rfl, -⟩ | ⟨-, hn⟩
    · exact h.slot j m hj hm hpast
    · exact h.slot j n hj hn hst
  · obtain ⟨hcur, hloaded, hcalled⟩ := h.cancels j stage hj
    refine ⟨hcur, hloaded, fun hst n hn => ?_⟩
    rcases getElem?_set_eq_some hn with ⟨rfl, rfl⟩ | ⟨-, hn⟩
    · rw [hcancelled]
      exact hcalled hst m hm
    · exact hcalled hst n hn

theorem cancelLoad (h : ControlInv c) (hs : c.Settled) {i : Nat} (hcur : c.currentMigration = some i)
    (hprog : c.inProgress = true) : ControlInv { c with cancels := c.cancels ++ [(i, .loaded)] } := by
  obtain ⟨m, hm⟩ : ∃ m, c.migrations[i]? = some m := by
    cases hm : c.migrations[i]? with
    | none => simp [MigrationController.inProgress, MigrationController.getMigrationStatus, hcur, hm] at hprog
    | some m => exact ⟨m, rfl⟩
  refine ⟨fun j n hn hp => absurd hp (settled hs hn), h.live, h.slot, ⟨h.admitted.1, fun hpos => ?_⟩, ?_⟩
  · exact absurd hpos (hs.1 ▸ Nat.lt_irrefl 0)
  · intro j stage hj
    rcases List.mem_append.1 hj with hj | hj
    · exact h.cancels j stage hj
    · obtain ⟨rfl, rfl⟩ := Prod.mk.inj (List.mem_singleton.1 hj)
      exact ⟨hcur, fun _ => h.slot j m hcur hm (settled hs hm), nofun⟩

/-- The slot holds the function of the migration the call has loaded. -/
theorem cancelCall (h : ControlInv c) {k i : Nat} (hk : c.cancels[k]? = some (i, .loaded)) :
    c.cancelFunc = some i ∧ ControlInv ({ c with cancels := c.cancels.set k (i, .called) }.modify i
      fun m => { m with cancelled := true }) := by
  have hmem := List.mem_of_getElem? hk
  obtain ⟨hcur, hloaded, -⟩ := h.cancels i .loaded hmem
  have hslot := hloaded rfl
  refine ⟨hslot, fun j n hn hst => ?_, fun j n hn hl => ?_, fun j n hj hn hst => hslot.trans (hcur.symm.trans hj),
    ⟨h.admitted.1, fun hpos => ?_⟩, fun j stage hj => ?_⟩
  · obtain ⟨y, hy, ⟨-, rfl⟩ | ⟨-, rfl⟩⟩ := getElem?_modify_eq_some hn
    · exact (h.not_stored hmem hy hst).elim
    · exact (h.not_stored hmem hy hst).elim
  · obtain ⟨y, hy, ⟨-, rfl⟩ | ⟨-, rfl⟩⟩ := getElem?_modify_eq_some hn
    · cases hl.1
    · exact h.live j n hy hl
  · rw [h.admitted.2 hpos] at hmem
    cases hmem
  · have hj' : j = i := by
      rcases List.mem_or_eq_of_mem_set hj with hj | hj
      · exact Option.some.inj ((h.cancels j stage hj).1.symm.trans hcur)
      · exact (Prod.mk.inj hj).1
    subst hj'
    refine ⟨hcur, fun _ => hslot, fun _ n hn => ?_⟩
    obtain ⟨y, -, ⟨-, rfl⟩ | ⟨hne, -⟩⟩ := getElem?_modify_eq_some hn
    · rfl
    · exact absurd rfl hne

theorem cancelMark (h : ControlInv c) {k i : Nat} (hk : c.cancels[k]? = some (i, .called)) :
    ControlInv ({ c with cancels := c.cancels.eraseIdx k }.modify i fun m => { m with status := .cancelled }) := by
  have hmem := List.mem_of_getElem? hk
  obtain ⟨hcur, -, hcalled⟩ := h.cancels i .called hmem
  refine ⟨fun j n hn hst => ?_, fun j n hn hl => ?_, fun j n hj hn hst => ?_, ⟨h.admitted.1, fun hpos => ?_⟩,
    fun j stage hj => ?_⟩
  · obtain ⟨y, hy, ⟨-, rfl⟩ | ⟨-, rfl⟩⟩ := getElem?_modify_eq_some hn
    · exact (h.not_stored hmem hy hst).elim
    · exact (h.not_stored hmem hy hst).elim
  · obtain ⟨y, hy, ⟨rfl, rfl⟩ | ⟨-, rfl⟩⟩ := getElem?_modify_eq_some hn
    · -- its context is cancelled already
      have hdone := hcalled rfl y hy
      rw [show y.cancelled = false from hl.1] at hdone
      cases hdone
    · exact h.live j n hy hl
  · obtain ⟨y, hy, ⟨-, rfl⟩ | ⟨-, rfl⟩⟩ := getElem?_modify_eq_some hn
    · exact h.slot j y hj hy hst
    · exact h.slot j n hj hy hst
  · rw [h.admitted.2 hpos] at hmem
    cases hmem
  · obtain ⟨hcur', hloaded, hcancelled⟩ := h.cancels j stage (List.mem_of_mem_eraseIdx hj)
    refine ⟨hcur', hloaded, fun hst n hn => ?_⟩
    obtain ⟨y, hy, ⟨-, rfl⟩ | ⟨-, rfl⟩⟩ := getElem?_modify_eq_some hn
    · exact hcancelled hst y hy
    · exact hcancelled hst n hy

end ControlInv

theorem controlInv_step {c c' : MigrationController} {a : ControlAct} (h : ControlInv c) (hc : OneAtATime c a)
    (hs : controlStep c a = some c') : ControlInv c' := by
  cases a with
  | trigger =>
    simp only [controlStep, Option.ite_none_left_eq_some] at hs
    obtain ⟨hfree, hs⟩ := hs
    cases hs
    exact h.trigger hc.1 hc.2 (Bool.eq_false_iff.2 hfree)
  | giveUp =>
    simp only [controlStep, Option.ite_none_right_eq_some] at hs
    obtain ⟨ha, hs⟩ := hs
    cases hs
    exact h.giveUp ha
  | create plan maxConcurrent pauseOnError =>
    simp only [controlStep, Option.ite_none_right_eq_some] at hs
    obtain ⟨ha, hs⟩ := hs
    cases hs
    exact h.create ha plan maxConcurrent pauseOnError
  | arm i =>
    simp only [controlStep] at hs
    split at hs
    · rename_i m hm
      split_ifs at hs with hp
      cases hs
      exact h.arm hm hp
    · cases hs
  | run i a =>
    simp only [controlStep] at hs
    split at hs
    · rename_i m hm
      obtain ⟨m', hstep, rfl⟩ := Option.map_eq_some_iff.1 hs
      exact h.run hm hc hstep
    · cases hs
  | cancelLoad =>
    simp only [controlStep] at hs
    split at hs
    · rename_i i hcur
      split_ifs at hs with hprog
      cases hs
      exact h.cancelLoad hc hcur hprog
    · cases hs
  | cancelCall k =>
    simp only [controlStep] at hs
    split at hs
    · rename_i i hk
      obtain ⟨hslot, hinv⟩ := h.cancelCall hk
      split at hs
      · rename_i j hj
        obtain rfl : j = i := Option.some.inj (hj.symm.trans hslot)
        cases hs
        exact hinv
      · rename_i hnone
        cases hnone.symm.trans hslot
    · cases hs
  | cancelMark k =>
    simp only [controlStep] at hs
    split at hs
    · rename_i i hk
      cases hs
      exact h.cancelMark hk
    · cases hs

/-- **At most one migration runs**: in every run whose calls keep apart, moves in progress are those of one migration;
it is the one that `GetMigrationStatus` reports as in progress and whose cancel function is in the slot, and a
`CancelMigration` that is about to call it has loaded that migration. -/
theorem one_migration_at_a_time {as : List ControlAct} {c : MigrationController} (hc : Along controlStep OneAtATime .new as)
    (hrun : run controlStep .new as = some c) :
    (∀ (i j : Nat) (m n : MigrationRun), c.migrations[i]? = some m → c.migrations[j]? = some n → m.Active → n.Active → i = j) ∧
    (∀ (i : Nat) (m : MigrationRun), c.migrations[i]? = some m → m.Active →
      c.getMigrationStatus = some (true, i) ∧ c.cancelFunc = some i ∧ ∀ j stage, (j, stage) ∈ c.cancels → j = i) ∧
    ∀ j, (j, .loaded) ∈ c.cancels → c.cancelFunc = some j := by
  have hinv := run_inv_along (fun _ _ _ h hc hs => controlInv_step h hc hs) ControlInv.new hc hrun
  refine ⟨fun i j m n hm hn ha hb => ?_, fun i m hm ha => ⟨hinv.inProgress_of_live hm ha.live, ?_, fun j stage hj => ?_⟩,
    fun j hj => (hinv.cancels j .loaded hj).2.1 rfl⟩
  · have hi := (hinv.live i m hm ha.live).1
    rw [(hinv.live j n hn hb.live).1] at hi
    exact (Option.some.inj hi).symm
  · refine hinv.slot i m (hinv.live i m hm ha.live).1 hm fun hp => ha.2 (hinv.stored i m hm hp).1
  · exact Option.some.inj ((hinv.cancels j stage hj).1.symm.trans (hinv.live i m hm ha.live).1)

/-- A partition that moves from `a` to `b`. -/
def moveItem (partitionID : UInt32) : MigrationPlanItem := ⟨partitionID, "a", "b", false⟩

/-- A migration with a move in progress, about to be cancelled. -/
theorem one_migration_at_a_time_cancel :
    ∃ c, run controlStep .new [.trigger, .create [moveItem 0] 10 false, .arm 0, .run 0 .spawn, .run 0 .next, .run 0 .start,
        .cancelLoad] = some c ∧
      c.migrations.map (fun m => decide m.Active) = [true] ∧ c.getMigrationStatus = some (true, 0) ∧
      c.cancelFunc = some 0 := by
  refine ⟨_, rfl, rfl, ?_⟩
  obtain ⟨-, hone, -⟩ := @one_migration_at_a_time [.trigger, .create [moveItem 0] 10 false, .arm 0, .run 0 .spawn,
    .run 0 .next, .run 0 .start, .cancelLoad] _ (by decide +kernel) rfl
  obtain ⟨hstatus, hslot, -⟩ := hone 0 _ rfl (by decide)
  exact ⟨hstatus, hslot⟩

/-- **Bug**: two migrations have moves in progress: after two `TriggerRebalance` calls that overlap; after a pause with a
move still in progress; and after a `CancelMigration` that comes before the slot is set, marks the migration and cancels
nothing. -/
theorem two_migrations_run :
    (∃ c, run controlStep .new [.trigger, .trigger, .create [moveItem 0] 10 false, .create [moveItem 1] 10 false,
        .arm 0, .arm 1, .run 0 .spawn, .run 1 .spawn, .run 0 .next, .run 0 .start, .run 1 .next, .run 1 .start] = some c ∧
      c.migrations.map (fun m => decide m.Active) = [true, true]) ∧
    (∃ c, run controlStep .new [.trigger, .create [moveItem 0, moveItem 1, moveItem 2] 10 true, .arm 0, .run 0 .spawn,
        .run 0 .next, .run 0 .start, .run 0 .next, .run 0 .start, .run 0 (.moved (moveItem 0) false), .run 0 .next,
        .trigger, .create [moveItem 3] 10 true, .arm 1, .run 1 .spawn, .run 1 .next, .run 1 .start] = some c ∧
      c.migrations.map (fun m => (m.status, decide m.Active)) = [(.pausedOnError, true), (.running, true)]) ∧
    ∃ c, run controlStep .new [.trigger, .create [moveItem 0] 10 false, .cancelLoad, .cancelCall 0, .cancelMark 0, .arm 0,
        .run 0 .spawn, .run 0 .next, .run 0 .start, .trigger, .create [moveItem 1] 10 false, .arm 1, .run 1 .spawn,
        .run 1 .next, .run 1 .start] = some c ∧
      c.migrations.map (fun m => (m.status, decide m.Active)) = [(.cancelled, true), (.running, true)] :=
  ⟨⟨_, rfl, rfl⟩, ⟨_, rfl, rfl⟩, ⟨_, rfl, rfl⟩⟩

end RocksKV.Metadata
