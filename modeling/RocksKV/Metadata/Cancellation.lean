import RocksKV.Metadata.Scheduler
/-!
# What cancelling a migration does to its goroutine

| here | there |
| --- | --- |
| `Cancels`        | the active tasks that `CancelTask` and `CancelAllTasks` report as cancelled (`migration_scheduler.go:196-208`, `:227-237`) |
| `Point.failing`  | `executeMigration` after a failed `SetMigrationState` (`:365-368`) or a done context (`:381-383`) |

The only thing the two calls do to the goroutine is `task.cancel()`, which ends a context nobody waits on (`:323`). A
goroutine that has not left by one of the two error paths can still reach `Router.CompleteMigration` (`:389`).
-/

namespace RocksKV.Metadata

open Lib

section
variable {ms ms' : MigrationScheduler}

/-- Step `a` cancels the active task `task`. -/
def Cancels (ms : MigrationScheduler) (task : TaskRef) : SchedAct → Prop
  | .cancelTask partitionID => ms.activeTasks.get partitionID = some task
  | .cancelAllTasks _ => task ∈ ms.activeTasks.values
  | _ => False

/-! ## What a step does to the goroutines -/

/-- The part of a step that concerns the goroutines. -/
inductive Runs (ms ms' : MigrationScheduler) : Prop
  | same (hg : ms'.goroutines = ms.goroutines) (hs : ms'.spawned = ms.spawned) (hc : ms'.calls = ms.calls)
  | spawn (start : List TaskRef)
    (hg : ms'.goroutines = ms.goroutines ++ (start.zipIdx ms.spawned).map fun t => ⟨t.2, t.1, .started⟩)
    (hs : ms'.spawned = ms.spawned + start.length) (hc : ms'.calls = ms.calls)
  | move (i : Nat) (g : Goroutine) (point : Point) (hi : ms.goroutines[i]? = some g) (hp : g.point.Next point)
    (hg : ms'.goroutines = (ms.moveTo i g point).goroutines) (hs : ms'.spawned = ms.spawned) (hc : ms'.calls = ms.calls)
  | call (i : Nat) (g : Goroutine) (ok : Bool) (hi : ms.goroutines[i]? = some g) (hp : g.point = .switching)
    (hg : ms'.goroutines = (ms.moveTo i g (.called ok)).goroutines) (hs : ms'.spawned = ms.spawned)
    (hc : ms'.calls = ms.calls ++ [g.gid])
  | finish (i : Nat) (hg : ms'.goroutines = ms.goroutines.eraseIdx i) (hs : ms'.spawned = ms.spawned)
    (hc : ms'.calls = ms.calls)

theorem runs_of_step {a : SchedAct} (h : schedStep ms a = some ms') : Runs ms ms' := by
  cases schedStep_cases h with
  | refused => exact .same rfl rfl rfl
  | addTask hadd =>
    obtain ⟨pending, rfl⟩ := addTask_frame hadd
    exact .same rfl rfl rfl
  | addTasks tasks =>
    obtain ⟨pending, heq⟩ := addTasks_frame tasks ms
    exact .same (by rw [heq]) (by rw [heq]) (by rw [heq])
  | cancelTask hcancel =>
    obtain ⟨hgo, -, hsp, hca⟩ := cancelTask_frame hcancel
    exact .same hgo hsp hca
  | cancelAllTasks _ => exact .same rfl rfl rfl
  | setConfig n =>
    unfold MigrationScheduler.setConfig
    split <;> exact .same rfl rfl rfl
  | processQueue => exact .spawn _ rfl rfl rfl
  | move hg hp => exact .move _ _ _ hg hp rfl rfl rfl
  | call ok hg hp => exact .call _ _ ok hg hp rfl rfl rfl
  | finish ok hg _ => exact .finish _ rfl rfl rfl

/-- A cancellation leaves the goroutines where they are. -/
theorem goroutines_of_cancels {task : TaskRef} {a : SchedAct} (hc : Cancels ms task a) (h : schedStep ms a = some ms') :
    ms'.goroutines = ms.goroutines ∧ ms'.spawned = ms.spawned ∧ ms'.calls = ms.calls := by
  cases a with
  | cancelTask p =>
    have hp : ms.activeTasks.get p = some task := hc
    simp only [schedStep, MigrationScheduler.cancelTask, hp] at h
    cases h
    exact ⟨rfl, rfl, rfl⟩
  | cancelAllTasks order =>
    simp only [schedStep] at h
    split at h
    · cases h
      exact ⟨rfl, rfl, rfl⟩
    · cases h
  | _ => exact hc.elim

theorem gid_of_spawned {start : List TaskRef} {n : Nat} {g : Goroutine}
    (h : g ∈ (start.zipIdx n).map fun t => (⟨t.2, t.1, .started⟩ : Goroutine)) :
    n ≤ g.gid ∧ g.gid < n + start.length ∧ g.point = .started := by
  obtain ⟨⟨task, k⟩, hmem, rfl⟩ := List.mem_map.1 h
  obtain ⟨hle, hlt, -⟩ := List.mem_zipIdx hmem
  exact ⟨hle, hlt, rfl⟩

/-- After a move a goroutine of the list is the moved one or one of before. -/
theorem mem_moveTo {i : Nat} {g g' : Goroutine} {point : Point} (h : g' ∈ (ms.moveTo i g point).goroutines) :
    g' ∈ ms.goroutines ∨ g' = { g with point := point } := List.mem_or_eq_of_mem_set h

theorem gids_moveTo {i : Nat} {g : Goroutine} {point : Point} (hi : ms.goroutines[i]? = some g) :
    (ms.moveTo i g point).goroutines.map (·.gid) = ms.goroutines.map (·.gid) := map_moveTo _ hi rfl

theorem getElem?_moveTo {i : Nat} {g : Goroutine} (point : Point) (hi : ms.goroutines[i]? = some g) :
    (ms.moveTo i g point).goroutines[i]? = some { g with point := point } :=
  List.getElem?_set_self (List.getElem?_eq_some_iff.1 hi).1

theorem Point.Next.ne_called {p q : Point} (h : p.Next q) (ok : Bool) : q ≠ .called ok := by
  cases h with
  | stored b => cases b <;> simp
  | waited b => cases b <;> simp

/-! ## Goroutines are told apart by their number -/

structure GidInv (ms : MigrationScheduler) : Prop where
  distinct : (ms.goroutines.map (·.gid)).Nodup
  below    : ∀ g ∈ ms.goroutines, g.gid < ms.spawned
  past     : ∀ gid ∈ ms.calls, gid < ms.spawned
  called   : ∀ g ∈ ms.goroutines, g.gid ∈ ms.calls ↔ ∃ ok, g.point = .called ok

theorem gidInv_new : GidInv MigrationScheduler.new :=
  ⟨List.nodup_nil, by simp [MigrationScheduler.new], by simp [MigrationScheduler.new], by simp [MigrationScheduler.new]⟩

theorem GidInv.spawn (h : GidInv ms) {start : List TaskRef}
    (hg : ms'.goroutines = ms.goroutines ++ (start.zipIdx ms.spawned).map fun t => ⟨t.2, t.1, .started⟩)
    (hs : ms'.spawned = ms.spawned + start.length) (hc : ms'.calls = ms.calls) : GidInv ms' := by
  have hnew : ∀ g ∈ ms'.goroutines, g ∈ ms.goroutines ∨
      ms.spawned ≤ g.gid ∧ g.gid < ms.spawned + start.length ∧ g.point = .started := by
    intro g hmem
    rw [hg, List.mem_append] at hmem
    exact hmem.imp_right gid_of_spawned
  refine ⟨?_, fun g hmem => ?_, fun gid hmem => ?_, fun g hmem => ?_⟩
  · have hgids : ((start.zipIdx ms.spawned).map fun t => (⟨t.2, t.1, .started⟩ : Goroutine)).map (·.gid) =
        List.range' ms.spawned start.length := by
      rw [List.map_map]
      exact List.zipIdx_map_snd ms.spawned start
    rw [hg, List.map_append, hgids, List.nodup_append]
    refine ⟨h.distinct, List.nodup_range', fun a ha b hb hab => ?_⟩
    obtain ⟨g, hmem, rfl⟩ := List.mem_map.1 ha
    have hlt := h.below g hmem
    have hle := (List.mem_range'_1.1 hb).1
    omega
  · rcases hnew g hmem with hold | ⟨-, hlt, -⟩
    · have := h.below g hold
      omega
    · omega
  · have := h.past gid (hc ▸ hmem)
    omega
  · rw [hc]
    rcases hnew g hmem with hold | ⟨hle, -, hstarted⟩
    · exact h.called g hold
    · refine ⟨fun hcall => absurd (h.past g.gid hcall) (by omega), ?_⟩
      rintro ⟨ok, hok⟩
      rw [hstarted] at hok
      cases hok

theorem gidInv_step (ms : MigrationScheduler) (a : SchedAct) (ms' : MigrationScheduler) (h : GidInv ms)
    (hstep : schedStep ms a = some ms') : GidInv ms' := by
  cases runs_of_step hstep with
  | same hg hs hc =>
    obtain ⟨h1, h2, h3, h4⟩ := h
    exact ⟨hg ▸ h1, by rwa [hg, hs], by rwa [hc, hs], by rwa [hg, hc]⟩
  | spawn start hg hs hc => exact h.spawn hg hs hc
  | move i g point hi hp hg hs hc =>
    have hin := List.mem_of_getElem? hi
    refine ⟨?_, fun g' hmem => ?_, fun gid hmem => ?_, fun g' hmem => ?_⟩
    · rw [hg, gids_moveTo hi]
      exact h.distinct
    · rw [hs]
      rcases mem_moveTo (hg ▸ hmem) with hold | rfl
      · exact h.below g' hold
      · exact h.below g hin
    · rw [hs]
      exact h.past gid (hc ▸ hmem)
    · rw [hc]
      rcases mem_moveTo (hg ▸ hmem) with hold | rfl
      · exact h.called g' hold
      · -- such a move neither leaves `called` nor leads there
        refine (h.called g hin).trans ⟨?_, ?_⟩
        · rintro ⟨ok, hcalled⟩
          rw [hcalled] at hp
          cases hp
        · rintro ⟨ok, hcalled⟩
          exact absurd hcalled (hp.ne_called ok)
  | call i g ok hi hp hg hs hc =>
    have hin := List.mem_of_getElem? hi
    have hmoved : { g with point := .called ok } ∈ ms'.goroutines := by
      rw [hg]
      exact List.mem_set (List.getElem?_eq_some_iff.1 hi).1 _
    have hdistinct : (ms'.goroutines.map (·.gid)).Nodup := by
      rw [hg, gids_moveTo hi]
      exact h.distinct
    refine ⟨hdistinct, fun g' hmem => ?_, fun gid hmem => ?_, fun g' hmem => ?_⟩
    · rw [hs]
      rcases mem_moveTo (hg ▸ hmem) with hold | rfl
      · exact h.below g' hold
      · exact h.below g hin
    · rw [hs]
      rw [hc, List.mem_append, List.mem_singleton] at hmem
      rcases hmem with hold | rfl
      · exact h.past gid hold
      · exact h.below g hin
    · rw [hc, List.mem_append, List.mem_singleton]
      by_cases heq : g'.gid = g.gid
      · rw [List.inj_on_of_nodup_map hdistinct hmem hmoved heq]
        exact ⟨fun _ => ⟨ok, rfl⟩, fun _ => .inr rfl⟩
      · rcases mem_moveTo (hg ▸ hmem) with hold | rfl
        · rw [or_iff_left heq]
          exact h.called g' hold
        · exact absurd rfl heq
  | finish i hg hs hc =>
    have hsub : ms'.goroutines.Sublist ms.goroutines := hg ▸ List.eraseIdx_sublist _ _
    refine ⟨h.distinct.sublist (hsub.map _), fun g hmem => ?_, fun gid hmem => ?_, fun g hmem => ?_⟩
    · exact hs ▸ h.below g (hsub.subset hmem)
    · exact hs ▸ h.past gid (hc ▸ hmem)
    · exact hc ▸ h.called g (hsub.subset hmem)

/-! ## A goroutine on its way out never calls -/

structure Leaving (gid : Nat) (ms : MigrationScheduler) : Prop where
  spawned : gid < ms.spawned
  silent  : gid ∉ ms.calls
  failing : ∀ g ∈ ms.goroutines, g.gid = gid → g.point = .failing

theorem leaving_step {gid : Nat} (ms : MigrationScheduler) (a : SchedAct) (ms' : MigrationScheduler)
    (h : Leaving gid ms) (hstep : schedStep ms a = some ms') : Leaving gid ms' := by
  cases runs_of_step hstep with
  | same hg hs hc => exact ⟨hs ▸ h.spawned, hc ▸ h.silent, hg ▸ h.failing⟩
  | spawn start hg hs hc =>
    refine ⟨by have := h.spawned; omega, hc ▸ h.silent, fun g hmem heq => ?_⟩
    rw [hg, List.mem_append] at hmem
    rcases hmem with hold | hnew
    · exact h.failing g hold heq
    · have hle := (gid_of_spawned hnew).1
      have hlt := h.spawned
      omega
  | move i g point hi hp hg hs hc =>
    refine ⟨hs ▸ h.spawned, hc ▸ h.silent, fun g' hmem heq => ?_⟩
    rcases mem_moveTo (hg ▸ hmem) with hold | rfl
    · exact h.failing g' hold heq
    · rw [h.failing g (List.mem_of_getElem? hi) heq] at hp
      cases hp
  | call i g ok hi hp hg hs hc =>
    have hother : g.gid ≠ gid := by
      intro heq
      rw [h.failing g (List.mem_of_getElem? hi) heq] at hp
      cases hp
    refine ⟨hs ▸ h.spawned, ?_, fun g' hmem heq => ?_⟩
    · rw [hc, List.mem_append, List.mem_singleton]
      rintro (hold | heq)
      · exact h.silent hold
      · exact hother heq.symm
    · rcases mem_moveTo (hg ▸ hmem) with hold | rfl
      · exact h.failing g' hold heq
      · exact absurd heq hother
  | finish i hg hs hc =>
    refine ⟨hs ▸ h.spawned, hc ▸ h.silent, fun g hmem heq => ?_⟩
    exact h.failing g (List.mem_of_mem_eraseIdx (hg ▸ hmem)) heq

/-! ## Any other goroutine may call -/

/-- Some run goes on to a call by goroutine `gid`. -/
def MayCall (gid : Nat) (ms : MigrationScheduler) : Prop :=
  ∃ bs ms', run schedStep ms bs = some ms' ∧ gid ∈ ms'.calls

theorem MayCall.before {gid : Nat} {a : SchedAct} (h : MayCall gid ms') (hstep : schedStep ms a = some ms') :
    MayCall gid ms := by
  obtain ⟨bs, ms'', hrun, hcall⟩ := h
  exact ⟨a :: bs, ms'', run_cons.2 ⟨ms', hstep, hrun⟩, hcall⟩

theorem mayCall_of_switching {i gid : Nat} {task : TaskRef} (hi : ms.goroutines[i]? = some ⟨gid, task, .switching⟩) :
    MayCall gid ms := by
  have hstep : schedStep ms (.completeCall i true) =
      some { ms.moveTo i ⟨gid, task, .switching⟩ (.called true) with calls := ms.calls ++ [gid] } := by
    simp only [schedStep, hi]
  exact ⟨[.completeCall i true], _, run_cons.2 ⟨_, hstep, rfl⟩, List.mem_append_right _ List.mem_cons_self⟩

theorem mayCall_of_waiting {i gid : Nat} {task : TaskRef} (hi : ms.goroutines[i]? = some ⟨gid, task, .waiting⟩) :
    MayCall gid ms := by
  have hnext : MayCall gid (ms.moveTo i ⟨gid, task, .waiting⟩ .switching) :=
    mayCall_of_switching (getElem?_moveTo .switching hi)
  refine @MayCall.before _ _ _ (.select i true) hnext ?_
  simp only [schedStep, hi]
  rfl

theorem mayCall_of_started {i gid : Nat} {task : TaskRef} (hi : ms.goroutines[i]? = some ⟨gid, task, .started⟩) :
    MayCall gid ms := by
  have hnext : MayCall gid (ms.moveTo i ⟨gid, task, .started⟩ .waiting) :=
    mayCall_of_waiting (getElem?_moveTo .waiting hi)
  refine @MayCall.before _ _ _ (.setState i true) hnext ?_
  simp only [schedStep, hi]
  rfl

end

/-- **Cancelled tasks.** In a run, when an active task is cancelled whose goroutine `g` has not called
`Router.CompleteMigration`, the goroutine never does in any continuation exactly if it was already on its way out with
an error. -/
theorem cancelled_never_calls_iff {as : List SchedAct} {ms ms' : MigrationScheduler} {a : SchedAct} {g : Goroutine}
    (hrun : run schedStep MigrationScheduler.new as = some ms) (hg : g ∈ ms.goroutines) (hcancel : Cancels ms g.task a)
    (hnot : g.gid ∉ ms.calls) (hstep : schedStep ms a = some ms') :
    (∀ bs ms'', run schedStep ms' bs = some ms'' → g.gid ∉ ms''.calls) ↔ g.point = .failing := by
  have hinv : GidInv ms := run_inv gidInv_step gidInv_new hrun
  obtain ⟨hgo, hsp, hca⟩ := goroutines_of_cancels hcancel hstep
  constructor
  · intro hnever
    by_contra hpoint
    have hmay : MayCall g.gid ms' := by
      obtain ⟨i, hi⟩ := List.mem_iff_getElem?.1 (hgo ▸ hg)
      obtain ⟨gid, task, point⟩ := g
      cases point with
      | started => exact mayCall_of_started hi
      | waiting => exact mayCall_of_waiting hi
      | switching => exact mayCall_of_switching hi
      | called ok => exact absurd ((hinv.called _ hg).2 ⟨ok, rfl⟩) hnot
      | failing => exact absurd rfl hpoint
    obtain ⟨bs, ms'', hrun', hcall⟩ := hmay
    exact hnever bs ms'' hrun' hcall
  · intro hpoint bs ms'' hrun'
    have hleaving : Leaving g.gid ms' := by
      refine ⟨hsp ▸ hinv.below g hg, hca ▸ hnot, fun g' hmem heq => ?_⟩
      rw [List.inj_on_of_nodup_map hinv.distinct (hgo ▸ hmem) hg heq]
      exact hpoint
    exact (run_inv leaving_step hleaving hrun').silent

/-- A task whose `SetMigrationState` has failed. -/
theorem cancelled_never_calls_iff_failed :
    ∃ ms ms' : MigrationScheduler,
      run schedStep MigrationScheduler.new [.addTask (sevenTo 0 "B"), .processQueue, .setState 0 false] = some ms ∧
      schedStep ms (.cancelTask 7) = some ms' ∧ ∀ bs ms'', run schedStep ms' bs = some ms'' → 0 ∉ ms''.calls := by
  refine ⟨_, _, rfl, rfl, ?_⟩
  exact (@cancelled_never_calls_iff [.addTask (sevenTo 0 "B"), .processQueue, .setState 0 false] _ _ (.cancelTask 7)
    ⟨0, sevenTo 0 "B", .failing⟩ rfl (by decide) (by rfl) (by decide) rfl).2 rfl

/-- **Bug**: `CancelTask` returns, partition 7's task is reported as cancelled, and its goroutine goes on to call
`Router.CompleteMigration`. -/
theorem cancelled_task_calls :
    ∃ ms ms' : MigrationScheduler,
      run schedStep MigrationScheduler.new [.addTask (sevenTo 0 "B"), .processQueue, .cancelTask 7] = some ms ∧
      ms.completedTasks = [sevenTo 0 "B"] ∧ ms.totalFailed = 1 ∧ ms.calls = [] ∧
      run schedStep ms [.setState 0 true, .select 0 true, .completeCall 0 true] = some ms' ∧ ms'.calls = [0] :=
  ⟨_, _, rfl, by decide, rfl, rfl, rfl, rfl⟩

end RocksKV.Metadata
