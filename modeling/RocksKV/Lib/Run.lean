import Mathlib
/-!
# Runs of a partial step function

`run step s as` executes the actions `as` one after another and fails as soon as one is not
enabled. `Along step C s as` says that every action of the run is taken in a state where `C`
allows it. The invariant rules turn a fact about one step into a fact about whole runs.
-/

namespace Lib

section
variable {σ α : Type} (step : σ → α → Option σ)

def run : σ → List α → Option σ
  | s, [] => some s
  | s, a :: as => (step s a).bind fun s' => run s' as

/-- Every action of the run starts in a state where `C` allows it. -/
def Along (C : σ → α → Prop) : σ → List α → Prop
  | _, [] => True
  | s, a :: as => C s a ∧ ∀ s', step s a = some s' → Along C s' as

variable {step}

theorem run_cons {s s' : σ} {a : α} {as : List α} :
    run step s (a :: as) = some s' ↔ ∃ t, step s a = some t ∧ run step t as = some s' := by
  simp [run, Option.bind_eq_some_iff]

theorem run_append {s s' t : σ} {as bs : List α} (h : run step s as = some t) (h' : run step t bs = some s') :
    run step s (as ++ bs) = some s' := by
  induction as generalizing s with
  | nil =>
    cases h
    exact h'
  | cons a as ih =>
    obtain ⟨u, hu, hrest⟩ := run_cons.1 h
    exact run_cons.2 ⟨u, hu, ih hrest⟩

/-- The rest of a run. -/
theorem run_of_append {s s' t : σ} {as bs : List α} (h : run step s as = some t) (h' : run step s (as ++ bs) = some s') :
    run step t bs = some s' := by
  induction as generalizing s with
  | nil =>
    cases h
    exact h'
  | cons a as ih =>
    obtain ⟨u, hu, hrest⟩ := run_cons.1 h
    obtain ⟨v, hv, hrest'⟩ := run_cons.1 h'
    rw [hu] at hv
    cases hv
    exact ih hrest hrest'

/-- **Guarded invariant rule**: what every step preserves where the run's condition allows it, the run preserves. -/
theorem run_inv_along {C : σ → α → Prop} {P : σ → Prop}
    (hstep : ∀ s a s', P s → C s a → step s a = some s' → P s') :
    ∀ {as : List α} {s s' : σ}, P s → Along step C s as → run step s as = some s' → P s'
  | [], s, s', hs, _, h => by cases h; exact hs
  | a :: as, s, s', hs, hc, h => by
    obtain ⟨t, h1, h2⟩ := run_cons.1 h
    exact run_inv_along hstep (hstep s a t hs hc.1 h1) (hc.2 t h1) h2

/-- **Invariant rule**: what every step preserves, the run preserves. -/
theorem run_inv {P : σ → Prop} (hstep : ∀ s a s', P s → step s a = some s' → P s') :
    ∀ {as : List α} {s s' : σ}, P s → run step s as = some s' → P s'
  | [], s, s', hs, h => by cases h; exact hs
  | a :: as, s, s', hs, h => by
    obtain ⟨t, h1, h2⟩ := run_cons.1 h
    exact run_inv hstep (hstep s a t hs h1) h2

/-- What an invariant and the run's condition give of every step, the whole run has. -/
theorem along_of_inv {C D : σ → α → Prop} {P : σ → Prop}
    (hstep : ∀ s a s', P s → C s a → step s a = some s' → P s') (hD : ∀ s a, P s → C s a → D s a) :
    ∀ {as : List α} {s : σ}, P s → Along step C s as → Along step D s as
  | [], _, _, _ => trivial
  | a :: _, s, hs, hc => ⟨hD s a hs hc.1, fun s' h => along_of_inv hstep hD (hstep s a s' hs hc.1 h) (hc.2 s' h)⟩

/-- **A condition that cannot be broken unseen**: where a step against the condition leads to what every later step
keeps, a run that does not end there has kept the condition. -/
theorem along_of_run {C : σ → α → Prop} {P B : σ → Prop}
    (hstep : ∀ s a s', P s → C s a → step s a = some s' → P s')
    (hbreak : ∀ s a s', P s → ¬ C s a → step s a = some s' → B s')
    (hkeep : ∀ s a s', B s → step s a = some s' → B s') :
    ∀ {as : List α} {s s' : σ}, P s → run step s as = some s' → ¬ B s' → Along step C s as
  | [], _, _, _, _, _ => trivial
  | a :: as, s, s', hs, h, hend => by
    obtain ⟨t, hfirst, hrest⟩ := run_cons.1 h
    have hc : C s a := by
      by_contra hc
      exact hend (run_inv hkeep (hbreak s a t hs hc hfirst) hrest)
    refine ⟨hc, fun u hu => ?_⟩
    rw [hfirst] at hu
    cases hu
    exact along_of_run hstep hbreak hkeep (hstep s a t hs hc hfirst) hrest hend

/-- A condition on the actions alone. -/
theorem along_of_forall_mem {C : σ → α → Prop} : ∀ {as : List α} {s : σ}, (∀ a ∈ as, ∀ s, C s a) → Along step C s as
  | [], _, _ => trivial
  | a :: _, s, h => ⟨h a List.mem_cons_self s, fun _ _ =>
      along_of_forall_mem fun b hb => h b (List.mem_cons_of_mem a hb)⟩

/-- A run keeps to a condition, or there is a moment at which it does not. -/
theorem along_or_exists (C : σ → α → Prop) : ∀ {as : List α} {s s' : σ}, run step s as = some s' → Along step C s as ∨
    ∃ bs a cs t u, as = bs ++ a :: cs ∧ run step s bs = some t ∧ ¬ C t a ∧ step t a = some u ∧ run step u cs = some s'
  | [], _, _, _ => .inl trivial
  | a :: as, s, s', h => by
    obtain ⟨t, hfirst, hrest⟩ := run_cons.1 h
    by_cases hc : C s a
    · rcases along_or_exists C hrest with halong | ⟨bs, b, cs, u, v, rfl, hrun, hmoment⟩
      · exact .inl ⟨hc, fun t' ht' => by rw [hfirst] at ht'; cases ht'; exact halong⟩
      · exact .inr ⟨a :: bs, b, cs, u, v, rfl, run_cons.2 ⟨t, hfirst, hrun⟩, hmoment⟩
    · exact .inr ⟨[], a, as, s, t, rfl, rfl, hc, hfirst, hrest⟩

/-- Two conditions on one run. -/
theorem Along.and {C D : σ → α → Prop} : ∀ {as : List α} {s : σ}, Along step C s as → Along step D s as →
    Along step (fun s a => C s a ∧ D s a) s as
  | [], _, _, _ => trivial
  | _ :: _, _, hc, hd => ⟨⟨hc.1, hd.1⟩, fun s' h => (hc.2 s' h).and (hd.2 s' h)⟩

/-- A condition on a run holds on its rest. -/
theorem Along.after {C : σ → α → Prop} : ∀ {as bs : List α} {s t : σ}, Along step C s (as ++ bs) →
    run step s as = some t → Along step C t bs
  | [], _, _, _, hc, h => by cases h; exact hc
  | _ :: _, _, _, _, hc, h => by
    obtain ⟨u, hu, hrest⟩ := run_cons.1 h
    exact (hc.2 u hu).after hrest

/-- A run on fixed actions, checked by evaluating it. -/
theorem exists_run {P : σ → Prop} [DecidablePred P] {s : σ} {as : List α}
    (h : (run step s as).any (fun s' => decide (P s')) = true) : ∃ s', run step s as = some s' ∧ P s' := by
  cases hr : run step s as with
  | none =>
    rw [hr] at h
    cases h
  | some s' =>
    rw [hr] at h
    exact ⟨s', rfl, of_decide_eq_true h⟩

instance Along.decidable {C : σ → α → Prop} [∀ s a, Decidable (C s a)] :
    ∀ (s : σ) (as : List α), Decidable (Along step C s as)
  | _, [] => isTrue trivial
  | s, a :: as =>
    match h : step s a with
    | none => decidable_of_iff (C s a) ⟨fun hc => ⟨hc, fun s' hs => by simp [h] at hs⟩, fun hc => hc.1⟩
    | some t =>
      have := Along.decidable (C := C) t as
      decidable_of_iff (C s a ∧ Along step C t as)
        ⟨fun hc => ⟨hc.1, fun s' hs => by rw [h] at hs; cases hs; exact hc.2⟩, fun hc => ⟨hc.1, hc.2 t h⟩⟩

end

/-! ## Parties known by their position

A system whose state lists its calls or processes changes one of them, or adds one, in a step. -/

section
variable {α : Type} {l : List α} {i j : Nat} {a x : α}

theorem getElem?_set_eq_some (h : (l.set i a)[j]? = some x) : j = i ∧ x = a ∨ j ≠ i ∧ l[j]? = some x := by
  rw [List.getElem?_set] at h
  split_ifs at h with hij hlen
  · cases h
    exact .inl ⟨hij.symm, rfl⟩
  · exact .inr ⟨Ne.symm hij, h⟩

theorem getElem?_modify_eq_some {f : α → α} (h : (l.modify i f)[j]? = some x) :
    ∃ y, l[j]? = some y ∧ (j = i ∧ x = f y ∨ j ≠ i ∧ x = y) := by
  rw [List.getElem?_modify] at h
  obtain ⟨y, hy, rfl⟩ := Option.map_eq_some_iff.1 h
  refine ⟨y, hy, ?_⟩
  by_cases hij : i = j
  · exact .inl ⟨hij.symm, by simp [hij]⟩
  · exact .inr ⟨Ne.symm hij, by simp [hij]⟩

theorem getElem?_concat_eq_some (h : (l ++ [a])[j]? = some x) : j = l.length ∧ x = a ∨ l[j]? = some x := by
  rcases Nat.lt_or_ge j l.length with hlt | hge
  · rw [List.getElem?_append_left hlt] at h
    exact .inr h
  · rw [List.getElem?_append_right hge, List.getElem?_singleton] at h
    split_ifs at h
    cases h
    exact .inl ⟨by omega, rfl⟩

end

end Lib
