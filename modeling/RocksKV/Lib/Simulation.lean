import RocksKV.Lib.Run
/-!
# Forward simulation

A concrete system takes the steps of `step`, and `obs` says what can be seen of one: nothing, or events of an abstract
system given by a relation `next`. If every step is matched by a path of the abstract system with the step's events
then so is every run, with the events of the whole run (`steps_of_run`).
-/

namespace Lib

section
variable {τ β : Type}

/-- Paths of an abstract system. -/
inductive Steps (next : τ → β → τ → Prop) : τ → List β → τ → Prop
  | nil {t : τ} : Steps next t [] t
  | cons {t u v : τ} {b : β} {bs : List β} : next t b u → Steps next u bs v → Steps next t (b :: bs) v

variable {next : τ → β → τ → Prop}

theorem Steps.single {t u : τ} {b : β} (h : next t b u) : Steps next t [b] u := .cons h .nil

theorem Steps.append {t u v : τ} {as bs : List β} (h : Steps next t as u) (h' : Steps next u bs v) :
    Steps next t (as ++ bs) v := by
  induction h with
  | nil => exact h'
  | cons hb _ ih => exact .cons hb (ih h')

end

section
variable {σ α τ β : Type} (step : σ → α → Option σ) (obs : σ → α → List β)

/-- What can be seen of a run. -/
def trace : σ → List α → List β
  | _, [] => []
  | s, a :: as => obs s a ++ (step s a).elim [] fun s' => trace s' as

variable {step obs}

/-- What can be seen of every step under an invariant, can be seen of a run. -/
theorem forall_mem_trace {P : σ → Prop} {Q : β → Prop} (hinv : ∀ s a s', P s → step s a = some s' → P s')
    (hobs : ∀ s a, P s → ∀ b ∈ obs s a, Q b) : ∀ {as : List α} {s : σ}, P s → ∀ b ∈ trace step obs s as, Q b
  | [], _, _, b, hb => absurd hb List.not_mem_nil
  | a :: as, s, hs, b, hb => by
    rw [trace, List.mem_append] at hb
    rcases hb with hfirst | hrest
    · exact hobs s a hs b hfirst
    · cases hstep : step s a with
      | none =>
        rw [hstep] at hrest
        exact absurd hrest List.not_mem_nil
      | some s' =>
        rw [hstep] at hrest
        exact forall_mem_trace hinv hobs (hinv s a s' hs hstep) b hrest

/-- **Invariants over the past**: what every step keeps of the state and of all that has been seen, a run keeps. -/
theorem run_inv_trace {C : σ → α → Prop} {P : List β → σ → Prop}
    (hstep : ∀ past s a s', P past s → C s a → step s a = some s' → P (past ++ obs s a) s') :
    ∀ {as : List α} {s s' : σ} {past : List β}, P past s → Along step C s as → run step s as = some s' →
      P (past ++ trace step obs s as) s'
  | [], s, s', past, hs, _, h => by
    cases h
    rwa [trace, List.append_nil]
  | a :: as, s, s', past, hs, hc, h => by
    obtain ⟨t, hfirst, hrest⟩ := run_cons.1 h
    rw [trace, hfirst, ← List.append_assoc]
    exact run_inv_trace hstep (hstep past s a t hs hc.1 hfirst) (hc.2 t hfirst) hrest

variable {next : τ → β → τ → Prop} {C : σ → α → Prop} {P : σ → Prop} {abs : σ → τ}

/-- **Simulation rule**: what holds of one step under the invariant and the run's condition holds of the run. -/
theorem steps_of_run (hinv : ∀ s a s', P s → C s a → step s a = some s' → P s')
    (hsim : ∀ s a s', P s → C s a → step s a = some s' → Steps next (abs s) (obs s a) (abs s')) :
    ∀ {as : List α} {s s' : σ}, P s → Along step C s as → run step s as = some s' →
      Steps next (abs s) (trace step obs s as) (abs s')
  | [], s, s', _, _, h => by
    cases h
    exact .nil
  | a :: as, s, s', hs, hc, h => by
    obtain ⟨t, hfirst, hrest⟩ := run_cons.1 h
    have htrace : trace step obs s (a :: as) = obs s a ++ trace step obs t as := by
      rw [trace, hfirst]
      rfl
    rw [htrace]
    exact (hsim s a t hs hc.1 hfirst).append
      (steps_of_run hinv hsim (hinv s a t hs hc.1 hfirst) (hc.2 t hfirst) hrest)

end

end Lib
