/-!
# Walks that end

A walk takes steps from state to state until one yields a result. It carries a measure of the work
left and the proof that every step lowers it, so a walk can be run to its end without a bound given
in advance.
-/

namespace PriorityDonation

structure Walk (σ ρ : Type) where
  step : σ → σ ⊕ ρ
  work : σ → Nat
  work_lt : ∀ {s s' : σ}, step s = .inl s' → work s' < work s

namespace Walk

variable {σ ρ : Type} (walk : Walk σ ρ)

@[specialize] def run (s : σ) : ρ :=
  match _ : walk.step s with
  | .inl s' => run s'
  | .inr result => result
termination_by walk.work s
decreasing_by exact walk.work_lt ‹_›

theorem run_of_inl {s s' : σ} (h : walk.step s = .inl s') : walk.run s = walk.run s' := by
  rw [run]
  split <;> simp_all

theorem run_of_inr {s : σ} {result : ρ} (h : walk.step s = .inr result) :
    walk.run s = result := by
  rw [run]
  split <;> simp_all

/-- What holds at the start and survives every step holds where the result is yielded. -/
theorem exists_last {P : σ → Prop} (keep : ∀ s s', P s → walk.step s = .inl s' → P s')
    (s : σ) (hs : P s) : ∃ last, P last ∧ walk.step last = .inr (walk.run s) := by
  fun_induction run walk s with
  | case1 s s' h ih => exact ih (keep s s' hs h)
  | case2 s result h => exact ⟨s, hs, h⟩

/-- The states from which steps are taken until the result is yielded, the first one first. -/
inductive Runs : σ → List σ → ρ → Prop
  | done {s : σ} {result : ρ} : walk.step s = .inr result → Runs s [s] result
  | step {s s' : σ} {states : List σ} {result : ρ} :
      walk.step s = .inl s' → Runs s' states result → Runs s (s :: states) result

theorem Runs.head? {walk : Walk σ ρ} {s : σ} {states : List σ} {result : ρ}
    (h : walk.Runs s states result) : states.head? = some s := by cases h <;> rfl

theorem exists_runs (s : σ) : ∃ states, walk.Runs s states (walk.run s) := by
  fun_induction run walk s with
  | case1 s s' h ih =>
    obtain ⟨states, hruns⟩ := ih
    exact ⟨s :: states, .step h hruns⟩
  | case2 s result h => exact ⟨[s], .done h⟩

end Walk

end PriorityDonation
