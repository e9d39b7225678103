-- Runs of a step that may raise. With a measure that each step lowers, no step raises and the
-- run is over after finitely many steps.
import RecomputeOrMigrate.General.Calls

open calls

namespace progress

variable {ε σ : Type}

/-- This many steps, one after the other. -/
def steps (step : σ → Except ε σ) (s : σ) : Nat → Except ε σ
  | 0 => .ok s
  | n + 1 => do
    let s ← steps step s n
    step s

/-- `inv m s` is an invariant with the measure `m`. A step from a state that has not ended goes
through and lowers the measure. An ended state stays. -/
structure Lowers (step : σ → Except ε σ) (ended : σ → Prop) (inv : Nat → σ → Prop) : Prop where
  lowers : ∀ m s, inv m s → ¬ ended s → ∃ m' s', step s = .ok s' ∧ inv m' s' ∧ m' < m
  stays : ∀ s, ended s → step s = .ok s

variable {step : σ → Except ε σ} {ended : σ → Prop} {inv : Nat → σ → Prop} {m : Nat} {s : σ}

/-- Each number of steps goes through. -/
theorem steps_ok (h : Lowers step ended inv) (hs : inv m s) (n : Nat) :
    ∃ m' s', steps step s n = .ok s' ∧ inv m' s' ∧ (ended s' ∨ m' + n ≤ m) := by
  induction n with
  | zero => exact ⟨m, s, rfl, hs, .inr (Nat.le_refl m)⟩
  | succ n ih =>
    obtain ⟨m1, s1, hsteps, hs1, hle⟩ := ih
    have hnext : steps step s (n + 1) = step s1 := ok_bind hsteps
    by_cases hended : ended s1
    · exact ⟨m1, s1, hnext.trans (h.stays s1 hended), hs1, .inl hended⟩
    · obtain ⟨m', s', hstep, hs', hlt⟩ := h.lowers m1 s1 hs1 hended
      refine ⟨m', s', hnext.trans hstep, hs', .inr ?_⟩
      have hleft := hle.resolve_left hended
      omega

/-- The run ends at some time. -/
theorem steps_ended (h : Lowers step ended inv) (hs : inv m s) :
    ∃ n m' s', steps step s n = .ok s' ∧ inv m' s' ∧ ended s' := by
  obtain ⟨m', s', hsteps, hs', hle⟩ := steps_ok h hs (m + 1)
  refine ⟨m + 1, m', s', hsteps, hs', hle.resolve_right ?_⟩
  omega

end progress
