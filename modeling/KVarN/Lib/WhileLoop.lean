import Mathlib.Tactic.Common

/-!
# Loops with a condition

## Main definitions

* `whileLoop` — a loop with a condition and a body that may raise.

## Main results

* `whileLoop_eq_ok` — the rule of total correctness, by an invariant and a measure.
-/

namespace KVarN.Lib

universe u v

variable {ε : Type u} {σ : Type v} (cond : σ → Prop) [DecidablePred cond] (body : σ → Except ε σ)

/-- `while cond: body`; the error `stuck` stands for a loop that takes more than `fuel` rounds. -/
def whileLoop (stuck : ε) : ℕ → σ → Except ε σ
  | 0, s => if cond s then .error stuck else .ok s
  | fuel + 1, s => if cond s then body s >>= whileLoop stuck fuel else .ok s

variable {cond body}

/-- A loop whose rounds keep an invariant and lower a measure ends. -/
theorem whileLoop_eq_ok (Inv : σ → Prop) (measure : σ → ℕ)
    (hstep : ∀ s, Inv s → cond s → ∃ s', body s = .ok s' ∧ Inv s' ∧ measure s' < measure s)
    (stuck : ε) {fuel : ℕ} {s : σ} (hs : Inv s) (hfuel : measure s ≤ fuel) :
    ∃ s', whileLoop cond body stuck fuel s = .ok s' ∧ Inv s' ∧ ¬ cond s' := by
  induction fuel generalizing s with
  | zero =>
    by_cases hcond : cond s
    · obtain ⟨s', -, -, hlt⟩ := hstep s hs hcond
      omega
    · exact ⟨s, if_neg hcond, hs, hcond⟩
  | succ fuel ih =>
    by_cases hcond : cond s
    · obtain ⟨s', hbody, hs', hlt⟩ := hstep s hs hcond
      obtain ⟨r, hr, hinv, hdone⟩ := ih hs' (by omega)
      refine ⟨r, ?_, hinv, hdone⟩
      rw [whileLoop, if_pos hcond, hbody]
      exact hr
    · exact ⟨s, if_neg hcond, hs, hcond⟩

end KVarN.Lib
