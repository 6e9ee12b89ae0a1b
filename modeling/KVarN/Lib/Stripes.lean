import Mathlib.Algebra.BigOperators.Group.Finset.Piecewise
import Mathlib.Tactic.Ring

/-!
# Stripes

The natural numbers are dealt out to `n` owners in stripes of `w`.

## Main definitions

* `owner`, `place` — the owner of a number, and its place among the numbers of that owner.
* `nth`, `count` — the number with a given place, and how many there are below a bound.

## Main results

* `filter_owner` — the numbers of an owner below a bound, in increasing order.
* `sum_count` — the owners have all of them.
-/

namespace KVarN.Lib.Stripes

open List

variable (w n r : ℕ)

def owner (p : ℕ) : ℕ := p / w % n

/-- The place of a number among those of its owner. -/
def place (p : ℕ) : ℕ := p / (w * n) * w + p % w

/-- The number of an owner with a given place. -/
def nth (i : ℕ) : ℕ := i / w * (w * n) + (r * w + i % w)

/-- How many numbers below `L` an owner has. -/
def count (L : ℕ) : ℕ := L / (w * n) * w + min (L % (w * n) - r * w) w

variable {w n r} {p i L : ℕ}

theorem eq_of_digits {a a' b c c' : ℕ} (hc : c < b) (hc' : c' < b)
    (h : a * b + c = a' * b + c') : a = a' ∧ c = c' := by
  have hmod := congrArg (· % b) h
  simp only [Nat.mul_add_mod_of_lt hc, Nat.mul_add_mod_of_lt hc'] at hmod
  subst hmod
  exact ⟨Nat.eq_of_mul_eq_mul_right (by omega) (Nat.add_right_cancel h), rfl⟩

theorem owner_lt (hn : 0 < n) : owner w n p < n := Nat.mod_lt _ hn

section

variable (hw : 0 < w)

include hw

theorem owner_eq_iff : owner w n p = r ↔ r * w ≤ p % (w * n) ∧ p % (w * n) < r * w + w := by
  rw [owner, ← Nat.mod_mul_right_div_self, Nat.div_eq_iff hw]
  omega

theorem nth_count (h : owner w n L = r) : nth w n r (count w n r L) = L := by
  obtain ⟨hlo, hhi⟩ := (owner_eq_iff hw).1 h
  have hmin : min (L % (w * n) - r * w) w = L % (w * n) - r * w := by omega
  have hsmall : (L % (w * n) - r * w) / w = 0 := Nat.div_eq_of_lt (by omega)
  have hdiv := Nat.div_add_mod' L (w * n)
  rw [nth, count, hmin, Nat.mul_add_mod_of_lt (by omega), Nat.mul_comm (L / (w * n)) w,
    Nat.mul_add_div hw, hsmall, Nat.add_zero]
  omega

theorem place_lt {k : ℕ} (h : p < k * (w * n)) : place w n p < k * w := by
  have hdiv : p / (w * n) < k := Nat.div_lt_of_lt_mul (by rwa [Nat.mul_comm])
  calc place w n p < (p / (w * n) + 1) * w := by
        rw [place, Nat.succ_mul]
        exact Nat.add_lt_add_left (Nat.mod_lt p hw) _
    _ ≤ k * w := Nat.mul_le_mul_right w hdiv

variable (hr : r < n)

include hr

theorem count_succ (L : ℕ) :
    count w n r (L + 1) = count w n r L + if owner w n L = r then 1 else 0 := by
  have hle : r * w + w ≤ w * n := by
    rw [← Nat.succ_mul, Nat.mul_comm w]
    exact Nat.mul_le_mul_right w hr
  have hpos : 0 < w * n := by omega
  have hlt := Nat.mod_lt L hpos
  have hdiv := Nat.div_add_mod L (w * n)
  simp only [count, owner_eq_iff hw]
  by_cases hlast : L % (w * n) + 1 = w * n
  · -- the last number of a round
    have hL : L + 1 = w * n * (L / (w * n) + 1) := by
      rw [Nat.mul_succ]
      omega
    rw [hL, Nat.mul_div_cancel_left _ hpos, Nat.mul_mod_right, Nat.succ_mul]
    split_ifs <;> omega
  · have hL : L + 1 = w * n * (L / (w * n)) + (L % (w * n) + 1) := by omega
    have hmod : (L + 1) % (w * n) = L % (w * n) + 1 := by
      rw [hL, Nat.mul_add_mod, Nat.mod_eq_of_lt (by omega)]
    have hsmall : (L % (w * n) + 1) / (w * n) = 0 := Nat.div_eq_of_lt (by omega)
    have hdiv' : (L + 1) / (w * n) = L / (w * n) := by
      rw [hL, Nat.mul_add_div hpos, hsmall, Nat.add_zero]
    rw [hmod, hdiv']
    split_ifs <;> omega

/-- **The numbers of an owner, in increasing order.** -/
theorem filter_owner (L : ℕ) :
    (range L).filter (owner w n · = r) = (range (count w n r L)).map (nth w n r) := by
  induction L with
  | zero => simp [count]
  | succ L ih =>
    rw [range_succ, filter_append, ih, count_succ hw hr]
    by_cases hL : owner w n L = r
    · rw [if_pos hL, range_succ, map_append]
      simp [hL, nth_count hw hL]
    · simp [hL]

theorem place_nth (i : ℕ) : place w n (nth w n r i) = i := by
  have hlt := Nat.mod_lt i hw
  have hsmall : (r * w + i % w) / (w * n) = 0 := by
    rw [Nat.div_eq_of_lt]
    calc r * w + i % w < (r + 1) * w := by rw [Nat.succ_mul]; omega
      _ ≤ w * n := by rw [Nat.mul_comm w]; exact Nat.mul_le_mul_right w hr
  have hmod : nth w n r i % w = i % w := by
    rw [nth, show i / w * (w * n) + (r * w + i % w) = w * (i / w * n + r) + i % w by ring,
      Nat.mul_add_mod, Nat.mod_mod]
  rw [place, hmod, nth, Nat.mul_comm _ (w * n), Nat.mul_add_div (Nat.mul_pos hw (by omega)), hsmall,
    Nat.add_zero, Nat.div_add_mod']

end

theorem sum_count (hw : 0 < w) (hn : 0 < n) (L : ℕ) : ∑ r ∈ Finset.range n, count w n r L = L := by
  induction L with
  | zero => simp [count]
  | succ L ih =>
    rw [Finset.sum_congr rfl fun r hr => count_succ hw (Finset.mem_range.1 hr) L,
      Finset.sum_add_distrib, ih]
    simp only [Finset.sum_ite_eq, Finset.mem_range, if_pos (owner_lt hn)]

end KVarN.Lib.Stripes
