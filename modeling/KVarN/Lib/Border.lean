import Mathlib.Tactic.Common

/-!
# Borders

The first symbols of a text may occur again at a later position; an occurrence at the end of a
beginning of the text is a border of it. The matches that end at one position are borders of the
longest of them, which is how a text is searched for its own beginning in one pass.

## Main definitions

* `Matches t v i` — the first `v` symbols stand again right before position `i`.
* `Longest t m v i` — `v` is the longest match before `i` that is not the whole beginning, among
  those up to `m`.

## Main results

* `matches_succ` — a match is extended by one equal symbol.
* `Matches.matches_iff` — the shorter matches are those within a match.
* `Longest.within` — the next shorter match.
-/

namespace KVarN.Lib.Border

universe u

variable {α : Type u} {t : ℕ → α} {m v w i : ℕ}

/-- The first `v` symbols stand right before position `i`. -/
def Matches (t : ℕ → α) (v i : ℕ) : Prop :=
  v ≤ i ∧ ∀ j < v, t (i - v + j) = t j

/-- The longest match of at most `m` symbols before `i`. -/
structure Longest (t : ℕ → α) (m v i : ℕ) : Prop where
  lt : v < i
  le : v ≤ m
  found : Matches t v i
  longest : ∀ w < i, w ≤ m → Matches t w i → w ≤ v

theorem matches_zero : Matches t 0 i :=
  ⟨Nat.zero_le i, fun _ h => absurd h (Nat.not_lt_zero _)⟩

theorem matches_succ : Matches t (v + 1) (i + 1) ↔ Matches t v i ∧ t v = t i := by
  simp only [Matches, Nat.forall_lt_succ_right, Nat.add_sub_add_right, Nat.add_le_add_iff_right]
  constructor
  · rintro ⟨hle, hall, hlast⟩
    rw [Nat.sub_add_cancel hle] at hlast
    exact ⟨⟨hle, hall⟩, hlast.symm⟩
  · rintro ⟨⟨hle, hall⟩, hlast⟩
    rw [Nat.sub_add_cancel hle]
    exact ⟨hle, hall, hlast.symm⟩

/-- A shorter match is one within a longer match. -/
theorem Matches.matches_iff (h : Matches t v i) (hle : w ≤ v) : Matches t w i ↔ Matches t w v := by
  have hat : ∀ j < w, t (i - w + j) = t (v - w + j) := fun j hj => by
    rw [← h.2 (v - w + j) (by omega)]
    congr 1
    have := h.1
    omega
  have hi := h.1
  refine ⟨fun hw => ⟨hle, fun j hj => ?_⟩, fun hw => ⟨by omega, fun j hj => ?_⟩⟩
  · rw [← hat j hj, hw.2 j hj]
  · rw [hat j hj, hw.2 j hj]

/-- The longest match within a match. -/
theorem Longest.within (h : Matches t v i) (hw : Longest t m w v) :
    Matches t w i ∧ ∀ u < v, u ≤ m → Matches t u i → u ≤ w :=
  ⟨(h.matches_iff (Nat.le_of_lt hw.lt)).2 hw.found,
    fun u hu hum hmatch => hw.longest u hu hum ((h.matches_iff (Nat.le_of_lt hu)).1 hmatch)⟩

end KVarN.Lib.Border
