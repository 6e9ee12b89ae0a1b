import Mathlib.Data.List.GetD
import Mathlib.Order.Interval.Finset.Nat

/-!
# Occupancy of a table

A table is a list whose free entries hold a placeholder `d`. This file counts the
occupied entries through the positions they can have, and names the relation between two
tables of one length when the second is occupied only where the first is.

## Main definitions

* `occupancy d l` — the number of entries of `l` that are not the placeholder.
* `Sparser d l l'` — `l'` is as long as `l` and occupied only where `l` is.
* `Cleared d l l'` — `l'` is `l` with some entries freed.
* `FreeFirst d l` — the free entries of `l` come before the occupied ones.

## Main results

* `occupancy_le_card` — **the bound**: there are at most as many occupied entries as
  positions they can have.
-/

namespace KVarN.Lib

open List

variable {α : Type*} {d : α}

/-- Entries behind a table padded with placeholders are not occupied. -/
theorem getD_append_replicate {l : List α} {n i : ℕ}
    (h : (l ++ replicate n d).getD i d ≠ d) : i < l.length ∧ l.getD i d ≠ d := by
  by_cases hlt : i < l.length
  · rw [getD_append _ _ _ _ hlt] at h
    exact ⟨hlt, h⟩
  · rw [getD_append_right _ _ _ _ (by omega), getD_eq_getElem?_getD, getElem?_replicate] at h
    split at h <;> exact absurd rfl h

section Occupancy

variable [DecidableEq α]

/-- The number of entries that are not the placeholder. -/
def occupancy (d : α) (l : List α) : ℕ := l.countP (· ≠ d)

@[simp] theorem occupancy_nil : occupancy d [] = 0 := rfl

/-- **Occupied entries are counted by their positions.** -/
theorem occupancy_le_card {l : List α} (S : Finset ℕ) (h : ∀ i, l.getD i d ≠ d → i ∈ S) :
    occupancy d l ≤ S.card := by
  induction l using reverseRecOn generalizing S with
  | nil => simp
  | append_singleton l a ih =>
    have hinit : ∀ i, l.getD i d ≠ d → i ∈ S ∧ i ≠ l.length := by
      intro i hi
      have hlt : i < l.length := by
        by_contra hge
        exact hi (getD_eq_default _ _ (by omega))
      refine ⟨h i ?_, by omega⟩
      rwa [getD_append _ _ _ _ hlt]
    rw [occupancy, countP_append]
    by_cases ha : a = d
    · subst ha
      simpa [occupancy] using ih S fun i hi => (hinit i hi).1
    · have hlast : l.length ∈ S := by
        apply h
        rw [getD_append_right _ _ _ _ le_rfl]
        simpa using ha
      have hrest := ih (S.erase l.length) fun i hi =>
        Finset.mem_erase.2 ⟨(hinit i hi).2, (hinit i hi).1⟩
      have hcard := Finset.card_erase_add_one hlast
      have hone : [a].countP (· ≠ d) = 1 := by simp [ha]
      rw [occupancy] at hrest
      omega

/-- The occupied entries of a table lie in an interval. -/
theorem occupancy_le_of_interval {l : List α} {first : ℕ}
    (h : ∀ i, l.getD i d ≠ d → first ≤ i) : occupancy d l ≤ l.length - first := by
  have hbound := occupancy_le_card (Finset.Ico first l.length) fun i hi => by
    refine Finset.mem_Ico.2 ⟨h i hi, ?_⟩
    by_contra hge
    exact hi (getD_eq_default _ _ (by omega))
  rwa [Nat.card_Ico] at hbound

end Occupancy

/-- `l'` is as long as `l` and occupied only where `l` is. -/
structure Sparser (d : α) (l l' : List α) : Prop where
  length_eq : l'.length = l.length
  getD_ne : ∀ i, l'.getD i d ≠ d → l.getD i d ≠ d

namespace Sparser

variable {l l' l'' : List α}

theorem refl (l : List α) : Sparser d l l := ⟨rfl, fun _ h => h⟩

/-- Writing an occupied entry. -/
theorem set_of_ne (l : List α) {i : ℕ} (a : α) (hi : l.getD i d ≠ d) : Sparser d l (l.set i a) := by
  refine ⟨length_set, fun j hj => ?_⟩
  by_cases hij : i = j
  · exact hij ▸ hi
  · simpa only [getD_eq_getElem?_getD, getElem?_set_ne hij] using hj

theorem eq_nil (h : Sparser d [] l') : l' = [] :=
  eq_nil_of_length_eq_zero h.length_eq

end Sparser

/-- `l'` is `l` with some entries freed. -/
def Cleared (d : α) (l l' : List α) : Prop := List.Forall₂ (fun a a' => a' = a ∨ a' = d) l l'

namespace Cleared

variable {l l' l'' : List α}

theorem refl (l : List α) : Cleared d l l := forall₂_same.2 fun _ _ => Or.inl rfl

theorem trans (h : Cleared d l l') (h' : Cleared d l' l'') : Cleared d l l'' := by
  induction h generalizing l'' with
  | nil => exact h'
  | cons hab _ ih =>
    cases h' with
    | cons hbc hrest =>
      refine .cons ?_ (ih hrest)
      rcases hbc with rfl | rfl
      · exact hab
      · exact Or.inr rfl

/-- Clearing an entry. -/
theorem set (l : List α) (i : ℕ) : Cleared d l (l.set i d) := by
  induction l generalizing i with
  | nil => exact .nil
  | cons a l ih =>
    cases i with
    | zero => exact .cons (Or.inr rfl) (refl l)
    | succ i => exact .cons (Or.inl rfl) (ih i)

/-- An entry that is not free has not changed. -/
theorem getElem? (h : Cleared d l l') {i : ℕ} {a : α} (ha : l'[i]? = some a) (hne : a ≠ d) :
    l[i]? = some a := by
  induction h generalizing i with
  | nil => exact ha
  | cons hab _ ih =>
    cases i with
    | zero =>
      simp only [getElem?_cons_zero, Option.some.injEq] at ha ⊢
      subst ha
      exact (hab.resolve_right hne).symm
    | succ i => exact ih ha

theorem sparser (h : Cleared d l l') : Sparser d l l' := by
  refine ⟨h.length_eq.symm, fun i hi => ?_⟩
  rw [getD_eq_getElem?_getD] at hi ⊢
  cases hget : l'[i]? with
  | none => simp [hget] at hi
  | some a =>
    have ha : a ≠ d := by simpa [hget] using hi
    rw [h.getElem? hget ha]
    exact ha

end Cleared

/-! ## Tables whose free entries come first -/

/-- The free entries of the table come before the occupied ones. -/
def FreeFirst (d : α) (l : List α) : Prop :=
  ∀ i j, i ≤ j → j < l.length → l.getD j d = d → l.getD i d = d

instance [DecidableEq α] (d : α) (l : List α) : Decidable (FreeFirst d l) :=
  decidable_of_iff (∀ j < l.length, l.getD j d = d → ∀ i < j + 1, l.getD i d = d)
    ⟨fun h i j hij hj hd => h j hj hd i (by omega), fun h j hj hd i hi => h i j (by omega) hj hd⟩

namespace FreeFirst

variable {l l' bs : List α}

theorem nil : FreeFirst d ([] : List α) := fun _ _ _ hj => absurd hj (Nat.not_lt_zero _)

section

variable (h : FreeFirst d l)

include h

/-- Only which entries are free matters. -/
theorem congr (hlen : l'.length = l.length)
    (hfree : ∀ i, l'.getD i d = d ↔ l.getD i d = d) : FreeFirst d l' := by
  intro i j hij hj hd
  rw [hfree] at hd ⊢
  exact h i j hij (hlen ▸ hj) hd

/-- Occupied entries can be appended. -/
theorem append (hbs : ∀ a ∈ bs, a ≠ d) : FreeFirst d (l ++ bs) := by
  intro i j hij hj hd
  have hlt : j < l.length := by
    by_contra hge
    rw [getD_append_right _ _ _ _ (by omega), getD_eq_getElem _ _ (by
      rw [length_append] at hj
      omega)] at hd
    exact hbs _ (getElem_mem _) hd
  rw [getD_append _ _ _ _ hlt] at hd
  rw [getD_append _ _ _ _ (by omega)]
  exact h i j hij hlt hd

/-- Free entries can be put in front. -/
theorem replicate_append (n : ℕ) : FreeFirst d (replicate n d ++ l) := by
  intro i j hij hj hd
  by_cases hi : i < n
  · rw [getD_append _ _ _ _ (by simpa using hi), getD_replicate _ hi]
  · rw [getD_append_right _ _ _ _ (by simpa using hi)]
    rw [getD_append_right _ _ _ _ (by simp; omega)] at hd
    rw [length_append, length_replicate] at hj
    rw [length_replicate] at hd ⊢
    exact h _ _ (by omega) (by omega) hd

theorem drop (n : ℕ) : FreeFirst d (l.drop n) := by
  intro i j hij hj hd
  rw [length_drop] at hj
  rw [getD_eq_getElem?_getD, getElem?_drop, ← getD_eq_getElem?_getD] at hd ⊢
  exact h _ _ (by omega) (by omega) hd

/-- The entries below a position can be cleared. -/
theorem clear_below {n : ℕ} (hlen : l'.length = l.length)
    (hclear : ∀ i, l'.getD i d = if i < n then d else l.getD i d) : FreeFirst d l' := by
  intro i j hij hj hd
  rw [hclear] at hd ⊢
  split
  · rfl
  next hi =>
    rw [if_neg (by omega)] at hd
    exact h i j hij (hlen ▸ hj) hd

end

end FreeFirst

end KVarN.Lib
