import Mathlib.Data.List.Forall2

/-!
# Computations that may raise

A computation returns a value or raises an exception.

## Main results

* `eq_ok_getD` — the value of a computation that is known not to raise.
* `foldlM_eq_ok` — a loop whose rounds do not raise.
* `except_bind_eq_ok` — how a sequence of two computations succeeds.
* `mapM_eq_ok_iff` — a loop that collects its results.
-/

namespace KVarN.Lib

open List

universe u v

variable {ε : Type u} {α β : Type v} (a : α) {x : Except ε α} {f : α → Except ε β}

/-- The value of a computation that raises no exception. -/
theorem eq_ok_getD (d : α) (h : x.isOk = true) : x = .ok (x.toOption.getD d) := by
  cases x with
  | error e => cases h
  | ok a => rfl

/-- A loop whose rounds raise no exception. -/
theorem foldlM_eq_ok {f : β → α → Except ε β} {g : β → α → β} {l : List α}
    (h : ∀ b, ∀ a ∈ l, f b a = .ok (g b a)) (b : β) : l.foldlM f b = .ok (l.foldl g b) := by
  induction l generalizing b with
  | nil => rfl
  | cons a l ih =>
    rw [foldlM_cons, h b a mem_cons_self, foldl_cons]
    exact ih (fun b' a' ha' => h b' a' (mem_cons_of_mem a ha')) (g b a)

/-- Every round of a loop that raises no exception. -/
theorem exists_ok_of_foldlM {f : β → α → Except ε β} {l : List α} {b b' : β} {a : α}
    (h : l.foldlM f b = .ok b') (ha : a ∈ l) : ∃ c c', f c a = .ok c' := by
  induction l generalizing b with
  | nil => simp at ha
  | cons a' l ih =>
    rw [foldlM_cons] at h
    cases hround : f b a' with
    | error e => simp [hround, bind, Except.bind] at h
    | ok c =>
      rcases mem_cons.1 ha with rfl | ha
      · exact ⟨b, c, hround⟩
      · rw [hround] at h
        exact ih h ha

theorem ok_bind (f : α → Except ε β) : (Except.ok a >>= f) = f a :=
  rfl

theorem pure_eq_ok : (pure a : Except ε α) = .ok a :=
  rfl

theorem except_bind_eq_ok {b : β} : (x >>= f) = .ok b ↔ ∃ a, x = .ok a ∧ f a = .ok b := by
  cases x with
  | error e => simp [bind, Except.bind]
  | ok a => simp [bind, Except.bind]

/-- What holds after a computation that returns. -/
instance decidableForallOk {ε : Type u} {α : Type v} (x : Except ε α) (P : α → Prop)
    [DecidablePred P] : Decidable (∀ a, x = .ok a → P a) :=
  match x with
  | .ok a => decidable_of_iff (P a) ⟨fun h _ e => Except.ok.inj e ▸ h, fun h => h a rfl⟩
  | .error _ => isTrue nofun

/-- A loop that collects results raises nothing when no round does. -/
theorem mapM_eq_ok_iff {l : List α} {bs : List β} : l.mapM f = .ok bs ↔ List.Forall₂
    (fun a b => f a = .ok b) l bs := by
  induction l generalizing bs with
  | nil =>
    rw [mapM_nil, forall₂_nil_left_iff]
    exact ⟨fun h => (Except.ok.inj h).symm, fun h => h ▸ rfl⟩
  | cons a l ih =>
    rw [mapM_cons, except_bind_eq_ok, forall₂_cons_left_iff]
    constructor
    · rintro ⟨b, hb, h⟩
      obtain ⟨bs', hbs', h⟩ := except_bind_eq_ok.1 h
      exact ⟨b, bs', hb, ih.1 hbs', (Except.ok.inj h).symm⟩
    · rintro ⟨b, bs', hb, hbs', rfl⟩
      exact ⟨b, hb, except_bind_eq_ok.2 ⟨bs', ih.2 hbs', rfl⟩⟩

theorem mapM_eq_ok_map {g : α → β} {l : List α} (h : ∀ a ∈ l, f a = .ok (g a)) : l.mapM f = .ok
    (l.map g) :=
  mapM_eq_ok_iff.2 (forall₂_map_right_iff.2 (forall₂_same.2 h))

end KVarN.Lib
