import Mathlib.Data.Set.Function

/-!
# Tables whose rows are refilled and moved

A table has a value in each row; a row without an owner holds a blank. A batch of changes is
recorded as three lists: rows that were vacated, values that were put into rows, and moves,
one way or as swaps. `RowUpdate.replay` carries such a record out on any table. A row that is
vacated and then refilled, by a new value or by a move, is not listed as vacated any more: the
replay finds a stale value there and overwrites it. `RowUpdate.sync` is what a sparse table
does that stores no blanks: the move of a blank leaves the stale value where it is.

What a history of changes needs of either function is `Replays`: how the result changes when
the record gets one more entry.

## Main definitions

* `RowMove`, `RowUpdate` — moves and records of changes.
* `RowUpdate.replay` — carrying a record out: puts, then clears, then moves.
* `RowUpdate.sync` — the same for a sparse table: clears, then puts, then moves.
* `Replays` — the table after a record follows the changes one by one.

## Main results

* `RowUpdate.replays_replay`, `RowUpdate.replays_sync` — both follow the changes; the sparse
  one if no blank is moved onto a stale value.
-/

namespace KVarN.Lib

open Function List

variable {α : Type*}

/-- A row is moved onto another one and leaves a blank behind, or two rows are swapped. -/
inductive RowMove
  | oneWay (src dst : ℕ)
  | swap (i j : ℕ)
  deriving DecidableEq, Repr

namespace RowMove

def apply (blank : α) (f : ℕ → α) : RowMove → ℕ → α
  | .oneWay src dst => update (update f dst (f src)) src blank
  | .swap i j => f ∘ Equiv.swap i j

/-- The move touches neither side of the row. -/
def Avoids (k : ℕ) : RowMove → Prop
  | .oneWay src dst => src ≠ k ∧ dst ≠ k
  | .swap i j => i ≠ k ∧ j ≠ k

/-- A one-way move goes to another row. -/
def Proper : RowMove → Prop
  | .oneWay src dst => src ≠ dst
  | .swap _ _ => True

/-- A move does not carry over what is in a row that it avoids. -/
theorem eqOn_apply {blank : α} {f f' : ℕ → α} {m : RowMove} {k : ℕ} (hm : m.Avoids k)
    (h : Set.EqOn f f' {k}ᶜ) : Set.EqOn (m.apply blank f) (m.apply blank f') {k}ᶜ := by
  intro i hi
  cases m with
  | oneWay src dst =>
    simp only [apply, update_apply, h hm.1, h hi]
  | swap a b =>
    refine h fun hk => hi ?_
    rw [Set.mem_singleton_iff] at hk ⊢
    rw [← Equiv.swap_apply_self a b i, hk, Equiv.swap_apply_of_ne_of_ne hm.1.symm hm.2.symm]

end RowMove

open RowMove

/-- A record of changes. -/
structure RowUpdate (α : Type*) where
  removed : List ℕ
  added : List (ℕ × α)
  moved : List RowMove

/-- **A way to carry records out follows the changes one by one**: a row is vacated; a value is
put into a row that is not listed as vacated any more; two rows are swapped; and a row is moved
onto one that is not listed as vacated any more, where `Safe` relates the value that is moved
to the stale one. -/
structure Replays (blank : α) (Safe : α → α → Prop) (rep : RowUpdate α → (ℕ → α) → ℕ → α) :
    Prop where
  nil : ∀ f, rep ⟨[], [], []⟩ f = f
  congr : ∀ {removed removed' : List ℕ} (added moved f), (∀ i, i ∈ removed' ↔ i ∈ removed) →
    rep ⟨removed', added, moved⟩ f = rep ⟨removed, added, moved⟩ f
  clear : ∀ (removed : List ℕ) (k f),
    rep ⟨removed ++ [k], [], []⟩ f = update (rep ⟨removed, [], []⟩ f) k blank
  put : ∀ {removed removed' : List ℕ} {k : ℕ} (added x f), k ∉ removed' →
    (∀ i ≠ k, (i ∈ removed' ↔ i ∈ removed)) →
    rep ⟨removed', added ++ [(k, x)], []⟩ f = update (rep ⟨removed, added, []⟩ f) k x
  swap : ∀ removed added moved i j f, rep ⟨removed, added, moved ++ [.swap i j]⟩ f =
    rep ⟨removed, added, moved⟩ f ∘ Equiv.swap i j
  oneWay : ∀ {removed removed' : List ℕ} {added : List (ℕ × α)} {moved : List RowMove}
    {src k : ℕ} {f : ℕ → α}, src ≠ k → (∀ m ∈ moved, m.Avoids k) → (∀ p ∈ added, p.1 ≠ k) →
    k ∉ removed' → (∀ i ≠ k, (i ∈ removed' ↔ i ∈ removed)) →
    Safe (rep ⟨removed, added, moved⟩ f src) (f k) →
    rep ⟨removed', added, moved ++ [.oneWay src k]⟩ f =
      (oneWay src k).apply blank (rep ⟨removed, added, moved⟩ f)

def putAll (added : List (ℕ × α)) (f : ℕ → α) : ℕ → α :=
  added.foldl (fun f p => update f p.1 p.2) f

variable (blank : α)

def clearAll (removed : List ℕ) (f : ℕ → α) (i : ℕ) : α :=
  if i ∈ removed then blank else f i

def moveAll (moved : List RowMove) (f : ℕ → α) : ℕ → α :=
  moved.foldl (fun f m => m.apply blank f) f

@[simp] theorem putAll_nil (f : ℕ → α) : putAll [] f = f := rfl

@[simp] theorem moveAll_nil (f : ℕ → α) : moveAll blank [] f = f := rfl

@[simp] theorem putAll_concat (added : List (ℕ × α)) (k : ℕ) (x : α) (f : ℕ → α) :
    putAll (added ++ [(k, x)]) f = update (putAll added f) k x := by
  simp [putAll]

@[simp] theorem moveAll_concat (moved : List RowMove) (m : RowMove) (f : ℕ → α) :
    moveAll blank (moved ++ [m]) f = m.apply blank (moveAll blank moved f) := by
  simp [moveAll]

variable {blank} {removed removed' : List ℕ} {k : ℕ} {f f' : ℕ → α}

theorem clearAll_congr
    (h : ∀ i, i ∈ removed' ↔ i ∈ removed) : clearAll blank removed' = clearAll blank removed := by
  funext f i
  simp only [clearAll, h]

theorem clearAll_concat (blank : α) (removed : List ℕ) (k : ℕ) (f : ℕ → α) :
    clearAll blank (removed ++ [k]) f = update (clearAll blank removed f) k blank := by
  funext i
  simp only [clearAll, mem_append, mem_singleton, update_apply]
  by_cases hi : i = k <;> simp [hi]

theorem clearAll_cons (blank : α) (removed : List ℕ) (k : ℕ) (f : ℕ → α) :
    clearAll blank (k :: removed) f = clearAll blank removed (update f k blank) := by
  funext i
  simp only [clearAll, mem_cons, update_apply]
  by_cases hi : i = k <;> simp [hi]

/-- Clearing one row less changes that row only. -/
theorem eqOn_clearAll (h : ∀ i ≠ k, (i ∈ removed' ↔ i ∈ removed)) (f : ℕ → α) :
    Set.EqOn (clearAll blank removed' f) (clearAll blank removed f) {k}ᶜ := by
  intro i hi
  simp only [clearAll, h i hi]

theorem eqOn_putAll {s : Set ℕ} (added : List (ℕ × α)) (h : Set.EqOn f f' s) :
    Set.EqOn (putAll added f) (putAll added f') s := by
  induction added generalizing f f' with
  | nil => exact h
  | cons p added ih =>
    refine ih fun i hi => ?_
    simp only [update_apply, h hi]

theorem putAll_of_forall_ne {added : List (ℕ × α)} (h : ∀ p ∈ added, p.1 ≠ k)
    (f : ℕ → α) : putAll added f k = f k := by
  induction added generalizing f with
  | nil => rfl
  | cons p added ih =>
    rw [putAll, foldl_cons]
    refine (ih (fun p' hp' => h p' (mem_cons_of_mem p hp')) _).trans ?_
    exact update_of_ne (h p mem_cons_self).symm _ _

theorem eqOn_moveAll {moved : List RowMove}
    (hmoved : ∀ m ∈ moved, m.Avoids k) (h : Set.EqOn f f' {k}ᶜ) :
    Set.EqOn (moveAll blank moved f) (moveAll blank moved f') {k}ᶜ := by
  induction moved generalizing f f' with
  | nil => exact h
  | cons m moved ih =>
    exact ih (fun m' hm' => hmoved m' (mem_cons_of_mem m hm'))
      (eqOn_apply (hmoved m mem_cons_self) h)

@[simp] theorem clearAll_const (blank : α) (removed : List ℕ) :
    clearAll blank removed (fun _ => blank) = fun _ => blank := by
  funext i
  exact ite_self _

@[simp] theorem moveAll_const (blank : α) (moved : List RowMove) :
    moveAll blank moved (fun _ => blank) = fun _ => blank := by
  induction moved with
  | nil => rfl
  | cons m moved ih =>
    have hm : m.apply blank (fun _ => blank) = fun _ => blank := by
      funext i
      cases m <;> simp [apply, update_apply]
    rw [moveAll, foldl_cons, hm]
    exact ih

/-- Two tables that agree off a row agree after a move onto it. -/
theorem RowMove.apply_oneWay_congr {src : ℕ} (hsrc : src ≠ k) (h : Set.EqOn f f' {k}ᶜ) :
    (oneWay src k).apply blank f = (oneWay src k).apply blank f' := by
  funext i
  simp only [apply, update_apply]
  by_cases hi : i = k
  · simp [hi, hsrc.symm, h hsrc]
  · simp [hi, h hi]

namespace RowUpdate

/-- **Carry out a record**: puts, then clears, then moves. -/
def replay (blank : α) (u : RowUpdate α) (f : ℕ → α) : ℕ → α :=
  moveAll blank u.moved (clearAll blank u.removed (putAll u.added f))

/-- **Replaying follows the changes.** -/
theorem replays_replay (blank : α) : Replays blank (fun _ _ => True) (replay blank) where
  nil f := by
    funext i
    simp [replay, clearAll]
  congr added moved f h := by
    simp only [replay, clearAll_congr h]
  clear removed k f := clearAll_concat blank removed k f
  put {removed removed' k} added x f hk h := by
    funext i
    simp only [replay, moveAll_nil, putAll_concat, clearAll, update_apply]
    by_cases hi : i = k
    · simp [hi, hk]
    · simp [hi, h i hi]
  swap removed added moved i j f := by
    simp only [replay, moveAll_concat, apply]
  oneWay {removed removed' added moved src k f} hsrc hmoved _ _ h _ := by
    simp only [replay, moveAll_concat]
    exact apply_oneWay_congr hsrc (eqOn_moveAll hmoved (eqOn_clearAll h _))

end RowUpdate

/-! ## Sparse tables -/

/-- Carry out a move in a table that stores no blanks: the move of a blank changes nothing. -/
def RowMove.applySparse (f : ℕ → Option α) : RowMove → ℕ → Option α
  | .oneWay src dst => if f src = none then f else (oneWay src dst).apply none f
  | .swap i j => (swap i j).apply none f

theorem RowMove.eqOn_applySparse {f f' : ℕ → Option α} {m : RowMove} {k : ℕ} (hm : m.Avoids k)
    (h : Set.EqOn f f' {k}ᶜ) : Set.EqOn (m.applySparse f) (m.applySparse f') {k}ᶜ := by
  cases m with
  | oneWay src dst =>
    simp only [applySparse, h hm.1]
    split_ifs
    · exact h
    · exact eqOn_apply hm h
  | swap i j =>
    simp only [applySparse]
    exact eqOn_apply hm h

theorem RowMove.applySparse_of_avoids {f : ℕ → Option α} {m : RowMove} {k : ℕ}
    (hm : m.Avoids k) : m.applySparse f k = f k := by
  cases m with
  | oneWay src dst =>
    simp only [applySparse]
    split_ifs
    · rfl
    · simp [apply, hm.1.symm, hm.2.symm]
  | swap i j =>
    simp [applySparse, apply, Equiv.swap_apply_of_ne_of_ne hm.1.symm hm.2.symm]

namespace RowUpdate

/-- Carry out the moves of a record in a sparse table. -/
def syncMoves (moved : List RowMove) (f : ℕ → Option α) : ℕ → Option α :=
  moved.foldl applySparse f

/-- **Carry out a record in a sparse table**: clears, then puts, then moves. -/
def sync (u : RowUpdate (Option α)) (f : ℕ → Option α) : ℕ → Option α :=
  syncMoves u.moved (putAll u.added (clearAll none u.removed f))

@[simp] theorem syncMoves_concat (moved : List RowMove) (m : RowMove) (f : ℕ → Option α) :
    syncMoves (moved ++ [m]) f = m.applySparse (syncMoves moved f) := by
  simp [syncMoves]

variable {moved : List RowMove}

theorem eqOn_syncMoves {f f' : ℕ → Option α}
    (hmoved : ∀ m ∈ moved, m.Avoids k) (h : Set.EqOn f f' {k}ᶜ) :
    Set.EqOn (syncMoves moved f) (syncMoves moved f') {k}ᶜ := by
  induction moved generalizing f f' with
  | nil => exact h
  | cons m moved ih =>
    exact ih (fun m' hm' => hmoved m' (mem_cons_of_mem m hm'))
      (eqOn_applySparse (hmoved m mem_cons_self) h)

theorem syncMoves_of_avoids (hmoved : ∀ m ∈ moved, m.Avoids k)
    (f : ℕ → Option α) : syncMoves moved f k = f k := by
  induction moved generalizing f with
  | nil => rfl
  | cons m moved ih =>
    exact (ih (fun m' hm' => hmoved m' (mem_cons_of_mem m hm')) _).trans
      (applySparse_of_avoids (hmoved m mem_cons_self))

/-- **A sparse table follows the changes** if no blank is moved onto a stale value. -/
theorem replays_sync :
    Replays (none : Option α) (fun x stale => x ≠ none ∨ stale = none) sync where
  nil f := by
    funext i
    simp [sync, syncMoves, clearAll]
  congr added moved f h := by
    simp only [sync, clearAll_congr h]
  clear removed k f := clearAll_concat none removed k f
  put {removed removed' k} added x f hk h := by
    simp only [sync, syncMoves, foldl_nil, putAll_concat]
    funext i
    simp only [update_apply]
    split_ifs with hi
    · rfl
    · exact eqOn_putAll added (eqOn_clearAll h f) hi
  swap removed added moved i j f := by
    simp only [sync, syncMoves_concat, applySparse, apply]
  oneWay {removed removed' added moved src k f} hsrc hmoved hadded hk h hsafe := by
    have hoff : Set.EqOn (sync ⟨removed', added, moved⟩ f) (sync ⟨removed, added, moved⟩ f) {k}ᶜ :=
      eqOn_syncMoves hmoved (eqOn_putAll added (eqOn_clearAll h f))
    -- the row still has the value it had before the changes
    have hstale : sync ⟨removed', added, moved⟩ f k = f k := by
      rw [sync, syncMoves_of_avoids hmoved, putAll_of_forall_ne hadded]
      exact if_neg hk
    rw [← apply_oneWay_congr hsrc hoff]
    simp only [sync, syncMoves_concat, applySparse] at hoff hstale hsafe ⊢
    split_ifs with hnone
    · funext i
      simp only [apply, update_apply]
      have hblank := hsafe.resolve_left (not_not.2 ((hoff hsrc).symm.trans hnone))
      by_cases hi : i = src
      · rw [if_pos hi, hi, hnone]
      · rw [if_neg hi]
        split_ifs with hik
        · rw [hik, hstale, hblank, hnone]
        · rfl
    · rfl

end RowUpdate

end KVarN.Lib
