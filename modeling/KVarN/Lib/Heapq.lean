import Mathlib.Data.List.Induction

/-!
# Binary heaps on lists

The heap algorithms of Python's `heapq` on a list, for an arbitrary comparison.
The comparison may change between two operations — the entries of a heap can be
mutable objects — so what holds without assumptions is that every operation
permutes the entries: nothing is lost and nothing is duplicated.

## Main definitions

* `Heapq.push`, `Heapq.pop`, `Heapq.heapify` — `heappush`, `heappop`, `heapify`.
* `Heapq.drain` — the entries in the order repeated pops return them.
-/

namespace KVarN.Lib.Heapq

variable {α : Type}

/-- Exchange two entries; a position out of range changes nothing. -/
def swap (l : List α) (i j : ℕ) : List α :=
  match l[i]?, l[j]? with
  | some a, some b => (l.set i b).set j a
  | _, _ => l

theorem swap_perm (l : List α) (i j : ℕ) : (swap l i j).Perm l := by
  rw [swap]
  split
  · next a b hi hj =>
    obtain ⟨hi', rfl⟩ := List.getElem?_eq_some_iff.1 hi
    obtain ⟨hj', rfl⟩ := List.getElem?_eq_some_iff.1 hj
    exact List.set_set_perm hi' hj'
  · exact .refl _

/-- `_siftdown`: the entry at `pos` moves towards `start` while it precedes its
parent. -/
def siftdown (lt : α → α → Bool) (start : ℕ) : ℕ → ℕ → List α → List α
  | 0, _, l => l
  | fuel + 1, pos, l =>
    if start < pos then
      match l[pos]?, l[(pos - 1) / 2]? with
      | some x, some parent =>
        if lt x parent then siftdown lt start fuel ((pos - 1) / 2) (swap l pos ((pos - 1) / 2))
        else l
      | _, _ => l
    else l

section

variable (lt : α → α → Bool)

include lt

variable (start fuel pos : ℕ) (l : List α) (x : α)

theorem siftdown_perm : (siftdown lt start fuel pos l).Perm l := by
  induction fuel generalizing pos l with
  | zero => exact .refl _
  | succ fuel ih =>
    simp only [siftdown]
    split
    · split
      · split
        · exact (ih _ _).trans (swap_perm _ _ _)
        · exact .refl _
      · exact .refl _
    · exact .refl _

/-- The child of `pos` that `_siftup` moves up: the right one unless the left one
precedes it. -/
def smallerChild (lt : α → α → Bool) (l : List α) (pos : ℕ) : ℕ :=
  match l[2 * pos + 1]?, l[2 * pos + 2]? with
  | some a, some b => if lt a b then 2 * pos + 1 else 2 * pos + 2
  | _, _ => 2 * pos + 1

/-- `_siftup`: the entry at `pos` sinks to a leaf along the smaller children, then
moves back up to its place below `start`. -/
def siftup (lt : α → α → Bool) (start : ℕ) : ℕ → ℕ → List α → List α
  | 0, pos, l => siftdown lt start l.length pos l
  | fuel + 1, pos, l =>
    if 2 * pos + 1 < l.length then
      siftup lt start fuel (smallerChild lt l pos) (swap l pos (smallerChild lt l pos))
    else siftdown lt start l.length pos l

theorem siftup_perm : (siftup lt start fuel pos l).Perm l := by
  induction fuel generalizing pos l with
  | zero => exact siftdown_perm _ _ _ _ _
  | succ fuel ih =>
    simp only [siftup]
    split
    · exact (ih _ _).trans (swap_perm _ _ _)
    · exact siftdown_perm _ _ _ _ _

/-- `heappush`. -/
def push (lt : α → α → Bool) (l : List α) (x : α) : List α :=
  siftdown lt 0 (l.length + 1) l.length (l ++ [x])

theorem push_perm : (push lt l x).Perm (x :: l) :=
  (siftdown_perm _ _ _ _ _).trans (List.perm_append_singleton _ _)

/-- `heappop`: the root and the heap without it. -/
def pop (lt : α → α → Bool) (l : List α) : Option (α × List α) :=
  match l.getLast?, l.dropLast with
  | none, _ => none
  | some last, [] => some (last, [])
  | some last, root :: rest => some (root, siftup lt 0 (rest.length + 1) 0 (last :: rest))

/-- Popping returns the root and keeps the other entries. -/
theorem pop_cons (xs : List α) : ∃ rest, pop lt (x :: xs) = some (x, rest) ∧ rest.Perm xs := by
  cases xs using List.reverseRecOn with
  | nil => exact ⟨[], rfl, .refl _⟩
  | append_singleton ys last =>
    refine ⟨siftup lt 0 (ys.length + 1) 0 (last :: ys), ?_, ?_⟩
    · rw [pop, ← List.cons_append, List.getLast?_concat, List.dropLast_concat]
    · exact (siftup_perm _ _ _ _ _).trans (List.perm_append_singleton _ _).symm

/-- The loop of `heapify` over the positions below `n`, from the last one on. -/
def heapifyLoop (lt : α → α → Bool) : ℕ → List α → List α
  | 0, l => l
  | n + 1, l => heapifyLoop lt n (siftup lt n l.length n l)

/-- `heapify`. -/
def heapify (lt : α → α → Bool) (l : List α) : List α := heapifyLoop lt (l.length / 2) l

theorem heapify_perm : (heapify lt l).Perm l := by
  rw [heapify]
  generalize l.length / 2 = n
  induction n generalizing l with
  | zero => exact .refl _
  | succ n ih => exact (ih _).trans (siftup_perm _ _ _ _ _)

/-- The entries in the order of at most `fuel` pops. -/
def drainLoop (lt : α → α → Bool) : ℕ → List α → List α
  | 0, _ => []
  | fuel + 1, l =>
    match pop lt l with
    | none => []
    | some (x, rest) => x :: drainLoop lt fuel rest

/-- All entries in the order repeated pops return them. -/
def drain (lt : α → α → Bool) (l : List α) : List α := drainLoop lt l.length l

theorem drain_perm : (drain lt l).Perm l := by
  suffices h : ∀ n (l : List α), l.length = n → (drainLoop lt n l).Perm l from h _ l rfl
  intro n
  induction n with
  | zero =>
    intro l hl
    rw [List.length_eq_zero_iff.1 hl]
    exact .refl _
  | succ n ih =>
    intro l hl
    cases l with
    | nil => cases hl
    | cons x xs =>
      obtain ⟨rest, hpop, hperm⟩ := pop_cons lt x xs
      have hlen : rest.length = n := by
        rw [hperm.length_eq]
        simpa using hl
      rw [drainLoop, hpop]
      exact ((ih rest hlen).trans hperm).cons x

end

end KVarN.Lib.Heapq
