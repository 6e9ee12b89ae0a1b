import Mathlib.Algebra.BigOperators.Group.List.Basic
import Mathlib.Data.List.Intervals
import Mathlib.Tactic.Ring

/-!
# Tiled loops

A kernel walks an interval of positions in tiles, a tile in chunks and the tiles in
splits. Each of these loops visits consecutive intervals, so that together they visit one
interval, in order and without repetition. Positions are kept by a mask; a mask on the
positions of a tile is a filter on the interval.

## Main results

* `flatMap_Ico_mul` — consecutive tiles make an interval.
* `flatMap_range_clipped` — so do consecutive pieces that are cut off at an end.
* `filter_Ico_between` — a mask that keeps an interval.
* `flatMap_drop_take`, `getElem?_flatMap_range`, `take_drop_flatMap` — lists cut in pieces.
* `eq_one_of_sum_le_length` — a loop of one step a round.
-/

namespace KVarN.Lib.TiledLoop

open List Nat

/-- Tiles of `size` positions, from tile `a` to tile `b`. -/
theorem flatMap_Ico_mul (size a b : ℕ) :
    ((List.Ico a b).flatMap fun k => List.Ico (k * size) (k * size + size)) =
      List.Ico (a * size) (b * size) := by
  rcases le_total b a with hba | hab
  · rw [List.Ico.eq_nil_of_le hba, List.Ico.eq_nil_of_le (mul_le_mul_right size hba)]
    rfl
  induction b, hab using le_induction with
  | base => simp
  | succ b hab ih =>
    rw [List.Ico.succ_top hab, flatMap_append, ih]
    simp only [flatMap_cons, flatMap_nil, append_nil]
    rw [← succ_mul]
    exact List.Ico.append_consecutive (mul_le_mul_right size hab)
      (mul_le_mul_right size (le_succ b))

/-- Chunks that divide a tile make the tile. -/
theorem flatMap_chunks {size chunk : ℕ} (h : chunk ∣ size) :
    ((List.Ico 0 (size / chunk)).flatMap fun c =>
      List.Ico (c * chunk) (c * chunk + chunk)) = List.Ico 0 size := by
  rw [flatMap_Ico_mul, Nat.div_mul_cancel h, Nat.zero_mul]

/-- Pieces of `size` positions that are cut off at `n`. -/
theorem flatMap_range_clipped (size n pieces : ℕ) :
    ((range pieces).flatMap fun s => List.Ico (s * size) (min (s * size + size) n)) =
      List.Ico 0 (min (pieces * size) n) := by
  induction pieces with
  | zero => simp
  | succ pieces ih =>
    rw [range_succ, flatMap_append, ih]
    simp only [flatMap_cons, flatMap_nil, append_nil]
    rw [← succ_mul]
    rcases le_total n (pieces * size) with hn | hn
    · have hn' : n ≤ (pieces + 1) * size :=
        hn.trans (mul_le_mul_right size (le_succ pieces))
      rw [min_eq_right hn, min_eq_right hn', List.Ico.eq_nil_of_le hn, append_nil]
    · rw [min_eq_left hn]
      exact List.Ico.append_consecutive (zero_le _)
        (le_min (mul_le_mul_right size (le_succ pieces)) hn)

/-- Enough pieces reach the end. -/
theorem le_mul_ceilDiv {n pieces : ℕ} (h : 0 < pieces) :
    n ≤ pieces * ((n + pieces - 1) / pieces) := by
  have hdiv := div_add_mod (n + pieces - 1) pieces
  have hmod := mod_lt (n + pieces - 1) h
  omega

/-- Splitting `n` tiles evenly covers each of them once. -/
theorem flatMap_splits (n : ℕ) {pieces : ℕ} (h : 0 < pieces) : ((range pieces).flatMap fun s =>
      List.Ico (s * ((n + pieces - 1) / pieces))
        (min (s * ((n + pieces - 1) / pieces) + (n + pieces - 1) / pieces) n)) = List.Ico 0 n := by
  rw [flatMap_range_clipped, min_eq_right (le_mul_ceilDiv h)]

/-- A mask that keeps an interval. -/
theorem filter_Ico_between (a b lo hi : ℕ) :
    (List.Ico a b).filter (fun x => decide (lo ≤ x ∧ x < hi)) = List.Ico (max a lo) (min b hi) := by
  have hand : (fun x => decide (lo ≤ x ∧ x < hi)) =
      fun x => decide (lo ≤ x) && decide (x < hi) := by
    funext x
    exact Bool.decide_and _ _
  rw [hand, ← filter_filter, List.Ico.filter_lt, List.Ico.filter_le]

/-! ## Lists cut in pieces -/

/-- Pieces of `size` elements, cut from a list in order. -/
theorem flatMap_drop_take {α : Type*} (size pieces : ℕ) (l : List α) :
    ((range pieces).flatMap fun i => (l.drop (i * size)).take size) = l.take (pieces * size) := by
  induction pieces with
  | zero => simp
  | succ pieces ih =>
    rw [range_succ, flatMap_append, ih, flatMap_cons, flatMap_nil, append_nil, ← take_add, succ_mul]

/-- The entry for `x`, `j` in a list of `q` entries for each element. -/
theorem getElem?_flatMap_range {α β : Type*} {q b j : ℕ} (l : List β) (f : β → ℕ → α) (hj : j < q) :
    (l.flatMap fun x => (range q).map (f x))[b * q + j]? = l[b]?.map (f · j) := by
  induction l generalizing b with
  | nil => simp
  | cons x l ih =>
    rw [flatMap_cons]
    cases b with
    | zero =>
      rw [zero_mul, zero_add, getElem?_append_left (by simpa using hj)]
      simp [hj]
    | succ b =>
      have hidx : (b + 1) * q + j = q + (b * q + j) := by ring
      rw [hidx, getElem?_append_right (by simp)]
      simpa using ih

/-- Lists of one length, put together and cut again. -/
theorem take_drop_flatMap {α β : Type*} {l : List β} {f : β → List α} {n i : ℕ} {x : β}
    (hlen : ∀ y, (f y).length = n) (hget : l[i]? = some x) :
    ((l.flatMap f).drop (i * n)).take n = f x := by
  induction l generalizing i with
  | nil => simp at hget
  | cons y l ih =>
    rw [flatMap_cons]
    cases i with
    | zero =>
      obtain rfl : y = x := by simpa using hget
      rw [zero_mul, drop_zero, take_left' (hlen y)]
    | succ i =>
      rw [succ_mul, Nat.add_comm, ← drop_drop, drop_left' (hlen y)]
      exact ih (by simpa using hget)

/-- The same, where each of the lists is made of `n` rows of `m` entries. -/
theorem take_drop_flatMap_mul {α β : Type*} {l : List β} {f : β → List α} {n m i j : ℕ} {x : β}
    (hlen : ∀ y, (f y).length = n * m) (hget : l[i]? = some x) (hj : j < n) :
    ((l.flatMap f).drop ((i * n + j) * m)).take m = ((f x).drop (j * m)).take m := by
  have hle : m ≤ n * m - j * m := by
    rw [← Nat.sub_mul]
    exact Nat.le_mul_of_pos_left _ (by omega)
  rw [← take_drop_flatMap hlen hget, drop_take, take_take, min_eq_left hle, drop_drop,
    Nat.add_mul, Nat.mul_assoc]

/-! ## One step each -/

/-- Positive counts that sum to no more than their number are all one. -/
theorem eq_one_of_sum_le_length {l : List ℕ} (hpos : ∀ n ∈ l, 0 < n) (h : l.sum ≤ l.length) :
    ∀ n ∈ l, n = 1 := by
  induction l with
  | nil => simp
  | cons n l ih =>
    have hn := hpos n mem_cons_self
    have hpos' := fun m hm => hpos m (mem_cons_of_mem n hm)
    have hrest := length_le_sum_of_one_le l hpos'
    rw [sum_cons, length_cons] at h
    intro m hm
    rcases mem_cons.1 hm with rfl | hm
    · omega
    · exact ih hpos' (by omega) m hm

end KVarN.Lib.TiledLoop
