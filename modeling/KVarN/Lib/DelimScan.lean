import Mathlib.Data.List.Infix

/-!
# Texts with alternating delimiters

A text is read from left to right in one of two states. Each state waits for its own delimiter,
which is dropped and switches to the other state; every other character is read in the state it is
met in. A reader that gets the text in pieces must not cut a delimiter: it holds the end of a piece
back while that end may still become one.

## Main definitions

* `findAt` — the first occurrence of a pattern.
* `scan`, `scanEnd` — the characters with the states they are read in, and the last state.
* `Whole` — no delimiter lies across a cut.
* `Separated` — no delimiter ends with the beginning of a delimiter.

## Main results

* `scan_append` — a text can be read in pieces if no delimiter lies across the cut.
* `Separated.whole` — holding back the longest possible beginning of a delimiter cuts none.
-/

namespace KVarN.Lib

open List

universe u

variable {α : Type u} [DecidableEq α]

/-- The position of the first occurrence of a pattern. -/
def findAt (p : List α) : List α → Option ℕ
  | [] => if p = [] then some 0 else none
  | c :: cs => if p <+: c :: cs then some 0 else (findAt p cs).map (· + 1)

section Scan

variable (delim : Bool → List α)

/-- The characters that are read, with their states; the first `k` are the rest of a delimiter. -/
def scan : Bool → ℕ → List α → List (Bool × α)
  | _, _, [] => []
  | s, k + 1, _ :: cs => scan s k cs
  | s, 0, c :: cs =>
    if delim s <+: c :: cs then scan (!s) ((delim s).length - 1) cs else (s, c) :: scan s 0 cs

/-- The state at the end of the text. -/
def scanEnd : Bool → ℕ → List α → Bool
  | s, _, [] => s
  | s, k + 1, _ :: cs => scanEnd s k cs
  | s, 0, c :: cs =>
    if delim s <+: c :: cs then scanEnd (!s) ((delim s).length - 1) cs else scanEnd s 0 cs

/-- No delimiter starts in `u` and ends in `v`. -/
def Whole (u v : List α) : Prop :=
  ∀ s, ∀ w, w ≠ [] → w <:+ u → delim s <+: w ++ v → delim s <+: w

variable {delim} {s : Bool} {k i : ℕ} {xs u v : List α}

/-- The rest of a delimiter is dropped. -/
theorem scan_skip (h : k ≤ xs.length) : scan delim s k xs = scan delim s 0 (xs.drop k) ∧
    scanEnd delim s k xs = scanEnd delim s 0 (xs.drop k) := by
  induction xs generalizing k with
  | nil => simp_all [scan, scanEnd]
  | cons c cs ih =>
    cases k with
    | zero => exact ⟨rfl, rfl⟩
    | succ k => simpa [scan, scanEnd] using ih (Nat.le_of_succ_le_succ h)

/-- A text without the awaited delimiter is read in one state. -/
theorem scan_of_findAt_none (h : findAt (delim s) xs = none) :
    scan delim s 0 xs = xs.map (s, ·) ∧ scanEnd delim s 0 xs = s := by
  induction xs with
  | nil => exact ⟨rfl, rfl⟩
  | cons c cs ih =>
    rw [findAt] at h
    split_ifs at h with hp
    obtain ⟨hscan, hend⟩ := ih (Option.map_eq_none_iff.1 h)
    exact ⟨by simp [scan, hp, hscan], by simp [scanEnd, hp, hend]⟩

/-- The text up to the awaited delimiter is read in one state, the rest in the other. -/
theorem scan_of_findAt (hne : delim s ≠ []) (h : findAt (delim s) xs = some i) :
    i + (delim s).length ≤ xs.length ∧ scan delim s 0 xs
      = (xs.take i).map (s, ·) ++ scan delim (!s) 0 (xs.drop (i + (delim s).length)) ∧
    scanEnd delim s 0 xs = scanEnd delim (!s) 0 (xs.drop (i + (delim s).length)) := by
  induction xs generalizing i with
  | nil => simp [findAt, hne] at h
  | cons c cs ih =>
    obtain ⟨n, hn⟩ : ∃ n, (delim s).length = n + 1 :=
      Nat.exists_eq_succ_of_ne_zero fun h0 => hne (length_eq_zero_iff.1 h0)
    rw [findAt] at h
    split_ifs at h with hp
    · cases h
      have hlen := hp.length_le
      rw [hn, length_cons] at hlen
      have hle : n ≤ cs.length := by omega
      refine ⟨by simp [hn, hle], ?_, ?_⟩
      · simp [scan, hp, hn, (scan_skip hle).1]
      · simp [scanEnd, hp, hn, (scan_skip hle).2]
    · obtain ⟨j, hj, rfl⟩ := Option.map_eq_some_iff.1 h
      obtain ⟨hle, hscan, hend⟩ := ih hj
      have hdrop : (c :: cs).drop (j + 1 + (delim s).length) = cs.drop (j + (delim s).length) := by
        rw [Nat.add_right_comm, drop_succ_cons]
      refine ⟨by rw [length_cons]; omega, ?_, ?_⟩
      · simp [scan, hp, hscan, hdrop]
      · simp [scanEnd, hp, hend, hdrop]

/-- **A text can be read in pieces** if no delimiter lies across the cut. -/
theorem scan_append (h : Whole delim u v) (hk : k ≤ u.length) :
    scan delim s k (u ++ v) = scan delim s k u ++ scan delim (scanEnd delim s k u) 0 v ∧
    scanEnd delim s k (u ++ v) = scanEnd delim (scanEnd delim s k u) 0 v := by
  induction u generalizing s k with
  | nil =>
    obtain rfl : k = 0 := Nat.le_zero.1 hk
    simp [scan, scanEnd]
  | cons c u ih =>
    have hwhole : Whole delim u v := fun s w hw hsuf =>
      h s w hw (hsuf.trans (suffix_cons c u))
    cases k with
    | succ k => simpa [scan, scanEnd] using ih hwhole (Nat.le_of_succ_le_succ hk)
    | zero =>
      -- the delimiter is met at this position in the piece iff it is in the whole text
      have hiff : delim s <+: c :: (u ++ v) ↔ delim s <+: c :: u :=
        ⟨h s (c :: u) (by simp) (suffix_refl _), fun hp => hp.trans (prefix_append (c :: u) v)⟩
      by_cases hp : delim s <+: c :: u
      · have hlen := hp.length_le
        rw [length_cons] at hlen
        have := ih (s := !s) (k := (delim s).length - 1) hwhole (by omega)
        simpa [scan, scanEnd, hiff, hp] using this
      · obtain ⟨hscan, hend⟩ := ih (s := s) hwhole (Nat.zero_le _)
        simp [scan, scanEnd, hiff, hp, hscan, hend]

end Scan

/-! ## Holding back -/

/-- The text is a proper beginning of a delimiter. -/
def Begins (delim : Bool → List α) (xs : List α) : Prop := ∃ s, xs <+: delim s ∧ xs ≠ delim s

instance (delim : Bool → List α) (xs : List α) : Decidable (Begins delim xs) :=
  decidable_of_iff ((xs <+: delim false ∧ xs ≠ delim false) ∨ (xs <+: delim true ∧ xs ≠ delim true))
    (by rw [Begins, Bool.exists_bool])

/-- No proper end of a delimiter is a proper beginning of a delimiter. -/
def Separated (delim : Bool → List α) : Prop :=
  ∀ s, ∀ u v, delim s = u ++ v → u ≠ [] → v ≠ [] → ¬ Begins delim v

omit [DecidableEq α] in
theorem separated_of_drop {delim : Bool → List α}
    (h : ∀ s, ∀ i < (delim s).length, 0 < i → ¬ Begins delim ((delim s).drop i)) :
    Separated delim := by
  intro s u v huv hu hv
  have hlen : (delim s).length = u.length + v.length := by rw [huv, length_append]
  have hvpos := length_pos_iff.2 hv
  have := h s u.length (by omega) (length_pos_iff.2 hu)
  rwa [huv, drop_left] at this

omit [DecidableEq α] in
/-- **Holding back the longest beginning of a delimiter** cuts no delimiter, whatever follows. -/
theorem Separated.whole {delim : Bool → List α} (hsep : Separated delim) {u p : List α}
    (hp : p = [] ∨ Begins delim p)
    (hmax : ∀ w, w ≠ [] → w <:+ u → ¬ Begins delim (w ++ p)) (f : List α) :
    Whole delim u (p ++ f) := by
  intro s w hw hsuf hpre
  rcases Nat.lt_or_ge w.length (delim s).length with hlt | hle
  swap
  · exact prefix_of_prefix_length_le hpre (prefix_append _ _) hle
  exfalso
  obtain ⟨q, hq⟩ := prefix_of_prefix_length_le (prefix_append w (p ++ f)) hpre hlt.le
  have hqne : q ≠ [] := by
    rintro rfl
    rw [append_nil] at hq
    exact absurd hlt (by rw [hq]; exact lt_irrefl _)
  have hqpre : q <+: p ++ f := by
    rw [← hq] at hpre
    exact (prefix_append_right_inj w).1 hpre
  rcases Nat.lt_or_ge p.length q.length with hlt | hle
  swap
  · -- the delimiter ends in the text held back
    have hqp : q <+: p := prefix_of_prefix_length_le hqpre (prefix_append _ _) hle
    rcases hp with rfl | ⟨s', hp, hne⟩
    · exact hqne (prefix_nil.1 hqp)
    · refine hsep s w q hq.symm hw hqne ⟨s', hqp.trans hp, fun he => hne ?_⟩
      exact (hp.eq_of_length_le (he ▸ hqp.length_le))
  · -- the delimiter ends after it: more should have been held back
    have hpq : p <+: q := prefix_of_prefix_length_le (prefix_append _ _) hqpre hlt.le
    refine hmax w hw hsuf ⟨s, ?_, fun he => ?_⟩
    · rw [← hq]
      exact (prefix_append_right_inj w).2 hpq
    · rw [← hq] at he
      rw [append_cancel_left he] at hlt
      exact lt_irrefl _ hlt

end KVarN.Lib
