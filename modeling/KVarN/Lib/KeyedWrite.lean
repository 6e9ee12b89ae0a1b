import Mathlib.Data.List.GetD
import Mathlib.Data.List.Induction
import Mathlib.Logic.Function.Basic
import Mathlib.Tactic.Common

/-!
# Writes to keyed memory

A memory maps keys to values; a write changes the value at one key. When a later write to a
key covers the earlier ones, a sequence of writes leaves at each key what the last one to it
writes.

A value may itself be a row of cells, of which a write replaces a slice.

## Main definitions

* `writeAll` — a sequence of writes; `lastAt` — the last one to a key.
* `writeSlice` — cells from an offset on.

## Main results

* `writeAll_apply` — what a sequence leaves.
* `writeSlice_append` — adjacent slices are one slice.
-/

namespace KVarN.Lib

open List

section Keyed

variable {κ β ω : Type*} [DecidableEq κ] (key : ω → κ) (upd : ω → β → β)

def writeOne (mem : κ → β) (w : ω) : κ → β :=
  Function.update mem (key w) (upd w (mem (key w)))

def writeAll (ops : List ω) (mem : κ → β) : κ → β := ops.foldl (writeOne key upd) mem

/-- A write covers what another one to the same key has written. -/
def Covering (ops : List ω) : Prop :=
  ∀ w ∈ ops, ∀ w' ∈ ops, key w = key w' → ∀ x, upd w (upd w' x) = upd w x

/-- The last write to a key. -/
def lastAt (ops : List ω) (k : κ) : Option ω := (ops.filter (key · = k)).getLast?

variable {key upd} {ops : List ω} {k : κ}

theorem lastAt_concat (w : ω) :
    lastAt key (ops ++ [w]) k = if key w = k then some w else lastAt key ops k := by
  by_cases h : key w = k <;> simp [lastAt, h]

theorem mem_of_lastAt {w : ω} (h : lastAt key ops k = some w) : w ∈ ops ∧ key w = k := by
  simpa using mem_of_getLast? h

variable (key) in
theorem exists_lastAt {w : ω} (hw : w ∈ ops) : ∃ w', lastAt key ops (key w) = some w' := by
  refine Option.ne_none_iff_exists'.1 fun hnone => ?_
  have hmem : w ∈ ops.filter (key · = key w) := by simpa using hw
  rw [getLast?_eq_none_iff.1 hnone] at hmem
  simp at hmem

/-- **A key holds what its last write makes of the old value.** -/
theorem writeAll_apply (h : Covering key upd ops) (mem : κ → β) (k : κ) :
    writeAll key upd ops mem k = (lastAt key ops k).elim (mem k) (upd · (mem k)) := by
  induction ops using reverseRecOn with
  | nil => rfl
  | append_singleton ops w ih =>
    have hcover := fun w' (hw' : w' ∈ ops) => h w (by simp) w' (mem_append_left _ hw')
    have ih := ih fun w' hw' w'' hw'' => h w' (mem_append_left _ hw') w'' (mem_append_left _ hw'')
    rw [writeAll, foldl_append, foldl_cons, foldl_nil, ← writeAll, writeOne, lastAt_concat]
    by_cases hk : key w = k
    · subst hk
      rw [Function.update_self, if_pos rfl, ih]
      cases hlast : lastAt key ops (key w) with
      | none => rfl
      | some w' =>
        obtain ⟨hw', hkey⟩ := mem_of_lastAt hlast
        exact hcover w' hw' hkey.symm _
    · rw [Function.update_of_ne (Ne.symm hk), if_neg hk, ih]

end Keyed

section Slice

variable {β : Type*}

/-- `row[offset : offset + len(cells)] = cells`. -/
def writeSlice (row : ℕ → β) (offset : ℕ) (cells : List β) (i : ℕ) : β :=
  if offset ≤ i then cells[i - offset]?.getD (row i) else row i

theorem writeSlice_append (row : ℕ → β) (offset : ℕ) (cells cells' : List β) :
    writeSlice (writeSlice row offset cells) (offset + cells.length) cells' =
      writeSlice row offset (cells ++ cells') := by
  funext i
  simp only [writeSlice]
  by_cases hi : offset ≤ i
  · rw [if_pos hi, if_pos hi]
    by_cases hlen : i - offset < cells.length
    · rw [if_neg (by omega), getElem?_append_left hlen]
    · rw [if_pos (by omega), getElem?_append_right (by omega), Nat.sub_add_eq,
        getElem?_eq_none (l := cells) (by omega), Option.getD_none]
  · rw [if_neg hi, if_neg hi, if_neg (by omega)]

variable {row : ℕ → β} {cells : List β} {i n : ℕ} {x : β}

theorem writeSlice_of_length_le {offset : ℕ}
    (h : offset + cells.length ≤ i) : writeSlice row offset cells i = row i := by
  rw [writeSlice]
  split
  · rw [getElem?_eq_none (by omega), Option.getD_none]
  · rfl

/-- A slice covers a shorter one. -/
theorem writeSlice_cover {cells' : List β} (h : cells'.length ≤ cells.length) :
    writeSlice (writeSlice row 0 cells') 0 cells = writeSlice row 0 cells := by
  funext i
  simp only [writeSlice, Nat.zero_le, if_true]
  cases hi : cells[i - 0]? with
  | some x => rfl
  | none =>
    rw [getElem?_eq_none (Nat.le_trans h (getElem?_eq_none_iff.1 hi))]
    rfl

/-- The padding of a slice. -/
theorem writeSlice_padding (hi : cells.length ≤ i) (hin : i < cells.length + n) :
    writeSlice row 0 (cells ++ replicate n x) i = x := by
  rw [← writeSlice_append, Nat.zero_add, writeSlice, if_pos hi,
    getElem?_replicate_of_lt (by omega), Option.getD_some]

/-- Padding cells with a value that is there already changes nothing. -/
theorem writeSlice_append_replicate (h : ∀ i, cells.length ≤ i → i < cells.length + n → row i = x) :
    writeSlice row 0 (cells ++ replicate n x) = writeSlice row 0 cells := by
  funext i
  by_cases hi : cells.length ≤ i
  · rw [writeSlice_of_length_le (show 0 + cells.length ≤ i by omega)]
    by_cases hin : i < cells.length + n
    · rw [writeSlice_padding hi hin, h i hi hin]
    · rw [writeSlice_of_length_le (by simp; omega)]
  · rw [← writeSlice_append, Nat.zero_add, writeSlice, if_neg hi]

end Slice

end KVarN.Lib
