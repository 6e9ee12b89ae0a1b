import Mathlib.Algebra.GroupWithZero.Nat
import Mathlib.Data.List.Nodup

/-!
# Insertion-ordered dictionaries

A `Dict α β` is a Python `dict`: a finite map that remembers the order in which
its keys were first inserted. Overwriting a key keeps its place, deleting it
forgets the place, and iteration follows the order. Distinctness of the keys is
a field, so a dictionary with two entries for one key cannot be built.

## Main definitions

* `Dict.get?`, `Dict.set`, `Dict.pop` — lookup, assignment and deletion.
* `Dict.keys`, `Dict.values` — the iteration orders.
* `Dict.moveToEnd`, `Dict.popFirst` — the operations of an `OrderedDict`.
-/

namespace KVarN.Lib

open List

universe u v

/-- A finite map with its insertion order. -/
structure Dict (α : Type u) (β : Type v) where
  entries : List (α × β)
  nodup : (entries.map Prod.fst).Nodup

namespace Dict

variable {α : Type u} {β : Type v}

/-- The dictionary `{}`. -/
def empty : Dict α β := ⟨[], nodup_nil⟩

variable (d : Dict α β)

def keys : List α := d.entries.map Prod.fst

def values : List β := d.entries.map Prod.snd

instance : Membership α (Dict α β) := ⟨fun d k => k ∈ d.keys⟩

theorem mem_def {d : Dict α β} {k : α} : k ∈ d ↔ k ∈ d.keys := Iff.rfl

theorem nodup_keys : d.keys.Nodup := d.nodup

@[simp] theorem values_empty : (empty : Dict α β).values = [] := rfl
@[simp] theorem notMem_empty (k : α) : k ∉ (empty : Dict α β) := not_mem_nil

theorem length_values : d.values.length = d.keys.length := by
  simp [values, keys]

variable [DecidableEq α]

instance (k : α) (d : Dict α β) : Decidable (k ∈ d) :=
  inferInstanceAs (Decidable (k ∈ d.keys))

/-- `d.get(k)`. -/
def get? (d : Dict α β) (k : α) : Option β :=
  (d.entries.find? fun p => p.1 = k).map Prod.snd

/-- `d[k] = v`: overwrite in place, or append a new entry. -/
def set (d : Dict α β) (k : α) (v : β) : Dict α β :=
  if h : k ∈ d.keys then
    ⟨d.entries.map fun p => if p.1 = k then (k, v) else p, by
      have hk : ((d.entries.map fun p => if p.1 = k then (k, v) else p).map Prod.fst)
          = d.entries.map Prod.fst := by
        rw [map_map]
        refine map_congr_left fun p _ => ?_
        by_cases hp : p.1 = k <;> simp [hp]
      rw [hk]; exact d.nodup⟩
  else
    ⟨d.entries ++ [(k, v)], by
      rw [map_append]
      refine nodup_append.2 ⟨d.nodup, by simp, ?_⟩
      intro a ha b hb
      simp only [map_cons, map_nil, mem_singleton] at hb
      subst hb
      exact fun hab => h (hab ▸ ha)⟩

/-- `d.pop(k, None)`, as the dictionary it leaves. -/
def pop (d : Dict α β) (k : α) : Dict α β :=
  ⟨d.entries.filter fun p => p.1 ≠ k, (filter_sublist.map Prod.fst).nodup d.nodup⟩

/-! ## Keys -/

variable {d} {k k' : α} {v : β}

theorem keys_set_of_mem (h : k ∈ d) (v : β) : (d.set k v).keys = d.keys := by
  rw [set, dif_pos (mem_def.1 h)]
  simp only [keys, map_map]
  refine map_congr_left fun p _ => ?_
  by_cases hp : p.1 = k <;> simp [hp]

theorem keys_set_of_notMem (h : k ∉ d) (v : β) : (d.set k v).keys = d.keys ++ [k] := by
  rw [set, dif_neg (mt mem_def.2 h)]
  simp [keys]

@[simp] theorem mem_set : k' ∈ d.set k v ↔ k' = k ∨ k' ∈ d := by
  by_cases h : k ∈ d
  · rw [mem_def, keys_set_of_mem h]
    exact ⟨Or.inr, fun h' => h'.elim (fun e => e ▸ h) id⟩
  · rw [mem_def, keys_set_of_notMem h]
    simp [mem_def, or_comm]

theorem keys_pop (d : Dict α β) (k : α) : (d.pop k).keys = d.keys.filter (· ≠ k) := by
  simp only [pop, keys, filter_map]
  rfl

@[simp] theorem mem_pop : k' ∈ d.pop k ↔ k' ≠ k ∧ k' ∈ d := by
  rw [mem_def, keys_pop]
  simp [mem_def, and_comm]

/-! ## Lookup -/

@[simp] theorem get?_empty (k : α) : (empty : Dict α β).get? k = none := rfl

theorem get?_eq_some_iff : d.get? k = some v ↔ (k, v) ∈ d.entries := by
  obtain ⟨l, hl⟩ := d
  simp only [get?]
  induction l with
  | nil => simp
  | cons p l ih =>
    have hl' := nodup_cons.1 hl
    by_cases hp : p.1 = k
    · have hk : ∀ w, (k, w) ∉ l := fun w hw => hl'.1 (mem_map.2 ⟨_, hw, hp.symm⟩)
      have hfind : (p :: l).find? (fun p => p.1 = k) = some p := by simp [hp]
      rw [hfind]
      constructor
      · intro h
        have hv : p.2 = v := by simpa using h
        exact mem_cons.2 (Or.inl (Prod.ext hp.symm hv.symm))
      · intro h
        rcases mem_cons.1 h with h | h
        · simp [← h]
        · exact absurd h (hk v)
    · have hfind : (p :: l).find? (fun p => p.1 = k) = l.find? (fun p => p.1 = k) := by simp [hp]
      rw [hfind, ih hl'.2, mem_cons]
      exact ⟨Or.inr, fun h => h.elim (fun e => absurd (by rw [← e]) hp) id⟩

theorem mem_iff_get? : k ∈ d ↔ ∃ v, d.get? k = some v := by
  simp only [get?_eq_some_iff, mem_def, keys, mem_map]
  exact ⟨fun ⟨p, hp, e⟩ => ⟨p.2, e ▸ hp⟩, fun ⟨v, hv⟩ => ⟨_, hv, rfl⟩⟩

theorem get?_eq_none_iff : d.get? k = none ↔ k ∉ d := by
  rw [mem_iff_get?]
  cases d.get? k <;> simp

theorem mem_of_get? (h : d.get? k = some v) : k ∈ d :=
  mem_iff_get?.2 ⟨v, h⟩

theorem get?_set (d : Dict α β) (k k' : α) (v : β) :
    (d.set k v).get? k' = if k' = k then some v else d.get? k' := by
  ext w
  rw [get?_eq_some_iff]
  by_cases hk : k ∈ d.keys
  · simp only [set, hk, dite_true, mem_map]
    by_cases e : k' = k
    · subst e
      simp only [if_true, Option.some.injEq]
      constructor
      · rintro ⟨p, _, hp⟩
        by_cases h : p.1 = k'
        · simpa [h] using hp
        · rw [if_neg h] at hp; exact absurd (by rw [hp]) h
      · rintro rfl
        obtain ⟨p, hp, e⟩ := mem_map.1 hk
        exact ⟨p, hp, by simp [e]⟩
    · simp only [if_neg e, get?_eq_some_iff]
      constructor
      · rintro ⟨p, hp, h⟩
        by_cases hpk : p.1 = k
        · rw [if_pos hpk] at h
          exact absurd (congrArg Prod.fst h).symm e
        · rw [if_neg hpk] at h; exact h ▸ hp
      · exact fun h => ⟨_, h, if_neg e⟩
  · simp only [set, hk, dite_false, mem_append, mem_singleton, Prod.mk.injEq]
    by_cases e : k' = k
    · subst e
      have hno : (k', w) ∉ d.entries := fun h => hk (mem_map.2 ⟨_, h, rfl⟩)
      simp [hno, eq_comm]
    · simp [e, get?_eq_some_iff]

theorem get?_pop (d : Dict α β) (k k' : α) :
    (d.pop k).get? k' = if k' = k then none else d.get? k' := by
  ext w
  rw [get?_eq_some_iff]
  by_cases e : k' = k
  · simp [pop, e]
  · simp [pop, e, get?_eq_some_iff]

@[simp] theorem get?_set_self (d : Dict α β) (k : α) (v : β) : (d.set k v).get? k = some v := by
  simp [get?_set]

@[simp] theorem get?_pop_self (d : Dict α β) (k : α) : (d.pop k).get? k = none := by
  simp [get?_pop]

/-! ## Values -/

theorem mem_values_iff : v ∈ d.values ↔ ∃ k, d.get? k = some v := by
  simp only [get?_eq_some_iff, values, mem_map]
  exact ⟨fun ⟨p, hp, e⟩ => ⟨p.1, e ▸ hp⟩, fun ⟨k, hk⟩ => ⟨_, hk, rfl⟩⟩

theorem values_set_of_notMem (h : k ∉ d) (v : β) : (d.set k v).values = d.values ++ [v] := by
  have h' : k ∉ d.keys := h
  simp [set, h', values]

theorem pop_of_notMem (h : k ∉ d) : d.pop k = d := by
  obtain ⟨l, hl⟩ := d
  simp only [pop, mk.injEq]
  refine filter_eq_self.2 fun p hp => ?_
  simp only [ne_eq, decide_not, Bool.not_eq_eq_eq_not, Bool.not_true, decide_eq_false_iff_not]
  exact fun e => h (mem_map.2 ⟨p, hp, e⟩)

/-- Deleting a present key removes exactly its entry. -/
theorem entries_perm_pop (h : d.get? k = some v) :
    d.entries.Perm ((k, v) :: (d.pop k).entries) := by
  obtain ⟨l, hl⟩ := d
  rw [get?_eq_some_iff] at h
  simp only [pop] at h ⊢
  induction l with
  | nil => exact absurd h not_mem_nil
  | cons p l ih =>
    have hl' := nodup_cons.1 hl
    rcases mem_cons.1 h with h | h
    · subst h
      have hno : ∀ q ∈ l, q.1 ≠ k := fun q hq e => hl'.1 (mem_map.2 ⟨q, hq, e⟩)
      have hf : l.filter (fun p => p.1 ≠ k) = l :=
        filter_eq_self.2 fun q hq => by simpa using hno q hq
      rw [filter_cons_of_neg (by simp), hf]
    · have hpk : p.1 ≠ k := fun e => hl'.1 (mem_map.2 ⟨(k, v), h, e.symm⟩)
      rw [filter_cons_of_pos (by simpa using hpk)]
      exact ((ih hl'.2 h).cons _).trans (List.Perm.swap _ _ _)

/-- Deleting the oldest key. -/
theorem entries_pop_head {l : List (α × β)} (h : d.entries = (k, v) :: l) :
    (d.pop k).entries = l := by
  have hno := (nodup_cons.1 (h ▸ d.nodup : (((k, v) :: l).map Prod.fst).Nodup)).1
  simp only [pop, h]
  rw [filter_cons_of_neg (by simp), filter_eq_self]
  intro q hq
  simpa using fun e : q.1 = k => hno (mem_map.2 ⟨q, hq, e⟩)

/-- Deleting a present key removes exactly its value. -/
theorem values_perm_pop (h : d.get? k = some v) : d.values.Perm (v :: (d.pop k).values) :=
  (entries_perm_pop h).map Prod.snd

theorem pop_set_self (d : Dict α β) (k : α) (v : β) : (d.set k v).pop k = d.pop k := by
  by_cases h : k ∈ d.keys
  · simp only [set, h, dite_true, pop, mk.injEq, filter_map]
    have hf :
        d.entries.filter ((fun p => decide (p.1 ≠ k)) ∘ fun p => if p.1 = k then (k, v) else p)
        = d.entries.filter fun p => p.1 ≠ k := by
      refine filter_congr fun p _ => ?_
      by_cases hp : p.1 = k <;> simp [hp]
    rw [hf]
    refine (map_congr_left fun p hp => ?_).trans (map_id _)
    simp only [ne_eq, decide_not, mem_filter, Bool.not_eq_eq_eq_not, Bool.not_true,
      decide_eq_false_iff_not] at hp
    simp [hp.2]
  · simp [set, h, pop]

/-- Assigning a key replaces its entry, wherever it stands. -/
theorem entries_set_perm (d : Dict α β) (k : α) (v : β) :
    (d.set k v).entries.Perm ((k, v) :: (d.pop k).entries) := by
  have h := entries_perm_pop (get?_set_self d k v)
  rwa [pop_set_self] at h

/-- Assigning a key replaces its value, wherever it stands. -/
theorem values_set_perm (d : Dict α β) (k : α) (v : β) :
    (d.set k v).values.Perm (v :: (d.pop k).values) :=
  (entries_set_perm d k v).map Prod.snd

/-- The sum of a quantity over the entries. -/
def sumBy (f : α → β → ℕ) (d : Dict α β) : ℕ := (d.entries.map fun p => f p.1 p.2).sum

/-- The sum with the entry of one key apart. -/
theorem sumBy_eq (f : α → β → ℕ) (d : Dict α β) (k : α) :
    d.sumBy f = (d.get? k).elim 0 (f k) + (d.pop k).sumBy f := by
  cases h : d.get? k with
  | none => rw [pop_of_notMem (get?_eq_none_iff.1 h), Option.elim_none, Nat.zero_add]
  | some v => simpa [sumBy] using ((entries_perm_pop h).map fun p => f p.1 p.2).sum_nat

theorem sumBy_le {f f' : α → β → ℕ} (h : ∀ k v, d.get? k = some v → f k v ≤ f' k v) :
    d.sumBy f ≤ d.sumBy f' := by
  have hle : ∀ p ∈ d.entries, f p.1 p.2 ≤ f' p.1 p.2 := fun p hp =>
    h p.1 p.2 (get?_eq_some_iff.2 hp)
  rw [sumBy, sumBy]
  generalize d.entries = l at hle
  induction l with
  | nil => exact Nat.le_refl _
  | cons p l ih =>
    simp only [map_cons, sum_cons]
    exact Nat.add_le_add (hle p mem_cons_self)
      (ih fun q hq => hle q (mem_cons_of_mem _ hq))

/-! ## Order -/

/-- `d.move_to_end(k)` for a present key. -/
def moveToEnd (d : Dict α β) (k : α) : Dict α β :=
  match d.get? k with
  | none => d
  | some v => (d.pop k).set k v

/-- `d.popitem(last=False)`, as the dictionary it leaves. -/
def popFirst (d : Dict α β) : Dict α β :=
  ⟨d.entries.tail, (tail_sublist d.entries |>.map Prod.fst).nodup d.nodup⟩

theorem get?_moveToEnd (d : Dict α β) (k k' : α) : (d.moveToEnd k).get? k' = d.get? k' := by
  rw [moveToEnd]
  split
  · rfl
  next v hv =>
    rw [get?_set, get?_pop]
    by_cases h : k' = k
    · rw [if_pos h, h, hv]
    · rw [if_neg h, if_neg h]

@[simp] theorem mem_moveToEnd : k' ∈ d.moveToEnd k ↔ k' ∈ d := by
  rw [mem_iff_get?, mem_iff_get?, get?_moveToEnd]

theorem pop_pop (d : Dict α β) (k : α) : (d.pop k).pop k = d.pop k :=
  pop_of_notMem (by simp)

/-- Moving an entry changes the order only. -/
theorem entries_moveToEnd_perm (d : Dict α β) (k : α) : (d.moveToEnd k).entries.Perm d.entries := by
  rw [moveToEnd]
  split
  · exact .refl _
  next v hv =>
    refine (entries_set_perm (d.pop k) k v).trans ?_
    rw [pop_pop]
    exact (entries_perm_pop hv).symm

/-! ## Values -/

/-- The values are changed where they are, key by key. -/
def mapValues (f : α → β → β) (d : Dict α β) : Dict α β :=
  ⟨d.entries.map fun e => (e.1, f e.1 e.2), by
    rw [map_map]
    exact d.nodup⟩

@[simp] theorem get?_mapValues (f : α → β → β) (d : Dict α β) (k : α) :
    (d.mapValues f).get? k = (d.get? k).map (f k) := by
  ext v
  rw [get?_eq_some_iff, Option.map_eq_some_iff, mapValues]
  simp only [mem_map, Prod.mk.injEq, Prod.exists, ← get?_eq_some_iff]
  constructor
  · rintro ⟨k', w, hw, rfl, rfl⟩
    exact ⟨w, hw, rfl⟩
  · rintro ⟨w, hw, rfl⟩
    exact ⟨k, w, hw, rfl, rfl⟩

end Dict

end KVarN.Lib
