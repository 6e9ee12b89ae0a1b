import Mathlib.Data.List.Dedup
import Mathlib.Data.List.Sort

/-!
# Index arithmetic on arrays

Plans for moving rows about are computed with whole-array operations. For each of them this file
has the operation as a list function and what it computes: the distinct values of an array with the
place of each, the runs of equal keys of a sorted array, the place of a value in a sorted array, an
even split with a remainder, and rows copied one after another.

## Main definitions

* `unique` — distinct values in ascending order, each with its first row.
* `runs` — the runs of equal keys.
* `searchsorted` — where a value is in a sorted array.
* `share`, `owner` — an even split with a remainder, from both sides.
* `copyRows` — rows copied one after another.

## Main results

* `lookup_runs_insertionSort` — the run of a key in a sorted array.
* `mem_share` — both sides of the split agree.
-/

namespace KVarN.Lib

open List

universe u v

/-! ## Distinct values -/

section Unique

variable {rows : List ℕ} {id : ℕ → ℤ}

/-- The distinct values of some rows in ascending order, each with the first row that has it. -/
def unique (rows : List ℕ) (id : ℕ → ℤ) : List (ℤ × ℕ) :=
  ((rows.map id).dedup.insertionSort (· ≤ ·)).map fun e =>
    (e, rows.getD ((rows.map id).idxOf e) 0)

theorem mem_of_mem_unique {e : ℤ} {row : ℕ} (h : (e, row) ∈ unique rows id) :
    row ∈ rows ∧ id row = e := by
  obtain ⟨e', he', heq⟩ := mem_map.1 h
  obtain ⟨rfl, rfl⟩ := Prod.mk.inj heq
  have hmem : e' ∈ rows.map id :=
    mem_dedup.1 ((perm_insertionSort _ _).mem_iff.1 he')
  have hlt := idxOf_lt_length_iff.2 hmem
  have hget := getElem_idxOf hlt
  rw [length_map] at hlt
  rw [getElem_map] at hget
  rw [getD_eq_getElem?_getD, getElem?_eq_getElem hlt, Option.getD_some]
  exact ⟨getElem_mem hlt, hget⟩

theorem exists_mem_unique (id : ℕ → ℤ) {row : ℕ} (h : row ∈ rows) :
    ∃ row', (id row, row') ∈ unique rows id :=
  ⟨_, mem_map.2 ⟨id row, (perm_insertionSort _ _).mem_iff.2
    (mem_dedup.2 (mem_map_of_mem h)), rfl⟩⟩

/-- Every value is found. -/
theorem exists_lookup_unique (id : ℕ → ℤ) {row : ℕ} (h : row ∈ rows) :
    ∃ row' ∈ rows, (unique rows id).lookup (id row) = some row' ∧ id row' = id row := by
  obtain ⟨row₀, hrow₀⟩ := exists_mem_unique id h
  cases hlookup : (unique rows id).lookup (id row) with
  | none => simpa using lookup_eq_none_iff.1 hlookup _ hrow₀
  | some row' =>
    obtain ⟨l₁, l₂, hl, -⟩ := lookup_eq_some_iff.1 hlookup
    obtain ⟨hmem, hid⟩ := mem_of_mem_unique (hl ▸ by simp : (id row, row') ∈ unique rows id)
    exact ⟨row', hmem, rfl, hid⟩

theorem unique_fst : (unique rows id).map (·.1) = (rows.map id).dedup.insertionSort (· ≤ ·) := by
  simp [unique, Function.comp_def]

theorem nodup_unique_fst : ((unique rows id).map (·.1)).Nodup := by
  rw [unique_fst]
  exact (perm_insertionSort _ _).nodup_iff.2 (nodup_dedup _)

end Unique

/-! ## Runs of equal keys -/

theorem lookup_map_snd {β γ : Type u} (f : ℤ → β → γ) (l : List (ℤ × β)) (k : ℤ) :
    (l.map fun a => (a.1, f a.1 a.2)).lookup k = (l.lookup k).map (f k) := by
  induction l with
  | nil => rfl
  | cons a l ih =>
    rw [map_cons, lookup_cons, lookup_cons, ih]
    by_cases h : k = a.1
    · simp [h]
    · simp [beq_false_of_ne h]

section Runs

variable {α : Type u} (key : α → ℤ)

/-- The runs of equal keys, each under its key. -/
def runs : List α → List (ℤ × List α)
  | [] => []
  | a :: l =>
    match runs l with
    | [] => [(key a, [a])]
    | (k, run) :: rest =>
      if key a = k then (k, a :: run) :: rest else (key a, [a]) :: (k, run) :: rest

theorem runs_cons (a : α) (l : List α) : ∃ run rest, runs key (a :: l) = (key a, run) :: rest := by
  rw [runs]
  rcases hl : runs key l with _ | ⟨⟨k, run⟩, rest⟩
  · exact ⟨_, _, rfl⟩
  · dsimp only
    split_ifs with h
    · exact ⟨a :: run, rest, by rw [h]⟩
    · exact ⟨_, _, rfl⟩

variable {key}

/-- The run of a key in a sorted array holds all its elements. -/
theorem lookup_runs {l : List α} (hl : l.Pairwise (key · ≤ key ·)) (k : ℤ) : (runs key l).lookup k
      = if l.filter (key · = k) = [] then none else some (l.filter (key · = k)) := by
  induction l with
  | nil => rfl
  | cons a l ih =>
    obtain ⟨hle, hl⟩ := pairwise_cons.1 hl
    specialize ih hl
    rcases l with _ | ⟨b, l⟩
    · by_cases h : key a = k
      · simp [runs, h]
      · simp [runs, h, lookup_cons, beq_false_of_ne (Ne.symm h)]
    · obtain ⟨run, rest, hruns⟩ := runs_cons key b l
      rw [runs, hruns]
      rw [hruns, lookup_cons] at ih
      dsimp only
      by_cases hab : key a = key b
      · rw [if_pos hab, lookup_cons]
        by_cases hk : k = key b
        · have hb : (b :: l).filter (key · = k) ≠ [] := by simp [hk]
          subst hk
          simp only [beq_self_eq_true, if_neg hb, Option.some.injEq] at ih ⊢
          rw [filter_cons_of_pos (by simpa using hab), if_neg (by simp), ih]
        · simp only [beq_false_of_ne hk] at ih ⊢
          rw [ih, filter_cons_of_neg (a := a) (by simpa [hab] using Ne.symm hk)]
      · rw [if_neg hab, lookup_cons]
        by_cases hk : k = key a
        · subst hk
          have hnil : (b :: l).filter (key · = key a) = [] := by
            refine filter_eq_nil_iff.2 fun c hc => ?_
            have hbc : key b ≤ key c := by
              rcases mem_cons.1 hc with rfl | hc
              · exact le_rfl
              · exact (pairwise_cons.1 hl).1 c hc
            have hab' := hle b (by simp)
            simp only [decide_eq_true_eq]
            omega
          rw [filter_cons_of_pos (by simp), hnil]
          simp
        · rw [beq_false_of_ne hk, filter_cons_of_neg (by simpa using Ne.symm hk), ← ih]
          exact lookup_cons

end Runs

/-- The places of a key, sorted by key and place: those of the key are in ascending order. -/
theorem lookup_runs_insertionSort (key : ℕ → ℤ) {ps : List ℕ} (hps : ps.Pairwise (· ≤ ·)) (k : ℤ) :
    (runs key (ps.insertionSort fun p q => key p < key q ∨ key p = key q ∧ p ≤ q)).lookup k
      = if ps.filter (key · = k) = [] then none else some (ps.filter (key · = k)) := by
  set le : ℕ → ℕ → Prop := fun p q => key p < key q ∨ key p = key q ∧ p ≤ q with hle
  have : Std.Total le := ⟨fun p q => by simp only [hle]; omega⟩
  have : IsTrans ℕ le := ⟨fun p q r => by simp only [hle]; omega⟩
  have hsorted := pairwise_insertionSort le ps
  have hkeys : (ps.insertionSort le).Pairwise (key · ≤ key ·) :=
    hsorted.imp fun h => by simp only [hle] at h; omega
  have hfilter : (ps.insertionSort le).filter (key · = k) = ps.filter (key · = k) := by
    refine List.Perm.eq_of_pairwise (fun p q _ _ => Nat.le_antisymm) ?_ (hps.filter _)
      ((perm_insertionSort le ps).filter _)
    refine (hsorted.filter _).imp_of_mem fun {p q} hp hq h => ?_
    have hp' : key p = k := by simpa using of_mem_filter hp
    have hq' : key q = k := by simpa using of_mem_filter hq
    simp only [hle] at h
    omega
  rw [lookup_runs hkeys, hfilter]

theorem nodup_eraseDups (l : List ℕ) : l.eraseDups.Nodup := by
  induction h : l.length using Nat.strong_induction_on generalizing l with
  | _ n ih =>
    cases l with
    | nil => simp
    | cons a l =>
      rw [eraseDups_cons]
      refine nodup_cons.2 ⟨by simp, ih _ ?_ _ rfl⟩
      have := length_filter_le (fun b => !b == a) l
      rw [length_cons] at h
      omega

/-- Lists that are told apart by a key. -/
theorem nodup_flatMap_of_key {α β κ : Type u} {l : List α} {f : α → List β} (g : α → κ)
    (key : β → κ) (hl : (l.map g).Nodup) (hf : ∀ a ∈ l, (f a).Nodup)
    (hkey : ∀ a ∈ l, ∀ b ∈ f a, key b = g a) : (l.flatMap f).Nodup := by
  refine nodup_flatMap.2 ⟨hf, (pairwise_map.1 hl).imp_of_mem ?_⟩
  intro a a' ha ha' hne b hb hb'
  exact hne ((hkey a ha b hb).symm.trans (hkey a' ha' b hb'))

/-! ## Places in a sorted array -/

/-- The first place at which a value can be inserted into a sorted array. -/
def searchsorted (l : List ℤ) (x : ℤ) : ℕ := l.findIdx (x ≤ ·)

/-- A value of the array is found at its place. -/
theorem getElem?_searchsorted {l : List ℤ} (hl : l.Pairwise (· ≤ ·)) {x : ℤ} (hx : x ∈ l) :
    l[searchsorted l x]? = some x := by
  induction l with
  | nil => cases hx
  | cons a l ih =>
    obtain ⟨hle, hl⟩ := pairwise_cons.1 hl
    unfold searchsorted at ih ⊢
    rw [findIdx_cons]
    rcases mem_cons.1 hx with rfl | hx
    · simp
    · by_cases ha : x ≤ a
      · have heq : a = x := le_antisymm (hle x hx) ha
        simp [heq]
      · simpa [ha] using ih hl hx

/-! ## Even splits -/

section Split

variable {α : Type u} {R : List α} {s i j : ℕ}

/-- What the one at place `i` out of `s` takes: an equal part, and one of the remainder. -/
def share (s : ℕ) (R : List α) (i : ℕ) : List α :=
  let q := R.length / s
  (R.drop (i * q)).take q ++ (R[s * q + i]?).toList

/-- Who takes the one at place `j` out of `m`. -/
def owner (s m j : ℕ) : ℕ :=
  let q := m / s
  if j < s * q then j / q else j - s * q

theorem owner_lt {m : ℕ} (hs : 0 < s) (hj : j < m) : owner s m j < s := by
  have hdiv := Nat.div_add_mod m s
  have hmod := Nat.mod_lt m hs
  simp only [owner]
  split_ifs with h
  · exact Nat.div_lt_of_lt_mul (by rwa [Nat.mul_comm])
  · omega

theorem owner_eq_iff {m : ℕ} (hi : i < s) : owner s m j = i ↔
      (i * (m / s) ≤ j ∧ j < i * (m / s) + m / s) ∨ j = s * (m / s) + i := by
  have hmul : i * (m / s) + m / s ≤ s * (m / s) := by
    rw [← Nat.succ_mul]
    exact Nat.mul_le_mul_right _ hi
  simp only [owner]
  split_ifs with h
  · have hq : 0 < m / s := Nat.pos_of_ne_zero fun h0 => by simp [h0] at h
    rw [Nat.div_eq_iff hq]
    omega
  · omega

/-- **Both sides of the split agree.** -/
theorem mem_share (hi : i < s) {x : α} :
    x ∈ share s R i ↔ ∃ j, R[j]? = some x ∧ owner s R.length j = i := by
  simp only [share, owner_eq_iff hi, mem_append, Option.mem_toList]
  constructor
  · rintro (h | h)
    · obtain ⟨j, hj, rfl⟩ := mem_take_iff_getElem.1 h
      rw [getElem_drop]
      refine ⟨_, getElem?_eq_getElem _, .inl ⟨Nat.le_add_right _ _, ?_⟩⟩
      omega
    · exact ⟨_, h, .inr rfl⟩
  · rintro ⟨j, hj, ⟨hle, hlt⟩ | rfl⟩
    · obtain ⟨hjR, rfl⟩ := List.getElem?_eq_some_iff.1 hj
      refine .inl (mem_take_iff_getElem.2 ⟨j - i * (R.length / s), ?_, ?_⟩)
      · rw [length_drop]
        omega
      · rw [getElem_drop]
        congr 1
        omega
    · exact .inr hj

theorem nodup_share (hi : i < s) (hR : R.Nodup) : (share s R i).Nodup := by
  have hmul : i * (R.length / s) + R.length / s ≤ s * (R.length / s) := by
    rw [← Nat.succ_mul]
    exact Nat.mul_le_mul_right _ hi
  refine nodup_append.2
    ⟨(hR.sublist (drop_sublist _ _)).sublist (take_sublist _ _), ?_, ?_⟩
  · cases R[s * (R.length / s) + i]? <;> simp
  · rintro x hx _ hy rfl
    obtain ⟨j, hj, rfl⟩ := mem_take_iff_getElem.1 hx
    obtain ⟨hlt, heq⟩ := List.getElem?_eq_some_iff.1 (Option.mem_toList.1 hy)
    rw [getElem_drop] at heq
    have := (List.Nodup.getElem_inj_iff hR).1 heq
    omega

end Split

/-! ## Rows copied one after another -/

section Copies

variable {W : Type v} {dsts : List ℕ}

def writeRows (val : ℕ → W) (w : ℕ → W) (dsts : List ℕ) : ℕ → W :=
  dsts.foldl (fun w dst => Function.update w dst (val dst)) w

/-- Copy each row of a list from its source in the same array. -/
def copyRows (src : ℕ → ℕ) (w : ℕ → W) (dsts : List ℕ) : ℕ → W :=
  dsts.foldl (fun w dst => Function.update w dst (w (src dst))) w

theorem writeRows_apply (val w : ℕ → W) (dsts : List ℕ) (row : ℕ) :
    writeRows val w dsts row = if row ∈ dsts then val row else w row := by
  induction dsts generalizing w with
  | nil => simp [writeRows]
  | cons dst dsts ih =>
    have hcons : writeRows val w (dst :: dsts)
        = writeRows val (Function.update w dst (val dst)) dsts := rfl
    rw [hcons, ih]
    by_cases hmem : row ∈ dsts
    · simp [hmem]
    · by_cases heq : row = dst
      · simp [heq]
      · simp [hmem, heq]

/-- If no source is overwritten, the copies are those of the rows before. -/
theorem copyRows_apply {src : ℕ → ℕ} (hsrc : ∀ dst ∈ dsts, src dst ∉ dsts) (w : ℕ → W) (row : ℕ) :
    copyRows src w dsts row = if row ∈ dsts then w (src row) else w row := by
  induction dsts generalizing w with
  | nil => simp [copyRows]
  | cons dst dsts ih =>
    have hcons : copyRows src w (dst :: dsts)
        = copyRows src (Function.update w dst (w (src dst))) dsts := rfl
    have hsrc' : ∀ r ∈ dst :: dsts, src r ≠ dst := fun r hr h => hsrc r hr (h ▸ by simp)
    rw [hcons, ih fun r hr hmem =>
      hsrc r (mem_cons_of_mem _ hr) (mem_cons_of_mem _ hmem)]
    by_cases hmem : row ∈ dsts
    · simp [hmem, hsrc' row (mem_cons_of_mem _ hmem)]
    · by_cases heq : row = dst
      · subst heq
        simp [hmem]
      · simp [hmem, heq]

end Copies

end KVarN.Lib
