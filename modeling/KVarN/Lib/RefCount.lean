import Mathlib.Algebra.Order.Group.Multiset
import Mathlib.Tactic.Abel

/-!
# Reference-counted pools

A pool hands out handles, counts how often each one is held, and keeps the
handles nobody holds in a queue. A few handles are *null*: they stand for "no
handle", may be held any number of times and are never queued.

The library states once what correct counting means. `RefPool.Accounts` says
that the counts are exactly those of a multiset of owed references and that the
queue holds exactly the handles with count zero. Each operation then has one
rule that moves references into or out of that multiset; a client proves its own
bookkeeping correct by saying which references it holds and applying the rules.

## Main definitions

* `RefPool.touch`, `RefPool.acquire`, `RefPool.release` — the operations.
* `RefPool.Accounts` — the counts are those of the owed references.
-/

namespace KVarN.Lib

open Function List

universe u

/-- Counts of the held handles, the queue of the others, and the queue's length
as a separately maintained counter. -/
structure RefPool (α : Type u) where
  refCnt : α → ℤ
  queue : List α
  numFree : ℤ

namespace RefPool

variable {α : Type u} [DecidableEq α] (p : RefPool α)

/-- One more reference to `a`. -/
def incr (a : α) : RefPool α :=
  { p with refCnt := update p.refCnt a (p.refCnt a + 1) }

@[simp] theorem incr_queue (a : α) : (p.incr a).queue = p.queue := rfl

theorem incr_refCnt (a b : α) :
    (p.incr a).refCnt b = if b = a then p.refCnt a + 1 else p.refCnt b := by
  simp [incr, update_apply]

/-- Take `a` out of the middle of the queue; refused when it is not queued. -/
def remove (a : α) : Option (RefPool α) :=
  if a ∈ p.queue then
    some { p with queue := p.queue.erase a, numFree := p.numFree - 1 }
  else none

/-- Hold each handle of a list once more, taking it off the queue if it was free. -/
def touch (null : α → Prop) [DecidablePred null] : List α → RefPool α → Option (RefPool α)
  | [], p => some p
  | a :: as, p =>
    if p.refCnt a = 0 ∧ ¬ null a then
      (p.remove a).bind fun p => touch null as (p.incr a)
    else touch null as (p.incr a)

/-- The first `n` handles of the queue. The counter moves by `n` whatever the
sign of `n` is, the queue only for a positive one. -/
def popN (n : ℤ) (p : RefPool α) : Option (List α × RefPool α) :=
  if n = 0 then some ([], p)
  else if p.numFree < n ∨ p.queue.length < n.toNat then none
  else some (p.queue.take n.toNat,
    { p with queue := p.queue.drop n.toNat, numFree := p.numFree - n })

/-- Give popped handles their first reference; refused when one is still held. -/
def hold : List α → RefPool α → Option (RefPool α)
  | [], p => some p
  | a :: as, p => if p.refCnt a = 0 then hold as (p.incr a) else none

theorem hold_queue {as : List α} {p p' : RefPool α} (h : hold as p = some p') :
    p'.queue = p.queue := by
  induction as generalizing p with
  | nil => rw [hold, Option.some.injEq] at h; rw [h]
  | cons a as ih =>
    rw [hold] at h
    split at h
    · rw [ih h, incr_queue]
    · exact absurd h (by simp)

/-- Pop `n` handles and hold them. -/
def acquire (n : ℤ) (p : RefPool α) : Option (List α × RefPool α) :=
  (p.popN n).bind fun r => (hold r.1 r.2).map fun p => (r.1, p)

/-- Drop one reference for each occurrence in a list. -/
def decrAll (r : α → ℤ) : List α → α → ℤ
  | [] => r
  | a :: as => decrAll (update r a (r a - 1)) as

/-- The handles whose count reaches zero while a list of references is dropped,
in the order in which they do. -/
def zeroed (null : α → Prop) [DecidablePred null] (r : α → ℤ) : List α → List α
  | [] => []
  | a :: as =>
    if r a - 1 = 0 ∧ ¬ null a then a :: zeroed null (update r a (r a - 1)) as
    else zeroed null (update r a (r a - 1)) as

/-- Drop a list of references. Freed handles that satisfy `first` go to the front
of the queue, the others to its end. -/
def release (null : α → Prop) [DecidablePred null] (first : α → Bool) (as : List α)
    (p : RefPool α) : RefPool α :=
  let freed := zeroed null p.refCnt as
  { refCnt := decrAll p.refCnt as
    queue := freed.filter first ++ p.queue ++ freed.filter fun a => !first a
    numFree := p.numFree + freed.length }

/-- The references a list of handles stands for: its non-null entries. -/
def reals (null : α → Prop) [DecidablePred null] (as : List α) : Multiset α :=
  ((as.filter fun a => ¬ null a : List α) : Multiset α)

/-- **The counts are exactly the owed references.** Every owed handle is a member
of the pool, a member's count is its number of occurrences in `owed`, and the
queue lists the members with count zero, each once. -/
structure Accounts (univ : Set α) (p : RefPool α) (owed : Multiset α) : Prop where
  owed_mem : ∀ a ∈ owed, a ∈ univ
  refCnt_eq : ∀ a ∈ univ, p.refCnt a = owed.count a
  nodup : p.queue.Nodup
  mem_queue : ∀ a, a ∈ p.queue ↔ a ∈ univ ∧ p.refCnt a = 0
  numFree_eq : p.numFree = p.queue.length

/-! ## References of a list -/

section Reals

variable (null : α → Prop) [DecidablePred null]

section

omit [DecidableEq α]

@[simp] theorem reals_nil : reals null ([] : List α) = 0 := rfl

theorem reals_cons (a : α) (as : List α) :
    reals null (a :: as) = reals null [a] + reals null as := by
  by_cases h : null a <;> simp [reals, h]

@[simp] theorem reals_append (as bs : List α) :
    reals null (as ++ bs) = reals null as + reals null bs := by
  simp [reals]

@[simp] theorem reals_reverse (as : List α) : reals null as.reverse = reals null as := by
  simp [reals]

end

variable {null}

variable {a : α} {as : List α}

section

omit [DecidableEq α]

theorem reals_singleton (h : ¬ null a) : reals null [a] = {a} := by
  simp [reals, h]

theorem reals_singleton_null (h : null a) : reals null [a] = 0 := by
  simp [reals, h]

theorem mem_reals : a ∈ reals null as ↔ a ∈ as ∧ ¬ null a := by
  simp [reals]

end

theorem count_reals (h : ¬ null a) (as : List α) : (reals null as).count a = as.count a := by
  simp [reals, count_filter, h]

omit [DecidableEq α] in
theorem reals_eq_coe (h : ∀ a ∈ as, ¬ null a) : reals null as = (as : Multiset α) := by
  rw [reals, filter_eq_self.2 (by simpa using h)]

omit [DecidableEq α] in
/-- Overwriting an entry exchanges its reference for the new one's. -/
theorem reals_set {i : ℕ} {b : α} (h : as[i]? = some a) :
    reals null (as.set i b) + reals null [a] = reals null as + reals null [b] := by
  induction as generalizing i with
  | nil => simp at h
  | cons c as ih =>
    cases i with
    | zero =>
      simp only [getElem?_cons_zero, Option.some.injEq] at h
      subst h
      rw [set_cons_zero, reals_cons null b as, reals_cons null c as]
      abel
    | succ i =>
      rw [getElem?_cons_succ] at h
      rw [set_cons_succ, reals_cons null c (as.set i b), reals_cons null c as,
        add_assoc, ih h, add_assoc]

end Reals

/-! ## Dropping references -/

theorem decrAll_apply (r : α → ℤ) (as : List α) (b : α) : decrAll r as b = r b - as.count b := by
  induction as generalizing r with
  | nil => simp [decrAll]
  | cons a as ih =>
    rw [decrAll, ih]
    by_cases h : b = a
    · subst h; simp; omega
    · simp [update_of_ne h, count_cons_of_ne (Ne.symm h)]

section Null

variable {null : α → Prop} [DecidablePred null]

/-- A handle is freed once, exactly when the dropped references exhaust its count. -/
theorem count_zeroed (r : α → ℤ) (as : List α) (b : α) : (zeroed null r as).count b
      = if 1 ≤ r b ∧ r b ≤ as.count b ∧ ¬ null b then 1 else 0 := by
  induction as generalizing r with
  | nil =>
    have h : ¬ (1 ≤ r b ∧ r b ≤ (([] : List α).count b : ℤ) ∧ ¬ null b) := by
      rw [count_nil]; omega
    rw [if_neg h]; rfl
  | cons a as ih =>
    by_cases h : b = a
    · subst h
      have ih' := ih (update r b (r b - 1))
      rw [update_self] at ih'
      simp only [zeroed, count_cons_self]
      by_cases hn : null b
      · rw [if_neg fun h => h.2 hn, ih', if_neg fun h => h.2.2 hn, if_neg fun h => h.2.2 hn]
      · by_cases h1 : r b - 1 = 0
        · rw [if_pos ⟨h1, hn⟩, count_cons_self, ih', if_neg (by omega),
            if_pos ⟨by omega, by omega, hn⟩]
        · rw [if_neg fun h => h1 h.1, ih']
          by_cases h2 : 1 ≤ r b ∧ r b ≤ (as.count b : ℤ) + 1
          · rw [if_pos ⟨by omega, by omega, hn⟩, if_pos ⟨h2.1, h2.2, hn⟩]
          · rw [if_neg fun h => h2 ⟨by omega, by omega⟩, if_neg fun h => h2 ⟨h.1, h.2.1⟩]
    · have ih' := ih (update r a (r a - 1))
      rw [update_of_ne h] at ih'
      rw [count_cons_of_ne (Ne.symm h), zeroed]
      split
      · rw [count_cons_of_ne (Ne.symm h), ih']
      · exact ih'

theorem mem_zeroed {r : α → ℤ} {as : List α} {b : α} :
    b ∈ zeroed null r as ↔ 1 ≤ r b ∧ r b ≤ as.count b ∧ ¬ null b := by
  rw [← count_pos_iff, count_zeroed]
  split <;> simp_all

theorem nodup_zeroed (r : α → ℤ) (as : List α) : (zeroed null r as).Nodup := by
  refine nodup_iff_count_le_one.2 fun b => ?_
  rw [count_zeroed]; split <;> omega

omit [DecidableEq α] in
theorem filter_append_filter_perm (first : α → Bool) (freed queue : List α) :
    (freed.filter first ++ queue ++ freed.filter fun a => !first a).Perm (freed ++ queue) := by
  have hfreed := filter_append_perm first freed
  calc (freed.filter first ++ queue ++ freed.filter fun a => !first a).Perm
        (freed.filter first ++ (freed.filter (fun a => !first a) ++ queue)) := by
          rw [append_assoc]
          exact (perm_append_comm).append_left _
    _ = freed.filter first ++ freed.filter (fun a => !first a) ++ queue := by
          rw [append_assoc]
    _ |>.Perm (freed ++ queue) := hfreed.append_right _

end Null

/-! ## The rules -/

namespace Accounts

variable {null : α → Prop} {univ : Set α} {p} {p' : RefPool α} {owed : Multiset α} {a : α}
  {as : List α}

section

variable (h : p.Accounts univ owed)

include h

theorem refCnt_nonneg (ha : a ∈ univ) : 0 ≤ p.refCnt a := by
  rw [h.refCnt_eq a ha]; omega

/-- A member is free exactly when nothing owes it. -/
theorem mem_queue_iff : a ∈ p.queue ↔ a ∈ univ ∧ a ∉ owed := by
  rw [h.mem_queue]
  refine and_congr_right fun ha => ?_
  rw [h.refCnt_eq a ha, ← Multiset.count_eq_zero]
  exact Int.ofNat_eq_zero

theorem notMem_queue (ha : a ∉ univ) : a ∉ p.queue :=
  fun hq => ha (h.mem_queue_iff.1 hq).1

/-- One more reference to a handle that is already held. -/
theorem incr (ha : a ∈ owed) :
    (p.incr a).Accounts univ (owed + {a}) where
  owed_mem b hb := by
    rcases Multiset.mem_add.1 hb with hb | hb
    · exact h.owed_mem b hb
    · exact h.owed_mem b (Multiset.mem_singleton.1 hb ▸ ha)
  refCnt_eq b hb := by
    rw [incr_refCnt, Multiset.count_add, Multiset.count_singleton]
    split
    · next hba => subst hba; rw [h.refCnt_eq b hb]; omega
    · rw [h.refCnt_eq b hb]; omega
  nodup := h.nodup
  mem_queue b := by
    rw [incr_queue, h.mem_queue, incr_refCnt]
    refine and_congr_right fun hb => ?_
    split
    · next hba =>
      subst hba
      have hpos : 0 < owed.count b := Multiset.count_pos.2 ha
      rw [h.refCnt_eq b hb]
      omega
    · rfl
  numFree_eq := h.numFree_eq

/-- A handle outside the pool is counted without any effect. -/
theorem incr_of_notMem (ha : a ∉ univ) :
    (p.incr a).Accounts univ owed where
  owed_mem := h.owed_mem
  refCnt_eq b hb := by
    have hba : b ≠ a := fun e => ha (e ▸ hb)
    rw [incr_refCnt, if_neg hba, h.refCnt_eq b hb]
  nodup := h.nodup
  mem_queue b := by
    rw [incr_queue, h.mem_queue, incr_refCnt]
    refine and_congr_right fun hb => ?_
    have hba : b ≠ a := fun e => ha (e ▸ hb)
    rw [if_neg hba]
  numFree_eq := h.numFree_eq

/-- Taking a free handle off the queue and holding it. -/
theorem incr_of_free (p' : RefPool α)
    (hq : p'.queue.Nodup) (hmem : ∀ b, b ∈ p'.queue ↔ b ∈ p.queue ∧ b ≠ a)
    (hnum : p'.numFree = p'.queue.length) (href : p'.refCnt = p.refCnt) (ha : a ∈ univ)
    (h0 : p.refCnt a = 0) : (p'.incr a).Accounts univ (owed + {a}) where
  owed_mem b hb := by
    rcases Multiset.mem_add.1 hb with hb | hb
    · exact h.owed_mem b hb
    · exact Multiset.mem_singleton.1 hb ▸ ha
  refCnt_eq b hb := by
    rw [incr_refCnt, Multiset.count_add, Multiset.count_singleton, href]
    split
    · next hba => subst hba; rw [h.refCnt_eq b hb]; omega
    · rw [h.refCnt_eq b hb]; omega
  nodup := hq
  mem_queue b := by
    rw [incr_queue, hmem, h.mem_queue, incr_refCnt, href]
    by_cases hba : b = a
    · subst hba
      simp only [ne_eq, not_true_eq_false, and_false, if_true, false_iff]
      omega
    · simp [hba]
  numFree_eq := hnum

end

/-- **Touching never fails** on members and null handles, and adds one owed
reference for each member in the list. -/
theorem touch [DecidablePred null] (hnull : ∀ a ∈ univ, ¬ null a)
    (h : p.Accounts univ owed) (has : ∀ a ∈ as, a ∈ univ ∨ null a) :
    ∃ p', RefPool.touch null as p = some p' ∧ p'.Accounts univ (owed + reals null as) := by
  induction as generalizing p owed with
  | nil => exact ⟨p, rfl, by simpa using h⟩
  | cons a as ih =>
    rw [reals_cons, ← add_assoc]
    have has' := fun b hb => has b (mem_cons_of_mem a hb)
    by_cases hn : null a
    · obtain ⟨p', hp', hacc⟩ := ih (h.incr_of_notMem fun hu => hnull a hu hn) has'
      refine ⟨p', ?_, by rw [reals_singleton_null hn, add_zero]; exact hacc⟩
      rw [RefPool.touch, if_neg fun h => h.2 hn]
      exact hp'
    have ha : a ∈ univ := (has a mem_cons_self).resolve_right hn
    rw [reals_singleton hn]
    by_cases h0 : p.refCnt a = 0
    · have hq : a ∈ p.queue := (h.mem_queue a).2 ⟨ha, h0⟩
      have hlen := length_erase_of_mem hq
      have hpos := length_pos_of_mem hq
      have step := h.incr_of_free
        { p with queue := p.queue.erase a, numFree := p.numFree - 1 }
        (h.nodup.erase a)
        (fun b => by rw [h.nodup.mem_erase_iff, and_comm]) (by
          simp only [hlen, h.numFree_eq]; omega) rfl ha h0
      obtain ⟨p', hp', hacc⟩ := ih step has'
      refine ⟨p', ?_, hacc⟩
      rw [RefPool.touch, if_pos ⟨h0, hn⟩, remove, if_pos hq]
      exact hp'
    · have hheld : a ∈ owed := by
        rw [h.refCnt_eq a ha] at h0
        exact Multiset.count_pos.1 (by omega)
      obtain ⟨p', hp', hacc⟩ := ih (h.incr hheld) has'
      exact ⟨p', by rw [RefPool.touch, if_neg fun h => h0 h.1]; exact hp', hacc⟩

/-- Holding a list of popped handles: what is left on the queue accounts for
everything once they are held. -/
theorem hold {qs : List α} {k : ℤ} (h : p.Accounts univ owed) (hq : p.queue = as ++ qs)
    (hk : k = qs.length) :
    ∃ p', RefPool.hold as { p with queue := qs, numFree := k } = some p' ∧
      p'.Accounts univ (owed + (as : Multiset α)) := by
  induction as generalizing p owed with
  | nil =>
    refine ⟨_, rfl, ?_⟩
    simp only [nil_append] at hq
    have he : ({ p with queue := qs, numFree := k } : RefPool α) = p := by
      rw [hk, ← hq, ← h.numFree_eq]
    simpa [he] using h
  | cons a as ih =>
    rw [← Multiset.cons_coe, ← Multiset.singleton_add, ← add_assoc]
    have hmem : a ∈ p.queue := by rw [hq]; simp
    obtain ⟨ha, h0⟩ := (h.mem_queue a).1 hmem
    have hnd := h.nodup
    rw [hq, cons_append, nodup_cons] at hnd
    have step := h.incr_of_free
      { p with queue := as ++ qs, numFree := (as ++ qs).length } hnd.2
      (fun b => by
        simp only [hq, cons_append, mem_cons]
        refine ⟨fun hb => ⟨Or.inr hb, fun e => hnd.1 (e ▸ hb)⟩, fun hb => ?_⟩
        exact hb.1.resolve_left hb.2) rfl rfl ha h0
    obtain ⟨p', hp', hacc⟩ := ih step rfl
    refine ⟨p', ?_, hacc⟩
    rw [RefPool.hold, if_pos h0]
    exact hp'

/-- **Acquiring** a non-negative number of handles: they were free, there are as
many as asked for, and they are owed from now on. -/
theorem acquire {n : ℤ} (h : p.Accounts univ owed) (hn : 0 ≤ n)
    (ha : RefPool.acquire n p = some (as, p')) :
    p'.Accounts univ (owed + (as : Multiset α)) ∧ p.queue = as ++ p'.queue ∧
      (as.length : ℤ) = n := by
  have key : RefPool.popN n p = some (as, { p with
      queue := p.queue.drop n.toNat, numFree := p.numFree - n }) ∧ as = p.queue.take n.toNat ∧
      n.toNat ≤ p.queue.length := by
    simp only [RefPool.acquire, Option.bind_eq_some_iff, Option.map_eq_some_iff] at ha
    obtain ⟨⟨bs, q⟩, hpop, _, -, heq⟩ := ha
    simp only [Prod.mk.injEq] at heq
    obtain ⟨rfl, -⟩ := heq
    simp only [popN] at hpop ⊢
    split at hpop
    · next h0 =>
      subst h0
      simp only [Option.some.injEq, Prod.mk.injEq] at hpop
      obtain ⟨rfl, -⟩ := hpop
      simp
    · next h0 =>
      split at hpop
      · exact absurd hpop (by simp)
      · next hfree =>
        simp only [Option.some.injEq, Prod.mk.injEq] at hpop
        obtain ⟨rfl, -⟩ := hpop
        rw [if_neg h0, if_neg hfree]
        exact ⟨rfl, rfl, by omega⟩
  obtain ⟨hpop, hbs, hle⟩ := key
  have hsplit : p.queue = as ++ p.queue.drop n.toNat := by rw [hbs, take_append_drop]
  obtain ⟨q, hq, hacc⟩ := h.hold (k := p.numFree - n) hsplit (by
    rw [h.numFree_eq, length_drop]; omega)
  simp only [RefPool.acquire, hpop, Option.bind_some, hq, Option.map_some, Option.some.injEq,
    Prod.mk.injEq, true_and] at ha
  subst ha
  refine ⟨hacc, ?_, ?_⟩
  · rw [hold_queue hq]; exact hsplit
  · rw [hbs, length_take]; omega

/-- **Releasing** owed references: what is left is still accounted for. -/
theorem release [DecidablePred null] (hnull : ∀ a ∈ univ, ¬ null a) (first : α → Bool)
    (h : p.Accounts univ (owed + reals null as)) :
    (p.release null first as).Accounts univ owed := by
  have hcount : ∀ a ∈ univ, decrAll p.refCnt as a = owed.count a := by
    intro a ha
    rw [decrAll_apply, h.refCnt_eq a ha, Multiset.count_add, count_reals (hnull a ha)]
    omega
  have hz : ∀ a, a ∈ zeroed null p.refCnt as →
      a ∈ univ ∧ decrAll p.refCnt as a = 0 ∧ p.refCnt a ≠ 0 := by
    intro a ha
    obtain ⟨h1, h2, h3⟩ := mem_zeroed.1 ha
    have hmem : a ∈ as := count_pos_iff.1 (by omega)
    have hu : a ∈ univ :=
      h.owed_mem a (Multiset.mem_add.2 (Or.inr (mem_reals.2 ⟨hmem, h3⟩)))
    have := hcount a hu
    rw [decrAll_apply] at this ⊢
    exact ⟨hu, by omega, by omega⟩
  have hperm := filter_append_filter_perm first (zeroed null p.refCnt as) p.queue
  refine ⟨fun a ha => h.owed_mem a (by simp [ha]), hcount, ?_, fun a => ?_, ?_⟩
  · refine hperm.nodup_iff.2 (nodup_append.2 ⟨nodup_zeroed _ _, h.nodup, ?_⟩)
    rintro a ha b hb rfl
    exact (hz a ha).2.2 ((h.mem_queue a).1 hb).2
  · refine hperm.mem_iff.trans ?_
    rw [mem_append, h.mem_queue]
    constructor
    · rintro (ha | ⟨hu, h0⟩)
      · exact ⟨(hz a ha).1, (hz a ha).2.1⟩
      · refine ⟨hu, ?_⟩
        have h1 := hcount a hu
        have h2 := decrAll_apply p.refCnt as a
        simp only [RefPool.release]
        omega
    · rintro ⟨hu, h0⟩
      simp only [RefPool.release] at h0
      by_cases hp : p.refCnt a = 0
      · exact Or.inr ⟨hu, hp⟩
      · refine Or.inl (mem_zeroed.2 ?_)
        have h1 := h.refCnt_nonneg hu
        rw [decrAll_apply] at h0
        exact ⟨by omega, by omega, hnull a hu⟩
  · have hlen := hperm.length_eq
    simp only [RefPool.release]
    rw [hlen, length_append, h.numFree_eq]
    omega

end Accounts

end RefPool

end KVarN.Lib
