import KVarN.Worker.RowData

/-!
# Who sits in which row

Next to the batch stand its tenants: the requests that were added and not removed, with their
speculative tokens. `Seated` says that the rows belong to the tenants: the two directions of
the index agree, every occupied row holds the data of its own tenant, vacant rows have no
entry left in the dictionaries that are keyed by rows, and the LoRA sets list the tenants of
each adapter. Between removals and `condense` there may be holes; they are the removed rows
that the builder still lists.

## Main definitions

* `Tenants`, `nextTenants` — the requests of the batch.
* `InputBatch.Seated` — the invariant.
* `InputBatch.Holes`, `InputBatch.Packed` — the vacant rows before and after `condense`.

## Main results

* `InputBatch.Seated.removeRequest`, `InputBatch.Seated.addRequest`,
  `InputBatch.Seated.updateReqSpecTokenIds` — the operations before `condense` keep the
  invariant.
-/

namespace KVarN.Worker

open KVarN.Lib Function Dict Row LoRARequest List Equiv
open KVarN.Core (orRaise assert)

/-! ## Lists -/

section Lists

variable {α : Type} {l : List α} {d x : α} {i j n : ℕ}

theorem getD_set : (l.set i x).getD j d = if j = i ∧ i < l.length then x else l.getD j d := by
  simp only [getD_eq_getElem?_getD, getElem?_set]
  by_cases hij : i = j
  · subst hij
    by_cases hi : i < l.length
    · simp [hi]
    · simp [hi]
  · simp [hij, Ne.symm hij]

theorem getD_append_singleton : (l ++ [x]).getD j d = if j = l.length then x else l.getD j d := by
  simp only [getD_eq_getElem?_getD]
  rcases lt_trichotomy j l.length with hj | rfl | hj
  · rw [getElem?_append_left hj, if_neg hj.ne]
  · simp
  · rw [if_neg hj.ne', getElem?_eq_none (by simp; omega), getElem?_eq_none hj.le]

theorem getD_take : (l.take n).getD j d = if j < n then l.getD j d else d := by
  simp only [getD_eq_getElem?_getD, getElem?_take]
  split_ifs <;> rfl

theorem getD_swapItems (hi : i < l.length) (hj : j < l.length) (k : ℕ) :
    (InputBatch.swapItems l i j d).getD k d = l.getD (Equiv.swap i j k) d := by
  rw [InputBatch.swapItems, getD_set, getD_set, length_set]
  by_cases hkj : k = j
  · simp [hkj, hj]
  · by_cases hki : k = i
    · have hij : i ≠ j := fun h => hkj (hki.trans h)
      simp [hki, hi, hij]
    · simp [hki, hkj, swap_apply_of_ne_of_ne]

end Lists

/-! ## The tenants -/

/-- The requests of the batch. -/
abbrev Tenants := ReqId → Option Tenant

/-- The requests after an operation. -/
def nextTenants (T : Tenants) : BatchOp → Tenants
  | .remove id => update T id none
  | .add request => update T request.reqId (some ⟨request, []⟩)
  | .spec id tokens => update T id ((T id).map fun t => { t with spec := tokens })
  | .condense => T
  | .swap _ _ => T

namespace InputBatch

/-- The request in a row. -/
def idAt (b : InputBatch) (i : ℕ) : Option ReqId := b.reqIds.getD i none

/-- **The rows belong to the tenants.** -/
structure Seated (cfg : BatchConfig) (T : Tenants) (b : InputBatch) : Prop where
  index : ∀ id i, b.reqIdToIndex.get? id = some i ↔ b.idAt i = some id
  tenants : ∀ id, b.reqIdToIndex.get? id = none ↔ T id = none
  named : ∀ id t, T id = some t → t.request.reqId = id
  fits : ∀ id t, T id = some t → t.request.Fits cfg ∧ t.activeTokens ≤ cfg.maxModelLen
  own : ∀ i id t, b.idAt i = some id → T id = some t → b.spec i = t.spec ∧ (b.rows i).Holds cfg t
  vacant : ∀ i, b.idAt i = none → (b.rows i).Cleared cfg ∧ b.spec i = []
  tables : ∀ i, (b.rows i).blockTable.length = cfg.blockTables.length
  spare : b.reqIds.length ≤ b.specTokenIds.length
  room : b.reqIds.length ≤ cfg.maxNumReqs
  outputs : b.reqOutputTokenIds.length = b.reqIds.length
  loras : ∀ L id, id ∈ (b.loraIdToRequestIds.get? L).getD ∅ ↔
    ∃ t, T id = some t ∧ t.request.loraRequest.map loraIntId = some L
  loraKeys : ∀ L, b.loraIdToRequestIds.get? L ≠ some ∅
  loraRequests : ∀ L, b.loraIdToLoraRequest.get? L = none ↔ b.loraIdToRequestIds.get? L = none

/-- The holes are the removed rows that were not refilled. -/
structure Holes (b : InputBatch) : Prop where
  nodup : b.batchUpdateBuilder.removed.Nodup
  sorted : b.batchUpdateBuilder.isRemovedSorted = true →
    b.batchUpdateBuilder.removed.Pairwise (· ≥ ·)
  iff : ∀ i, i ∈ b.batchUpdateBuilder.removed ↔ i < b.reqIds.length ∧ b.idAt i = none

/-- No row is vacant. -/
def Packed (b : InputBatch) : Prop := ∀ i < b.reqIds.length, b.idAt i ≠ none

variable {cfg : BatchConfig} {T : Tenants} {b b' : InputBatch} {id : ReqId} {i j : ℕ} {t : Tenant}

theorem idAt_lt (h : b.idAt i = some id) : i < b.reqIds.length := by
  by_contra hi
  rw [idAt, getD_eq_default _ _ (not_lt.1 hi)] at h
  cases h

section

variable (h : b.Seated cfg T)

include h

theorem Seated.exists_tenant (hi : b.idAt i = some id) : ∃ t, T id = some t := by
  rw [← Option.ne_none_iff_exists']
  intro hnone
  have hget := (h.index id i).2 hi
  rw [(h.tenants id).2 hnone] at hget
  cases hget

theorem Seated.idAt_inj (hi : b.idAt i = some id) (hj : b.idAt j = some id) : i = j :=
  Option.some.inj (((h.index id i).2 hi).symm.trans ((h.index id j).2 hj))

/-! ### Counting rows -/

/-- The rows with a request are those of the index. -/
theorem Seated.perm_values : b.reqIdToIndex.values.Perm
      ((range b.reqIds.length).filter fun i => (b.idAt i).isSome) := by
  have hnodup : b.reqIdToIndex.values.Nodup := by
    refine List.Nodup.map_on (fun e he e' he' heq => ?_) (List.Nodup.of_map _ b.reqIdToIndex.nodup)
    have hget := get?_eq_some_iff.2 he
    have hget' := get?_eq_some_iff.2 he'
    rw [heq] at hget
    have hid := ((h.index _ _).1 hget).symm.trans ((h.index _ _).1 hget')
    exact Prod.ext (Option.some.inj hid) heq
  refine (perm_ext_iff_of_nodup hnodup (nodup_range.filter _)).2 fun i => ?_
  rw [mem_values_iff, mem_filter, mem_range, Option.isSome_iff_exists]
  constructor
  · rintro ⟨id, hid⟩
    have hat := (h.index id i).1 hid
    exact ⟨idAt_lt hat, id, hat⟩
  · rintro ⟨-, id, hid⟩
    exact ⟨id, (h.index id i).2 hid⟩

theorem Seated.numReqs_eq :
    b.numReqs = ((range b.reqIds.length).filter fun i => (b.idAt i).isSome).length := by
  rw [numReqs, ← length_values, h.perm_values.length_eq]

theorem Seated.numReqs_of_packed (hpacked : b.Packed) : b.numReqs = b.reqIds.length := by
  rw [h.numReqs_eq, filter_eq_self.2, length_range]
  intro i hi
  rw [Option.isSome_iff_ne_none]
  exact hpacked i (mem_range.1 hi)

theorem Seated.length_of_holes (hholes : b.Holes) :
    b.reqIds.length = b.numReqs + b.batchUpdateBuilder.removed.length := by
  have hperm : b.batchUpdateBuilder.removed.Perm
      ((range b.reqIds.length).filter fun i => !(b.idAt i).isSome) := by
    refine (perm_ext_iff_of_nodup hholes.nodup (nodup_range.filter _)).2 fun i => ?_
    rw [hholes.iff, mem_filter, mem_range]
    simp
  have hcount := length_eq_length_filter_add (l := range b.reqIds.length)
    fun i => (b.idAt i).isSome
  rw [length_range] at hcount
  rw [h.numReqs_eq, hperm.length_eq]
  exact hcount

end

theorem Holes.packed (hholes : b.Holes) (hnil : b.batchUpdateBuilder.removed = []) : b.Packed := by
  intro i hi hnone
  have hmem := (hholes.iff i).2 ⟨hi, hnone⟩
  rw [hnil] at hmem
  cases hmem

/-! ### Removals -/

/-- A tenant leaves the set of its adapter. -/
theorem Seated.discardLora (h : b.Seated cfg T) (ht : T id = some t) :
    ∃ ls rs, b.discardLora id t.request.loraId = .ok (ls, rs) ∧ (∀ L id', id' ∈ (ls.get? L).getD ∅ ↔
        id' ≠ id ∧ id' ∈ (b.loraIdToRequestIds.get? L).getD ∅) ∧
      (∀ L, ls.get? L ≠ some ∅) ∧ ∀ L, rs.get? L = none ↔ ls.get? L = none := by
  rw [InputBatch.discardLora, CachedRequestState.loraId]
  rcases hl : t.request.loraRequest with _ | l
  · refine ⟨_, _, rfl, fun L id' => ⟨fun hin => ⟨?_, hin⟩, And.right⟩, h.loraKeys, h.loraRequests⟩
    rintro rfl
    obtain ⟨t', ht', hL⟩ := (h.loras L id').1 hin
    rw [ht] at ht'
    cases ht'
    rw [hl] at hL
    cases hL
  have hin : id ∈ (b.loraIdToRequestIds.get? l.loraIntId).getD ∅ :=
    (h.loras l.loraIntId id).2 ⟨t, ht, by rw [hl]; rfl⟩
  have hother : ∀ L ≠ l.loraIntId, id ∉ (b.loraIdToRequestIds.get? L).getD ∅ := by
    intro L hL hmem
    obtain ⟨t', ht', hL'⟩ := (h.loras L id).1 hmem
    rw [ht] at ht'
    cases ht'
    rw [hl] at hL'
    exact hL (Option.some.inj hL').symm
  obtain ⟨reqs, hreqs⟩ : ∃ reqs, b.loraIdToRequestIds.get? l.loraIntId = some reqs := by
    rw [← Option.ne_none_iff_exists']
    intro hnone
    rw [hnone] at hin
    simp at hin
  obtain ⟨lr, hlr⟩ : ∃ lr, b.loraIdToLoraRequest.get? l.loraIntId = some lr := by
    rw [← Option.ne_none_iff_exists', Ne, h.loraRequests, hreqs]
    simp
  rw [hreqs, Option.getD_some] at hin
  have hmem : ∀ (ls : Dict ℕ (Finset ReqId)),
      (∀ L, (ls.get? L).getD ∅ = if L = l.loraIntId then reqs.erase id
        else (b.loraIdToRequestIds.get? L).getD ∅) →
      ∀ L id', id' ∈ (ls.get? L).getD ∅ ↔
        id' ≠ id ∧ id' ∈ (b.loraIdToRequestIds.get? L).getD ∅ := by
    intro ls hls L id'
    rw [hls L]
    split_ifs with hL
    · rw [hL, hreqs, Option.getD_some, Finset.mem_erase]
    · refine ⟨fun hid' => ⟨?_, hid'⟩, And.right⟩
      rintro rfl
      exact hother L hL hid'
  simp only [Option.map_some, Option.getD_some, if_neg l.pos.ne', hreqs, hlr, orRaise, ok_bind,
    pure_eq_ok]
  by_cases hrest : reqs.erase id = ∅
  · rw [if_pos hrest]
    refine ⟨_, _, rfl, hmem _ fun L => ?_, fun L => ?_, fun L => ?_⟩
    · rw [get?_pop]
      split_ifs with hL
      · rw [Option.getD_none, hrest]
      · rfl
    · rw [get?_pop]
      split_ifs
      · simp
      · exact h.loraKeys L
    · rw [get?_pop, get?_pop]
      split_ifs
      · simp
      · exact h.loraRequests L
  · rw [if_neg hrest]
    refine ⟨_, _, rfl, hmem _ fun L => ?_, fun L => ?_, fun L => ?_⟩
    · rw [get?_set]
      split_ifs with hL
      · rw [Option.getD_some]
      · rfl
    · rw [get?_set]
      split_ifs
      · exact fun h => hrest (Option.some.inj h)
      · exact h.loraKeys L
    · rw [get?_set, h.loraRequests L]
      split_ifs with hL
      · simp [hL, hreqs]
      · exact Iff.rfl

/-- What removing the request of a row does. -/
structure RemoveEffect (cfg : BatchConfig) (id : ReqId) (i : ℕ) (b b' : InputBatch) : Prop where
  idAt : ∀ k, b'.idAt k = if k = i then none else b.idAt k
  spec : ∀ k, b'.spec k = if k = i then [] else b.spec k
  index : ∀ id', b'.reqIdToIndex.get? id' = if id' = id then none else b.reqIdToIndex.get? id'
  rows : b'.rows = update b.rows i ((b.rows i).unload cfg b.maskAllocated)
  length : b'.reqIds.length = b.reqIds.length
  specLength : b'.specTokenIds.length = b.specTokenIds.length
  outputLength : b'.reqOutputTokenIds.length = b.reqOutputTokenIds.length
  maskAllocated : b'.maskAllocated = b.maskAllocated
  removed : b'.batchUpdateBuilder.removed = b.batchUpdateBuilder.removed ++ [i]
  unsorted : b'.batchUpdateBuilder.isRemovedSorted = false
  added : b'.batchUpdateBuilder.added = b.batchUpdateBuilder.added
  moved : b'.batchUpdateBuilder.moved = b.batchUpdateBuilder.moved

/-- **Removing a request**: a request that is not there, or the one of some row. -/
theorem Seated.removeRequest_effect (h : b.Seated cfg T)
    (hsorted : b.batchUpdateBuilder.isRemovedSorted = false) (id : ReqId) :
    (b.removeRequest cfg id = .ok b ∧ T id = none) ∨
    ∃ i t b', b.removeRequest cfg id = .ok b' ∧ b.idAt i = some id ∧ T id = some t ∧
      RemoveEffect cfg id i b b' ∧ (∀ L id', id' ∈ (b'.loraIdToRequestIds.get? L).getD ∅ ↔
        id' ≠ id ∧ id' ∈ (b.loraIdToRequestIds.get? L).getD ∅) ∧
      (∀ L, b'.loraIdToRequestIds.get? L ≠ some ∅) ∧
      ∀ L, b'.loraIdToLoraRequest.get? L = none ↔ b'.loraIdToRequestIds.get? L = none := by
  rw [InputBatch.removeRequest]
  rcases hget : b.reqIdToIndex.get? id with _ | i
  · exact Or.inl ⟨rfl, (h.tenants id).1 hget⟩
  have hat := (h.index id i).1 hget
  have hlt := idAt_lt hat
  obtain ⟨t, ht⟩ := h.exists_tenant hat
  obtain ⟨ls, rs, hlora, hloras⟩ := h.discardLora ht
  rw [← (h.own i id t hat ht).2.lora] at hlora
  simp only [BatchUpdateBuilder.removedAppend, hsorted, Bool.false_eq_true, if_false, ok_bind,
    hlora, pure_eq_ok]
  refine Or.inr ⟨i, t, _, rfl, hat, ht, ⟨fun k => ?_, fun k => ?_, fun id' => get?_pop _ _ _,
    rfl, length_set, length_set, length_set, rfl, rfl, rfl, rfl, rfl⟩, hloras⟩
  · rw [idAt, getD_set]
    by_cases hk : k = i <;> simp [hk, hlt, idAt]
  · rw [spec, getD_set]
    by_cases hk : k = i <;> simp [hk, hlt.trans_le h.spare, spec]

theorem update_none_eq_some {id' : ReqId} :
    update T id none id' = some t ↔ id' ≠ id ∧ T id' = some t := by
  rw [update_apply]
  split_ifs with hid <;> simp [hid]

/-- **Removing a request** makes its row a hole. -/
theorem Seated.removeRequest (h : b.Seated cfg T) (hholes : b.Holes)
    (hsorted : b.batchUpdateBuilder.isRemovedSorted = false) (id : ReqId) :
    ∃ b', b.removeRequest cfg id = .ok b' ∧ b'.Seated cfg (update T id none) ∧
      b'.Holes ∧ b'.batchUpdateBuilder.isRemovedSorted = false := by
  rcases h.removeRequest_effect hsorted id with ⟨hok, hnone⟩ |
    ⟨i, t, b', hok, hat, ht, e, hls, hkeys, hrs⟩
  · refine ⟨b, hok, ?_, hholes, hsorted⟩
    rw [← hnone, update_eq_self]
    exact h
  have hlt := idAt_lt hat
  have hne : ∀ k id', k ≠ i → b.idAt k = some id' → id' ≠ id := by
    rintro k id' hk hk' rfl
    exact hk (h.idAt_inj hk' hat)
  have htables : ((b.rows i).unload cfg b.maskAllocated).blockTable.length =
      (b.rows i).blockTable.length := by
    rw [unload]
    split_ifs <;> exact length_map _
  refine ⟨b', hok, ⟨fun id' k => ?_, fun id' => ?_, fun id' t' ht' => ?_, fun id' t' ht' => ?_,
    fun k id' t' hk ht' => ?_, fun k hk => ?_, fun k => ?_, ?_, ?_, ?_, fun L id' => ?_,
    hkeys, hrs⟩,
    ⟨?_, fun hs => ?_, fun k => ?_⟩, e.unsorted⟩
  · rw [e.index, e.idAt]
    split_ifs with h1 h2 h2
    · simp
    · simpa [h1] using fun hk => hne k id h2 hk rfl
    · subst h2
      rw [h.index, hat]
      simpa using Ne.symm h1
    · exact h.index id' k
  · rw [e.index, update_apply]
    split_ifs
    · simp
    · exact h.tenants id'
  · exact h.named id' t' (update_none_eq_some.1 ht').2
  · exact h.fits id' t' (update_none_eq_some.1 ht').2
  · rw [e.idAt] at hk
    split_ifs at hk with hki
    rw [e.spec, e.rows, if_neg hki, update_of_ne hki]
    exact h.own k id' t' hk (update_none_eq_some.1 ht').2
  · rw [e.idAt] at hk
    rw [e.spec, e.rows, update_apply]
    split_ifs at hk ⊢ with hki
    · refine ⟨fun hpool => ?_, rfl⟩
      rw [unload]
      simp [hpool]
    · exact h.vacant k hk
  · rw [e.rows, update_apply]
    split_ifs with hk
    · rw [htables]
      exact h.tables i
    · exact h.tables k
  · rw [e.length, e.specLength]
    exact h.spare
  · rw [e.length]
    exact h.room
  · rw [e.outputLength, e.length]
    exact h.outputs
  · rw [hls, h.loras]
    simp only [update_none_eq_some, and_assoc, exists_and_left]
  · have hnot : i ∉ b.batchUpdateBuilder.removed := by
      rw [hholes.iff, hat]
      simp
    rw [e.removed, ← concat_eq_append]
    exact hholes.nodup.concat hnot
  · rw [e.unsorted] at hs
    cases hs
  · rw [e.removed, mem_append, mem_singleton, hholes.iff, e.idAt, e.length]
    split_ifs with hk
    · simp [hk, hlt]
    · simp [hk]

end InputBatch

open InputBatch

/-! ### The lowest vacant row -/

namespace BatchUpdateBuilder

variable {u : BatchUpdateBuilder}

/-- The removed rows are without repetition and in the order that the flag promises. -/
structure Ordered (u : BatchUpdateBuilder) : Prop where
  nodup : u.removed.Nodup
  sorted : u.isRemovedSorted = true → u.removed.Pairwise (· ≥ ·)

/-- Sorting changes the order only. -/
theorem Ordered.ensureRemovedSorted (h : u.Ordered) : u.ensureRemovedSorted.removed.Perm u.removed ∧
      u.ensureRemovedSorted.removed.Pairwise (· ≥ ·) ∧
      u.ensureRemovedSorted.isRemovedSorted = true ∧
      u.ensureRemovedSorted.added = u.added ∧ u.ensureRemovedSorted.moved = u.moved := by
  rw [BatchUpdateBuilder.ensureRemovedSorted]
  split_ifs with hs
  · exact ⟨List.Perm.refl _, h.sorted hs, hs, rfl, rfl⟩
  · exact ⟨perm_insertionSort _ _, pairwise_insertionSort _ _, rfl, rfl, rfl⟩

/-- What popping a removed row does. -/
structure PopEffect (i : ℕ) (u u' : BatchUpdateBuilder) : Prop where
  mem : i ∈ u.removed
  lowest : ∀ k ∈ u.removed, i ≤ k
  removed : ∀ k, k ∈ u'.removed ↔ k ∈ u.removed ∧ k ≠ i
  length : u.removed.length = u'.removed.length + 1
  ordered : u'.Ordered
  sorted : u'.isRemovedSorted = true
  added : u'.added = u.added
  moved : u'.moved = u.moved

/-- **The lowest removed row is popped.** -/
theorem Ordered.popRemoved (h : u.Ordered) (hne : u.removed ≠ []) :
    ∃ i, u.popRemoved = (some i, u.popRemoved.2) ∧ u.peekRemoved = some i ∧
      PopEffect i u u.popRemoved.2 := by
  obtain ⟨hperm, hsorted, hflag, hadded, hmoved⟩ := h.ensureRemovedSorted
  obtain ⟨v, hv⟩ : ∃ v, u.ensureRemovedSorted = v := ⟨_, rfl⟩
  rw [hv] at hperm hsorted hflag hadded hmoved
  have hvne : v.removed ≠ [] := fun hnil => hne (perm_nil.1 (hnil ▸ hperm.symm))
  obtain ⟨l, i, hl⟩ : ∃ l i, v.removed = l ++ [i] :=
    ⟨_, _, (dropLast_append_getLast hvne).symm⟩
  have hpop : u.popRemoved = (some i, { v with removed := l }) := by
    simp only [BatchUpdateBuilder.popRemoved, if_neg hne, hv, hl, getLast?_concat, dropLast_concat]
  have hnodup : (l ++ [i]).Nodup := hl ▸ hperm.nodup_iff.2 h.nodup
  have hmem : ∀ k, k ∈ u.removed ↔ k ∈ l ∨ k = i := by
    intro k
    rw [← hperm.mem_iff, hl, mem_append, mem_singleton]
  rw [hl] at hsorted
  have hnot : i ∉ l := fun hi => disjoint_of_nodup_append hnodup hi (mem_singleton_self i)
  refine ⟨i, by rw [hpop], ?_, ?_⟩
  · rw [peekRemoved, hv, hl, getLast?_concat]
  rw [hpop]
  refine ⟨(hmem i).2 (Or.inr rfl), fun k hk => ?_, fun k => ?_, ?_,
    ⟨(nodup_append.1 hnodup).1, fun _ => (pairwise_append.1 hsorted).1⟩, hflag, hadded,
    hmoved⟩
  · rcases (hmem k).1 hk with hk | rfl
    · exact (pairwise_append.1 hsorted).2.2 k hk i (mem_singleton_self i)
    · exact le_rfl
  · rw [hmem]
    constructor
    · intro hk
      exact ⟨Or.inl hk, fun hki => hnot (hki ▸ hk)⟩
    · rintro ⟨hk | hk, hki⟩
      · exact hk
      · exact absurd hk hki
  · rw [← hperm.length_eq, hl, length_append, length_singleton]

end BatchUpdateBuilder

namespace InputBatch

variable {cfg : BatchConfig} {T : Tenants} {b b' : InputBatch} {id : ReqId} {i j : ℕ} {t : Tenant}
  {request : CachedRequestState}

/-! ### Additions -/

/-- The row of the next request: the lowest removed row, or the one behind the last. -/
def nextRow (b : InputBatch) : ℕ := b.batchUpdateBuilder.popRemoved.1.getD b.numReqs

/-- What the processors are told about a request. -/
def addedOf (request : CachedRequestState) : Option AddedRequest :=
  request.samplingParams.map fun p => ⟨p, request.promptTokenIds, request.outputTokenIds⟩

/-- What adding a request to a row does. -/
structure AddEffect (cfg : BatchConfig) (request : CachedRequestState) (i : ℕ)
    (b b' : InputBatch) : Prop where
  row : i = b.nextRow
  vacant : b.idAt i = none
  idAt : ∀ k, b'.idAt k = if k = i then some request.reqId else b.idAt k
  spec : ∀ k, b'.spec k = if k = i then [] else b.spec k
  index : ∀ id', b'.reqIdToIndex.get? id' =
    if id' = request.reqId then some i else b.reqIdToIndex.get? id'
  rows : ∃ row, Row.Loaded cfg request (b.rows i) row ∧ b'.rows = update b.rows i row
  length : b'.reqIds.length = max b.reqIds.length (i + 1)
  specLength : b'.specTokenIds.length = b.specTokenIds.length + (b'.reqIds.length - b.reqIds.length)
  outputLength : b'.reqOutputTokenIds.length =
    b.reqOutputTokenIds.length + (b'.reqIds.length - b.reqIds.length)
  lt : i < cfg.maxNumReqs
  le : i ≤ b.reqIds.length
  maskAllocated : b'.maskAllocated = (b.maskAllocated || needsMask request)
  removed : ∀ k, k ∈ b'.batchUpdateBuilder.removed ↔ k ∈ b.batchUpdateBuilder.removed ∧ k ≠ i
  ordered : b'.batchUpdateBuilder.Ordered
  added : b'.batchUpdateBuilder.added =
    b.batchUpdateBuilder.added ++ (addedOf request).toList.map (Prod.mk i)
  moved : b'.batchUpdateBuilder.moved = b.batchUpdateBuilder.moved
  loras : b'.loraIdToRequestIds = match request.loraRequest with
    | some l => b.loraIdToRequestIds.set l.loraIntId
        (insert request.reqId ((b.loraIdToRequestIds.get? l.loraIntId).getD ∅))
    | none => b.loraIdToRequestIds
  loraRequests : b'.loraIdToLoraRequest = match request.loraRequest with
    | some l => b.loraIdToLoraRequest.set l.loraIntId l
    | none => b.loraIdToLoraRequest

theorem Holes.ordered (h : b.Holes) : b.batchUpdateBuilder.Ordered := ⟨h.nodup, h.sorted⟩

/-- A new request gets the lowest hole, or a row behind the last one. -/
theorem Seated.registerAddRequest (h : b.Seated cfg T) (hholes : b.Holes)
    (hroom : b.numReqs < cfg.maxNumReqs) (request : CachedRequestState) :
    ∃ i u, b.registerAddRequest cfg request = .ok (i, u) ∧ i = b.nextRow ∧ b.idAt i = none ∧
      i < cfg.maxNumReqs ∧ i ≤ b.reqIds.length ∧
      (∀ k, k ∈ u.removed ↔ k ∈ b.batchUpdateBuilder.removed ∧ k ≠ i) ∧ u.Ordered ∧
      u.added = b.batchUpdateBuilder.added ++ (addedOf request).toList.map (Prod.mk i) ∧
      u.moved = b.batchUpdateBuilder.moved := by
  obtain ⟨i, u, hpop, hidAt, hmax, hle, hremoved, hordered, hadded, hmoved⟩ : ∃ i u,
      ((b.batchUpdateBuilder.popRemoved.1.getD b.numReqs) = i ∧
        b.batchUpdateBuilder.popRemoved.2 = u) ∧ b.idAt i = none ∧ i < cfg.maxNumReqs ∧
      i ≤ b.reqIds.length ∧
      (∀ k, k ∈ u.removed ↔ k ∈ b.batchUpdateBuilder.removed ∧ k ≠ i) ∧ u.Ordered ∧
      u.added = b.batchUpdateBuilder.added ∧ u.moved = b.batchUpdateBuilder.moved := by
    by_cases hnil : b.batchUpdateBuilder.removed = []
    · have hnum := h.numReqs_of_packed (hholes.packed hnil)
      have hpop : b.batchUpdateBuilder.popRemoved = (none, b.batchUpdateBuilder) := if_pos hnil
      refine ⟨b.numReqs, b.batchUpdateBuilder, by rw [hpop]; exact ⟨rfl, rfl⟩, ?_, hroom, hnum.le,
        fun k => by simp [hnil], hholes.ordered, rfl, rfl⟩
      rw [idAt, getD_eq_default _ _ hnum.ge]
    · obtain ⟨i, hpop, -, e⟩ := hholes.ordered.popRemoved hnil
      obtain ⟨hlt, hnone⟩ := (hholes.iff i).1 e.mem
      exact ⟨i, _, ⟨by rw [hpop]; rfl, rfl⟩, hnone, hlt.trans_le h.room, hlt.le, e.removed,
        e.ordered, e.added, e.moved⟩
  simp only [InputBatch.registerAddRequest, hpop.1, hpop.2, assert, if_pos hmax, ok_bind,
    pure_eq_ok, addedOf]
  rcases hp : request.samplingParams with _ | p
  · exact ⟨i, _, rfl, hpop.1.symm, hidAt, hmax, hle, hremoved,
      ⟨hordered.nodup, hordered.sorted⟩, by simpa using hadded, hmoved⟩
  · exact ⟨i, _, rfl, hpop.1.symm, hidAt, hmax, hle, hremoved, ⟨hordered.nodup, hordered.sorted⟩,
      by simp [hadded], hmoved⟩

/-- **Adding a request** loads it into a vacant row. -/
theorem Seated.addRequest_effect (h : b.Seated cfg T) (hholes : b.Holes)
    (hfits : request.Fits cfg) (hroom : b.numReqs < cfg.maxNumReqs) :
    ∃ i b', b.addRequest cfg request = .ok b' ∧ AddEffect cfg request i b b' := by
  obtain ⟨i, u, hreg, hrow, hidAt, hmax, hle, hremoved, hordered, hadded, hmoved⟩ :=
    h.registerAddRequest hholes hroom request
  obtain ⟨row₁, row', hload, hparams, hloaded⟩ :=
    load_spec hfits (h.tables i) (h.vacant i hidAt).1
  have hspare := h.spare
  simp only [addRequest, hreg, hload, hparams, ok_bind, pure_eq_ok]
  refine ⟨i, _, rfl, ⟨hrow, hidAt, fun k => ?_, fun k => ?_, fun id' => get?_set _ _ _ _,
    ⟨row', hloaded, rfl⟩, ?_, ?_, ?_, hmax, hle, rfl, hremoved, hordered, hadded, hmoved, rfl, rfl⟩⟩
  all_goals by_cases hi : i = b.reqIds.length
  · rw [idAt, if_pos hi, getD_append_singleton, hi]
    rfl
  · rw [idAt, if_neg hi, getD_set, idAt]
    by_cases hk : k = i <;> simp [hk]
    omega
  · -- the list of the row is already there, and empty
    have hspec := (h.vacant i hidAt).2
    rw [spec] at hspec ⊢
    rw [if_pos hi, getD_append_singleton, spec]
    by_cases hk : k = i
    · rw [if_pos hk, hk, hspec, ite_self]
    · rw [if_neg hk]
      split_ifs with hlen
      · rw [hlen, getD_eq_default _ _ le_rfl]
      · rfl
  · rw [spec, if_neg hi, getD_set, spec]
    by_cases hk : k = i <;> simp [hk]
    omega
  · rw [if_pos hi, length_append, length_singleton]
    omega
  · rw [if_neg hi, length_set]
    omega
  · rw [if_pos hi]
    simp
  · rw [if_neg hi]
    simp
  · rw [if_pos hi]
    simp
  · rw [if_neg hi]
    simp

variable {tokens : List ℤ}

theorem update_some_eq_some {id' : ReqId} {t' : Tenant} : update T id (some t) id' = some t' ↔
      id' = id ∧ t = t' ∨ id' ≠ id ∧ T id' = some t' := by
  rw [update_apply]
  split_ifs with hid <;> simp [hid]

/-- The sets of the adapters after a request was added. -/
theorem Seated.addLora (h : b.Seated cfg T) (hT : T request.reqId = none)
    (e : AddEffect cfg request i b b') (L : ℕ) (id' : ReqId) :
    id' ∈ (b'.loraIdToRequestIds.get? L).getD ∅ ↔
      ∃ t, update T request.reqId (some ⟨request, []⟩) id' = some t ∧
        t.request.loraRequest.map loraIntId = some L := by
  have hold := h.loras L id'
  have hnew : (∃ t, update T request.reqId (some ⟨request, []⟩) id' = some t ∧
      t.request.loraRequest.map loraIntId = some L) ↔
      id' = request.reqId ∧ request.loraRequest.map loraIntId = some L ∨
        id' ∈ (b.loraIdToRequestIds.get? L).getD ∅ := by
    rw [hold]
    by_cases hid : id' = request.reqId
    · subst hid
      simp [hT]
    · simp [hid]
  rw [hnew, e.loras]
  rcases request.loraRequest with _ | l
  · simp
  · dsimp only
    rw [get?_set]
    split_ifs with hL
    · simp [hL]
    · simp [Ne.symm hL]

/-- **Adding a request** that fits. -/
theorem Seated.addRequest (h : b.Seated cfg T) (hholes : b.Holes)
    (hnew : b.reqIdToIndex.get? request.reqId = none) (hfits : request.Fits cfg)
    (hroom : b.numReqs < cfg.maxNumReqs) : ∃ b', b.addRequest cfg request = .ok b' ∧
      b'.Seated cfg (update T request.reqId (some ⟨request, []⟩)) ∧ b'.Holes := by
  obtain ⟨i, b', hok, e⟩ := h.addRequest_effect hholes hfits hroom
  obtain ⟨row, hloaded, hrows⟩ := e.rows
  have hT := (h.tenants _).1 hnew
  have hne : ∀ k, b.idAt k ≠ some request.reqId := by
    intro k hk
    rw [(h.index _ k).2 hk] at hnew
    cases hnew
  have hlen := e.length
  have hle := e.le
  refine ⟨b', hok, ⟨fun id' k => ?_, fun id' => ?_, fun id' t' ht' => ?_, fun id' t' ht' => ?_,
    fun k id' t' hk ht' => ?_, fun k hk => ?_, fun k => ?_, ?_, ?_, ?_, fun L id' => ?_,
    fun L => ?_, fun L => ?_⟩, ⟨e.ordered.nodup, e.ordered.sorted, fun k => ?_⟩⟩
  · rw [e.index, e.idAt]
    split_ifs with h1 h2 h2
    · simp [h1, h2]
    · simpa [h1, Ne.symm h2] using hne k
    · rw [h.index, h2, e.vacant]
      simpa using Ne.symm h1
    · exact h.index id' k
  · rw [e.index, update_apply]
    split_ifs
    · simp
    · exact h.tenants id'
  · rcases update_some_eq_some.1 ht' with ⟨rfl, rfl⟩ | ⟨-, ht'⟩
    · rfl
    · exact h.named id' t' ht'
  · rcases update_some_eq_some.1 ht' with ⟨rfl, rfl⟩ | ⟨-, ht'⟩
    · exact ⟨hfits, hfits.2.2.1⟩
    · exact h.fits id' t' ht'
  · rw [e.idAt] at hk
    rw [e.spec, hrows, update_apply]
    split_ifs at hk ⊢ with hki
    · obtain rfl := Option.some.inj hk
      rw [update_self] at ht'
      obtain rfl := Option.some.inj ht'
      exact ⟨rfl, hloaded.holds⟩
    · rcases update_some_eq_some.1 ht' with ⟨rfl, -⟩ | ⟨-, ht'⟩
      · exact absurd hk (hne k)
      · exact h.own k id' t' hk ht'
  · rw [e.idAt] at hk
    split_ifs at hk with hki
    rw [e.spec, hrows, if_neg hki, update_of_ne hki]
    exact h.vacant k hk
  · rw [hrows, update_apply]
    split_ifs
    · exact hloaded.tables
    · exact h.tables k
  · rw [e.specLength]
    have hspare := h.spare
    omega
  · have hroom := h.room
    have hlt := e.lt
    omega
  · rw [e.outputLength, h.outputs]
    omega
  · exact h.addLora hT e L id'
  · rw [e.loras]
    rcases request.loraRequest with _ | l
    · exact h.loraKeys L
    · dsimp only
      rw [get?_set]
      split_ifs
      · simp
      · exact h.loraKeys L
  · rw [e.loras, e.loraRequests]
    rcases request.loraRequest with _ | l
    · exact h.loraRequests L
    · dsimp only
      rw [get?_set, get?_set]
      split_ifs
      · simp
      · exact h.loraRequests L
  · rw [e.removed, hholes.iff, e.idAt, hlen]
    split_ifs with hk
    · simp [hk]
    · simp only [hk, not_false_eq_true, and_true, ne_eq]
      refine ⟨fun ⟨hlt, hnone⟩ => ⟨by omega, hnone⟩, fun ⟨hlt, hnone⟩ => ⟨by omega, hnone⟩⟩

/-! ### Speculative tokens -/

/-- What an update of the speculative tokens of a row does. -/
structure SpecEffect (cfg : BatchConfig) (i : ℕ) (tokens : List ℤ) (b b' : InputBatch) :
    Prop where
  reqIds : b'.reqIds = b.reqIds
  spec : ∀ k, b'.spec k = if k = i then tokens else b.spec k
  index : b'.reqIdToIndex = b.reqIdToIndex
  rows : ∃ cells flags, b'.rows = update b.rows i { b.rows i with
      tokenIdsCpu := cells
      isTokenIds := flags } ∧
    (∀ k, cells k = writeSlice (b.rows i).tokenIdsCpu (b.rows i).numTokensNoSpec tokens k) ∧
    ∀ k < (b.rows i).numTokensNoSpec + tokens.length,
      flags k = if k < (b.rows i).numTokensNoSpec then (b.rows i).isTokenIds k else true
  specLength : b'.specTokenIds.length = b.specTokenIds.length
  outputs : b'.reqOutputTokenIds = b.reqOutputTokenIds
  maskAllocated : b'.maskAllocated = b.maskAllocated
  loras : b'.loraIdToRequestIds = b.loraIdToRequestIds
  loraRequests : b'.loraIdToLoraRequest = b.loraIdToLoraRequest
  builder : b'.batchUpdateBuilder = b.batchUpdateBuilder

section

variable (h : b.Seated cfg T) (hget : b.reqIdToIndex.get? id = some i)
  (hfit : (b.rows i).numTokensNoSpec + tokens.length ≤ cfg.maxModelLen)

include h hget hfit

theorem Seated.updateReqSpecTokenIds_effect :
    ∃ b', b.updateReqSpecTokenIds cfg id tokens = .ok b' ∧ SpecEffect cfg i tokens b b' := by
  have hlt := (idAt_lt ((h.index id i).1 hget)).trans_le h.spare
  have hspec : ∀ k, (b.specTokenIds.set i tokens).getD k [] =
      if k = i then tokens else b.spec k := by
    intro k
    rw [getD_set]
    by_cases hk : k = i <;> simp [hk, hlt, spec]
  simp only [updateReqSpecTokenIds, hget, orRaise, ok_bind]
  by_cases hnil : tokens = []
  · subst hnil
    rw [if_pos rfl]
    refine ⟨_, rfl, rfl, hspec, rfl,
      ⟨(b.rows i).tokenIdsCpu, (b.rows i).isTokenIds, ?_, fun k => ?_, fun k hk => ?_⟩,
      length_set, rfl, rfl, rfl, rfl, rfl⟩
    · exact (update_eq_self i b.rows).symm
    · simp [writeSlice]
    · rw [if_pos (by simpa using hk)]
  · rw [if_neg hnil, assignSlice_eq hfit rfl]
    refine ⟨_, rfl, rfl, hspec, rfl, ⟨_, _, rfl, fun k => rfl, fun k hk => ?_⟩, length_set,
      rfl, rfl, rfl, rfl, rfl⟩
    split_ifs with hk'
    · exact fillSlice_of_lt hk'
    · exact fillSlice_of_mem hfit (by omega) hk

/-- **Speculative tokens** stand behind the tokens of the request. -/
theorem Seated.updateReqSpecTokenIds : ∃ b', b.updateReqSpecTokenIds cfg id tokens = .ok b' ∧
    b'.Seated cfg (update T id ((T id).map fun t => { t with spec := tokens })) ∧
      SpecEffect cfg i tokens b b' := by
  obtain ⟨b', hok, e⟩ := h.updateReqSpecTokenIds_effect hget hfit
  have hat := (h.index id i).1 hget
  obtain ⟨t, ht⟩ := h.exists_tenant hat
  obtain ⟨-, hrow⟩ := h.own i id t hat ht
  obtain ⟨cells, flags, hrows, hcells, hflags⟩ := e.rows
  have hidAt : ∀ k, b'.idAt k = b.idAt k := fun k => by rw [idAt, e.reqIds, idAt]
  have hnum := hrow.numTokensNoSpec
  rw [hnum] at hcells hflags hfit
  rw [ht, Option.map_some]
  refine ⟨b', hok, ⟨fun id' k => ?_, fun id' => ?_, fun id' t' ht' => ?_, fun id' t' ht' => ?_,
    fun k id' t' hk ht' => ?_, fun k hk => ?_, fun k => ?_, ?_, ?_, ?_, fun L id' => ?_,
    fun L => ?_, fun L => ?_⟩, e⟩
  · rw [e.index, hidAt]
    exact h.index id' k
  · rw [e.index, update_apply]
    split_ifs with hid
    · simp [hid, hget]
    · exact h.tenants id'
  · rcases update_some_eq_some.1 ht' with ⟨rfl, rfl⟩ | ⟨-, ht'⟩
    · exact h.named _ t ht
    · exact h.named id' t' ht'
  · rcases update_some_eq_some.1 ht' with ⟨rfl, rfl⟩ | ⟨-, ht'⟩
    · exact ⟨(h.fits _ t ht).1, hfit⟩
    · exact h.fits id' t' ht'
  · rw [hidAt] at hk
    rw [e.spec, hrows, update_apply]
    split_ifs with hki
    · subst hki
      obtain rfl : id' = id := Option.some.inj (hk.symm.trans hat)
      rw [update_self] at ht'
      obtain rfl := Option.some.inj ht'
      exact ⟨rfl, hrow.withSpec hcells hflags⟩
    · rcases update_some_eq_some.1 ht' with ⟨rfl, -⟩ | ⟨-, ht'⟩
      · exact absurd (h.idAt_inj hk hat) hki
      · exact h.own k id' t' hk ht'
  · rw [hidAt] at hk
    have hki : k ≠ i := by
      rintro rfl
      rw [hat] at hk
      cases hk
    rw [e.spec, hrows, if_neg hki, update_of_ne hki]
    exact h.vacant k hk
  · rw [hrows, update_apply]
    split_ifs with hki
    · exact h.tables i
    · exact h.tables k
  · rw [e.reqIds, e.specLength]
    exact h.spare
  · rw [e.reqIds]
    exact h.room
  · rw [e.outputs, e.reqIds]
    exact h.outputs
  · rw [e.loras, h.loras]
    by_cases hid : id' = id
    · subst hid
      simp [ht]
    · simp [hid]
  · rw [e.loras]
    exact h.loraKeys L
  · rw [e.loras, e.loraRequests]
    exact h.loraRequests L

end

end InputBatch

end KVarN.Worker
