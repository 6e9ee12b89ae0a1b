import KVarN.Worker.Seating

/-!
# Condensing and swapping rows

`condense` moves the last request into the lowest vacant row until the requests are in the
first rows, and cuts the lists; `swapStates` exchanges two rows. Both move requests and keep
`Seated`. Each move is described by an effect, and a move of `condense` may be asked to meet
a condition `Q`.

## Main results

* `InputBatch.Seated.condense` — after `condense` there are no holes.
* `InputBatch.Seated.swapStates` — a swap exchanges the two requests.
-/

namespace KVarN.Worker

open KVarN.Lib Function Dict Row List Equiv Nat
open KVarN.Core (orRaise)

namespace InputBatch

variable {cfg : BatchConfig} {T : Tenants} {b b' : InputBatch} {id id₁ id₂ : ReqId}
  {i j last empty : ℕ} {t : Tenant} {Q : InputBatch → ℕ → ℕ → Prop}

/-! ## Condensing -/

/-- What moving the last request into a vacant row does. -/
structure MoveEffect (cfg : BatchConfig) (last empty : ℕ) (b b' : InputBatch) : Prop where
  lt : empty < last
  vacant : b.idAt empty = none
  pop : BatchUpdateBuilder.PopEffect empty b.batchUpdateBuilder b.batchUpdateBuilder.popRemoved.2
  idAt : ∀ k, b'.idAt k = if k = last then none else if k = empty then b.idAt last else b.idAt k
  spec : ∀ k, b'.spec k = if k = last then [] else if k = empty then b.spec last else b.spec k
  index : ∃ id, b.idAt last = some id ∧ ∀ id', b'.reqIdToIndex.get? id' =
    if id' = id then some empty else b.reqIdToIndex.get? id'
  rows : b'.rows = update (update b.rows empty ((b.rows last).moveInto cfg
    b.maskAllocated ((b.rows last).activeTokenCount (b.spec last)) (b.rows empty))) last
    ((b.rows last).movedAway cfg)
  length : b'.reqIds.length = b.reqIds.length
  specLength : b'.specTokenIds.length = b.specTokenIds.length
  outputLength : b'.reqOutputTokenIds.length = b.reqOutputTokenIds.length
  maskAllocated : b'.maskAllocated = b.maskAllocated
  loras : b'.loraIdToRequestIds = b.loraIdToRequestIds
  loraRequests : b'.loraIdToLoraRequest = b.loraIdToLoraRequest
  removed : b'.batchUpdateBuilder.removed = b.batchUpdateBuilder.popRemoved.2.removed
  sorted : b'.batchUpdateBuilder.isRemovedSorted = true
  added : b'.batchUpdateBuilder.added = b.batchUpdateBuilder.added
  moved : b'.batchUpdateBuilder.moved = b.batchUpdateBuilder.moved ++
    if cfg.isPoolingModel then [] else [.oneWay last empty]

theorem Seated.moveDown_effect (h : b.Seated cfg T)
    (hlast : b.idAt last = some id) (hempty : b.idAt empty = none) (hlt : empty < last)
    (hpop : BatchUpdateBuilder.PopEffect empty b.batchUpdateBuilder
      b.batchUpdateBuilder.popRemoved.2) :
    ∃ b', b.moveDown cfg last empty = .ok b' ∧ MoveEffect cfg last empty b b' := by
  have hlen := idAt_lt hlast
  have hspare := h.spare
  have hgetD : b.reqIds.getD last none = some id := hlast
  have hbuilder : ∀ u : BatchUpdateBuilder, (if cfg.isPoolingModel then u
      else { u with moved := u.moved ++ [.oneWay last empty] }) = { u with
        moved := u.moved ++ if cfg.isPoolingModel then [] else [.oneWay last empty] } := by
    intro u
    split_ifs
    · rw [append_nil]
    · rfl
  simp only [moveDown, hgetD, orRaise, ok_bind, pure_eq_ok, hbuilder]
  refine ⟨_, rfl, hlt, hempty, hpop, fun k => ?_, fun k => ?_, ⟨id, hlast, fun id' =>
    get?_set _ _ _ _⟩, rfl, by simp, by simp, by simp, rfl, rfl, rfl, rfl, hpop.sorted,
    hpop.added, by rw [hpop.moved]⟩
  · rw [idAt, getD_set, getD_set, length_set]
    have hempty' : empty < b.reqIds.length := hlt.trans hlen
    by_cases hk : k = last
    · simp [hk, hlen]
    · rw [if_neg (fun h => hk h.1), if_neg hk, hlast]
      by_cases hk' : k = empty <;> simp [hk', hempty', idAt]
  · rw [spec, getD_set, getD_set, length_set]
    have hlen' : last < b.specTokenIds.length := hlen.trans_le hspare
    have hempty' : empty < b.specTokenIds.length := hlt.trans hlen'
    by_cases hk : k = last
    · simp [hk, hlen']
    · by_cases hk' : k = empty <;> simp [hk, hk', hlen', hempty', spec, hlt.ne]

/-- **Moving the last request down** keeps the rows with their tenants. -/
theorem Seated.moveDown (h : b.Seated cfg T)
    (e : MoveEffect cfg last empty b b') : b'.Seated cfg T := by
  obtain ⟨id, hlast, hindex⟩ := e.index
  have hne : empty ≠ last := e.lt.ne
  obtain ⟨t, ht⟩ := h.exists_tenant hlast
  obtain ⟨hspec, hrow⟩ := h.own last id t hlast ht
  have hrowEmpty : b'.rows empty = (b.rows last).moveInto cfg b.maskAllocated
      ((b.rows last).activeTokenCount (b.spec last)) (b.rows empty) := by
    rw [e.rows, update_of_ne hne, update_self]
  have hrowLast : b'.rows last = (b.rows last).movedAway cfg := by
    rw [e.rows, update_self]
  have hrowOther : ∀ k, k ≠ last → k ≠ empty → b'.rows k = b.rows k := by
    intro k hk hk'
    rw [e.rows, update_of_ne hk, update_of_ne hk']
  refine ⟨fun id' k => ?_, fun id' => ?_, h.named, h.fits, fun k id' t' hk ht' => ?_,
    fun k hk => ?_, fun k => ?_, ?_, ?_, ?_, fun L id' => ?_, fun L => ?_, fun L => ?_⟩
  · rw [hindex, e.idAt]
    by_cases hid : id' = id
    · subst hid
      rw [if_pos rfl, hlast]
      split_ifs with hk hk'
      · simpa [hk] using hne
      · simp [hk']
      · simp only [Option.some.injEq]
        refine ⟨fun heq => absurd heq.symm hk', fun hat => absurd (h.idAt_inj hat hlast) hk⟩
    · rw [if_neg hid, h.index]
      split_ifs with hk hk'
      · rw [hk, hlast]
        simpa using Ne.symm hid
      · rw [hk', e.vacant, hlast]
        simpa using Ne.symm hid
      · exact Iff.rfl
  · rw [hindex]
    split_ifs with hid
    · simp [hid, ht]
    · exact h.tenants id'
  · rw [e.idAt] at hk
    rw [e.spec]
    split_ifs at hk ⊢ with hk1 hk2
    · obtain rfl := Option.some.inj (hk.symm.trans hlast)
      obtain rfl := Option.some.inj (ht'.symm.trans ht)
      rw [hk2, hrowEmpty]
      refine ⟨hspec, hrow.congr (h.fits _ _ ht).1 (le_of_eq ?_) (sameFor_moveInto _
        ((h.tables last).trans (h.tables empty).symm) (h.vacant empty e.vacant).1)⟩
      rw [activeTokenCount, hspec, hrow.numTokensNoSpec, Tenant.activeTokens]
    · rw [hrowOther k hk1 hk2]
      exact h.own k id' t' hk ht'
  · rw [e.idAt] at hk
    rw [e.spec]
    split_ifs at hk ⊢ with hk1 hk2
    · refine ⟨fun hpool => ?_, rfl⟩
      rw [hk1, hrowLast, movedAway]
      simp [hpool]
    · rw [hlast] at hk
      cases hk
    · rw [hrowOther k hk1 hk2]
      exact h.vacant k hk
  · by_cases hk1 : k = last
    · rw [hk1, hrowLast, movedAway]
      split_ifs <;> simpa using h.tables last
    · by_cases hk2 : k = empty
      · have htables : (zipWith BlockRow.moveRow (b.rows last).blockTable
            (b.rows empty).blockTable).length = cfg.blockTables.length := by
          rw [length_zipWith, h.tables, h.tables, min_self]
        rw [hk2, hrowEmpty, moveInto]
        split_ifs <;> exact htables
      · rw [hrowOther k hk1 hk2]
        exact h.tables k
  · rw [e.length, e.specLength]
    exact h.spare
  · rw [e.length]
    exact h.room
  · rw [e.outputLength, e.length]
    exact h.outputs
  · rw [e.loras]
    exact h.loras L id'
  · rw [e.loras]
    exact h.loraKeys L
  · rw [e.loras, e.loraRequests]
    exact h.loraRequests L

/-- The index has the same number of entries after a move. -/
theorem Seated.numReqs_moveDown (h : b.Seated cfg T)
    (e : MoveEffect cfg last empty b b') : b'.numReqs = b.numReqs := by
  obtain ⟨id, hlast, hindex⟩ := e.index
  have hperm : b'.reqIdToIndex.keys.Perm b.reqIdToIndex.keys := by
    refine (perm_ext_iff_of_nodup b'.reqIdToIndex.nodup_keys
      b.reqIdToIndex.nodup_keys).2 fun id' => ?_
    rw [← mem_def, ← mem_def, mem_iff_get?, mem_iff_get?, hindex]
    split_ifs with hid
    · rw [hid, (h.index id last).2 hlast]
      simp
    · exact Iff.rfl
  exact hperm.length_eq

theorem lastNonEmpty_spec (empty : List ℕ) (n : ℕ) :
    lastNonEmpty empty n ≤ n ∧ (∀ k, lastNonEmpty empty n < k → k ∈ empty ∨ n < k) ∧
      (lastNonEmpty empty n ∈ empty → lastNonEmpty empty n = 0) := by
  induction n with
  | zero => exact ⟨le_rfl, fun _ => Or.inr, fun _ => rfl⟩
  | succ n ih =>
    rw [lastNonEmpty]
    split_ifs with hmem
    · obtain ⟨hle, hall, hzero⟩ := ih
      refine ⟨by omega, fun k hk => ?_, hzero⟩
      rcases hall k hk with hin | hlt
      · exact Or.inl hin
      · by_cases heq : k = n + 1
        · exact Or.inl (heq ▸ hmem)
        · exact Or.inr (by omega)
    · exact ⟨le_rfl, fun _ => Or.inr, fun h => absurd h hmem⟩

/-- A sequence of moves of last requests into the lowest vacant rows, with what is known of
each move. -/
inductive Slides (cfg : BatchConfig) (Q : InputBatch → ℕ → ℕ → Prop) :
    InputBatch → InputBatch → Prop
  | refl (b : InputBatch) : Slides cfg Q b b
  | move {b b₁ b' : InputBatch} {last empty : ℕ} (e : MoveEffect cfg last empty b b₁)
      (hq : Q b last empty) (hrest : Slides cfg Q b₁ b') : Slides cfg Q b b'

/-- Every move of the loop of `condense` has a property. -/
def CondenseAll (cfg : BatchConfig) (Q : InputBatch → ℕ → ℕ → Prop) : ℕ → ℕ → InputBatch → Prop
  | 0, _, _ => True
  | fuel + 1, lastReqIndex, b =>
    ∀ empty ∈ b.batchUpdateBuilder.peekRemoved,
      empty < lastNonEmpty b.batchUpdateBuilder.removed lastReqIndex →
      Q b (lastNonEmpty b.batchUpdateBuilder.removed lastReqIndex) empty ∧
      ∀ b' ∈ (b.moveDown cfg (lastNonEmpty b.batchUpdateBuilder.removed lastReqIndex)
        empty).toOption,
        CondenseAll cfg Q fuel (lastNonEmpty b.batchUpdateBuilder.removed lastReqIndex - 1) b'

theorem condenseAll_of_forall (hQ : ∀ b i j, Q b i j)
    (fuel last : ℕ) (b : InputBatch) : CondenseAll cfg Q fuel last b := by
  induction fuel generalizing last b with
  | zero => exact trivial
  | succ fuel ih => exact fun empty _ _ => ⟨hQ _ _ _, fun b' _ => ih _ b'⟩

theorem CondenseAll.mono {Q' : InputBatch → ℕ → ℕ → Prop} {fuel : ℕ}
    (h : CondenseAll cfg Q fuel last b) (hQ : ∀ b i j, Q b i j → Q' b i j) :
    CondenseAll cfg Q' fuel last b := by
  induction fuel generalizing last b with
  | zero => exact trivial
  | succ fuel ih =>
    intro empty hpeek hlt
    obtain ⟨hq, hrest⟩ := h empty hpeek hlt
    exact ⟨hQ _ _ _ hq, fun b' hb' => ih (hrest b' hb')⟩

/-- Before each round of the loop the vacant rows are the removed ones that are left and the
rows behind the last one. -/
structure LoopInv (last : ℕ) (b : InputBatch) : Prop where
  ordered : b.batchUpdateBuilder.Ordered
  lt : last < b.reqIds.length
  vacant : ∀ k < b.reqIds.length, (b.idAt k = none ↔ k ∈ b.batchUpdateBuilder.removed ∨ last < k)
  live : ∃ k, b.idAt k ≠ none

/-- The last row that is not vacant has a request. -/
theorem LoopInv.lastNonEmpty (h : b.LoopInv last) :
    ∃ id, b.idAt (lastNonEmpty b.batchUpdateBuilder.removed last) = some id := by
  obtain ⟨hle, hall, hzero⟩ := lastNonEmpty_spec b.batchUpdateBuilder.removed last
  have hlt := h.lt
  rw [← Option.ne_none_iff_exists', Ne, h.vacant _ (by omega)]
  rintro (hmem | hgt)
  · obtain ⟨k, hk⟩ := h.live
    have hklt : k < b.reqIds.length := by
      by_contra hge
      exact hk (getD_eq_default _ _ (not_lt.1 hge))
    have hz := hzero hmem
    rw [Ne, h.vacant k hklt] at hk
    refine hk ?_
    by_cases hk0 : k = 0
    · exact Or.inl (hk0 ▸ hz ▸ hmem)
    · exact hall k (by omega)
  · omega

/-- **The loop of `condense`** moves requests down until the rows with requests are the first
ones. -/
theorem Seated.condenseLoop {fuel : ℕ} (h : b.Seated cfg T) (hloop : b.LoopInv last)
    (hfuel : b.batchUpdateBuilder.removed.length = fuel) (hall : CondenseAll cfg Q fuel last b) :
    ∃ b' m, condenseLoop cfg fuel last b = .ok b' ∧ Slides cfg Q b b' ∧ b'.Seated cfg T ∧
      b'.reqIds.length = b.reqIds.length ∧ b'.numReqs = b.numReqs ∧ m ≤ b'.reqIds.length ∧
      ∀ k < b'.reqIds.length, (b'.idAt k = none ↔ m ≤ k) := by
  induction fuel generalizing b last with
  | zero =>
    refine ⟨b, last + 1, rfl, .refl b, h, rfl, rfl, hloop.lt, fun k hk => ?_⟩
    rw [hloop.vacant k hk, length_eq_zero_iff.1 hfuel]
    exact or_iff_right not_mem_nil
  | succ fuel ih =>
    have hne : b.batchUpdateBuilder.removed ≠ [] := by
      intro hnil
      simp [hnil] at hfuel
    obtain ⟨empty, -, hpeek, hpop⟩ := hloop.ordered.popRemoved hne
    obtain ⟨id, hlast⟩ := hloop.lastNonEmpty
    obtain ⟨hle, hbetween, -⟩ := lastNonEmpty_spec b.batchUpdateBuilder.removed last
    obtain ⟨l, hl⟩ : ∃ l, lastNonEmpty b.batchUpdateBuilder.removed last = l :=
      ⟨_, rfl⟩
    have hlt := hloop.lt
    rw [CondenseAll] at hall
    rw [hl] at hlast hle hbetween hall
    have hempty : b.idAt empty = none := by
      by_cases hk : empty < b.reqIds.length
      · exact (hloop.vacant empty hk).2 (Or.inl hpop.mem)
      · exact getD_eq_default _ _ (not_lt.1 hk)
    simp only [condenseLoop, hl, hpeek, orRaise, ok_bind]
    by_cases hbreak : l ≤ empty
    · -- the lowest vacant row is behind the last request
      rw [if_pos hbreak]
      refine ⟨b, l + 1, rfl, .refl b, h, rfl, rfl, by omega, fun k hk => ?_⟩
      rw [hloop.vacant k hk]
      refine ⟨fun hk' => ?_, fun hk' => ?_⟩
      · rcases hk' with hmem | hgt
        · have hlow := hpop.lowest k hmem
          have hkl : k ≠ l := by
            rintro rfl
            rw [(hloop.vacant k hk).2 (Or.inl hmem)] at hlast
            cases hlast
          omega
        · omega
      · exact hbetween k (by omega)
    · rw [if_neg hbreak]
      have hlt' : empty < l := not_le.1 hbreak
      obtain ⟨b₁, hok, e⟩ := h.moveDown_effect hlast hempty hlt' hpop
      obtain ⟨hq, hrest⟩ := hall empty hpeek hlt'
      have h₁ := h.moveDown e
      have hord := hpop.ordered
      have hlen := e.length
      have hidAt := e.idAt
      have hmem : ∀ k, k ∈ b₁.batchUpdateBuilder.removed ↔
          k ∈ b.batchUpdateBuilder.removed ∧ k ≠ empty := by
        intro k
        rw [e.removed]
        exact hpop.removed k
      have hloop₁ : b₁.LoopInv (l - 1) := by
        refine ⟨⟨e.removed ▸ hord.nodup, fun _ => e.removed ▸ hord.sorted hpop.sorted⟩, by omega,
          fun k hk => ?_, empty, ?_⟩
        · rw [hidAt, hmem]
          split_ifs with hk1 hk2
          · exact ⟨fun _ => Or.inr (by omega), fun _ => rfl⟩
          · rw [hlast]
            simp only [reduceCtorEq, false_iff]
            omega
          · rw [hloop.vacant k (by omega)]
            constructor
            · rintro (hk' | hk')
              · exact Or.inl ⟨hk', hk2⟩
              · exact Or.inr (by omega)
            · rintro (⟨hk', -⟩ | hk')
              · exact Or.inl hk'
              · exact hbetween k (by omega)
        · rw [hidAt, if_neg hlt'.ne, if_pos rfl, hlast]
          simp
      have hfuel₁ : b₁.batchUpdateBuilder.removed.length = fuel := by
        have hpl := hpop.length
        rw [e.removed]
        omega
      obtain ⟨b', m, hrun, hslides, h', hlen', hnum', hm, hvacant⟩ :=
        ih h₁ hloop₁ hfuel₁ (hrest b₁ (by rw [hok]; rfl))
      rw [hok]
      exact ⟨b', m, hrun, .move e hq hslides, h', hlen'.trans hlen,
        hnum'.trans (h.numReqs_moveDown e), hm, hvacant⟩

/-- Trimming the lists behind the last request changes nothing that is read. -/
structure TrimEffect (b b' : InputBatch) : Prop where
  idAt : ∀ k, b'.idAt k = b.idAt k
  rows : b'.rows = b.rows
  index : b'.reqIdToIndex = b.reqIdToIndex
  maskAllocated : b'.maskAllocated = b.maskAllocated
  builder : b'.batchUpdateBuilder = b.batchUpdateBuilder

theorem Seated.trim (h : b.Seated cfg T) {n : ℕ} (hn : n ≤ b.reqIds.length)
    (hvacant : ∀ k < b.reqIds.length, (b.idAt k = none ↔ n ≤ k)) :
    TrimEffect b (b.trim n) ∧ (b.trim n).Seated cfg T ∧ (b.trim n).Packed := by
  have hidAt : ∀ k, (b.trim n).idAt k = b.idAt k := by
    intro k
    rw [idAt, InputBatch.trim, getD_take]
    split_ifs with hk
    · rfl
    · by_cases hlen : k < b.reqIds.length
      · exact ((hvacant k hlen).2 (not_lt.1 hk)).symm
      · exact (getD_eq_default _ _ (not_lt.1 hlen)).symm
  have hspec : ∀ k, (b.trim n).spec k = b.spec k := by
    intro k
    rw [spec, InputBatch.trim, getD_take]
    split_ifs with hk
    · rfl
    · refine (h.vacant k ?_).2.symm
      by_cases hlen : k < b.reqIds.length
      · exact (hvacant k hlen).2 (not_lt.1 hk)
      · exact getD_eq_default _ _ (not_lt.1 hlen)
  have hlen : (b.trim n).reqIds.length = n := by
    rw [InputBatch.trim, length_take, min_eq_left hn]
  refine ⟨⟨hidAt, rfl, rfl, rfl, rfl⟩, ⟨fun id' k => ?_, h.tenants, h.named, h.fits,
    fun k id' t' hk ht' => ?_, fun k hk => ?_, h.tables, ?_, ?_, ?_, h.loras, h.loraKeys,
    h.loraRequests⟩, fun k hk hnone => ?_⟩
  · rw [hidAt]
    exact h.index id' k
  · rw [hspec]
    exact h.own k id' t' ((hidAt k).symm.trans hk) ht'
  · rw [hspec]
    exact h.vacant k ((hidAt k).symm.trans hk)
  · have hspare := h.spare
    rw [hlen, InputBatch.trim, length_take]
    omega
  · have hroom := h.room
    rw [hlen]
    omega
  · rw [hlen, InputBatch.trim, length_take, h.outputs, min_eq_left hn]
  · rw [hlen] at hk
    rw [hidAt, hvacant k (by omega)] at hnone
    omega

/-- The number of requests, if their rows are the first ones. -/
theorem Seated.numReqs_of_first (h : b.Seated cfg T) {m : ℕ} (hm : m ≤ b.reqIds.length)
    (hvacant : ∀ k < b.reqIds.length, (b.idAt k = none ↔ m ≤ k)) : b.numReqs = m := by
  have hperm : ((range b.reqIds.length).filter fun i => (b.idAt i).isSome).Perm
      (range m) := by
    refine (perm_ext_iff_of_nodup (nodup_range.filter _) nodup_range).2 fun k => ?_
    rw [mem_filter, mem_range, mem_range, Option.isSome_iff_ne_none, Ne]
    constructor
    · rintro ⟨hk, hsome⟩
      rw [hvacant k hk] at hsome
      omega
    · intro hk
      refine ⟨by omega, ?_⟩
      rw [hvacant k (by omega)]
      omega
  rw [h.numReqs_eq, hperm.length_eq, length_range]

/-- The batch with its removed rows in order. -/
def sortRemoved (b : InputBatch) : InputBatch :=
  { b with batchUpdateBuilder := b.batchUpdateBuilder.ensureRemovedSorted }

theorem Seated.withBuilder (h : b.Seated cfg T) (u : BatchUpdateBuilder) :
    Seated cfg T { b with batchUpdateBuilder := u } :=
  ⟨h.index, h.tenants, h.named, h.fits, h.own, h.vacant, h.tables, h.spare, h.room, h.outputs,
    h.loras, h.loraKeys, h.loraRequests⟩

theorem Holes.sortRemoved (h : b.Holes) : b.sortRemoved.Holes := by
  obtain ⟨hperm, hsorted, -⟩ := h.ordered.ensureRemovedSorted
  refine ⟨hperm.nodup_iff.2 h.nodup, fun _ => hsorted, fun k => ?_⟩
  exact hperm.mem_iff.trans (h.iff k)

/-- Every move of `condense` has a property. -/
def CondenseMeets (cfg : BatchConfig) (Q : InputBatch → ℕ → ℕ → Prop) (b : InputBatch) : Prop :=
  CondenseAll cfg Q b.sortRemoved.batchUpdateBuilder.removed.length
    (b.numReqs + b.sortRemoved.batchUpdateBuilder.removed.length - 1) b.sortRemoved

/-- **Condensing** moves last requests into vacant rows until there is none, and trims the
lists. -/
theorem Seated.condense (h : b.Seated cfg T) (hholes : b.Holes) (hall : CondenseMeets cfg Q b) :
    ∃ b₁ b', b.condense cfg = .ok b' ∧ Slides cfg Q b.sortRemoved b₁ ∧ TrimEffect b₁ b' ∧
      b'.Seated cfg T ∧ b'.Packed := by
  have hs : b.sortRemoved.Seated cfg T := h.withBuilder _
  have hholes' := hholes.sortRemoved
  have hlen : b.reqIds.length = b.numReqs + b.sortRemoved.batchUpdateBuilder.removed.length :=
    hs.length_of_holes hholes'
  obtain ⟨c, hc⟩ : ∃ c, b.sortRemoved = c := ⟨_, rfl⟩
  have hcond : b.condense cfg = if c.batchUpdateBuilder.removed.length = 0 then .ok c
      else if b.numReqs = 0 then .ok (c.trim 0)
      else InputBatch.condenseLoop cfg c.batchUpdateBuilder.removed.length
        (b.numReqs + c.batchUpdateBuilder.removed.length - 1) c >>= fun b' =>
          .ok (b'.trim b.numReqs) := by
    rw [← hc]
    rfl
  have hclen : c.reqIds.length = b.reqIds.length := by
    rw [← hc]
    rfl
  have hcnum : c.numReqs = b.numReqs := by
    rw [← hc]
    rfl
  rw [CondenseMeets] at hall
  rw [hc] at hs hholes' hlen hall ⊢
  rw [hcond]
  by_cases hnil : c.batchUpdateBuilder.removed.length = 0
  · rw [if_pos hnil]
    exact ⟨c, c, rfl, .refl c, ⟨fun _ => rfl, rfl, rfl, rfl, rfl⟩, hs,
      hholes'.packed (length_eq_zero_iff.1 hnil)⟩
  rw [if_neg hnil]
  by_cases hzero : b.numReqs = 0
  · -- all rows are vacant
    rw [if_pos hzero]
    have hvacant : ∀ k < c.reqIds.length, (c.idAt k = none ↔ 0 ≤ k) := by
      intro k hk
      refine ⟨fun _ => zero_le k, fun _ => ?_⟩
      by_contra hsome
      obtain ⟨id, hid⟩ := Option.ne_none_iff_exists'.1 hsome
      have hmem := mem_of_get? ((hs.index id k).2 hid)
      rw [mem_def, length_eq_zero_iff.1 (hcnum.trans hzero)] at hmem
      cases hmem
    obtain ⟨htrim, hseated, hpacked⟩ := hs.trim (zero_le _) hvacant
    exact ⟨c, _, rfl, .refl c, htrim, hseated, hpacked⟩
  · rw [if_neg hzero]
    have hloop : c.LoopInv (b.numReqs + c.batchUpdateBuilder.removed.length - 1) := by
      refine ⟨hholes'.ordered, by omega, fun k hk => ?_, ?_⟩
      · rw [hholes'.iff]
        constructor
        · intro hnone
          exact Or.inl ⟨hk, hnone⟩
        · rintro (⟨-, hnone⟩ | hgt)
          · exact hnone
          · omega
      · have hkeys : c.reqIdToIndex.keys ≠ [] := by
          intro hkeys
          refine hzero (hcnum ▸ ?_)
          rw [numReqs, hkeys]
          rfl
        obtain ⟨id, hid⟩ := exists_mem_of_ne_nil _ hkeys
        obtain ⟨k, hk⟩ := mem_iff_get?.1 hid
        exact ⟨k, by rw [(hs.index id k).1 hk]; simp⟩
    obtain ⟨b₁, m, hrun, hslides, h₁, hlen₁, hnum₁, hm, hvacant⟩ := hs.condenseLoop hloop rfl hall
    have hnum := h₁.numReqs_of_first hm hvacant
    obtain rfl : m = b.numReqs := hnum.symm.trans (hnum₁.trans hcnum)
    obtain ⟨htrim, hseated, hpacked⟩ := h₁.trim hm hvacant
    rw [hrun]
    exact ⟨b₁, _, rfl, hslides, htrim, hseated, hpacked⟩

/-! ## Swaps -/

/-- What swapping two rows does. -/
structure SwapEffect (cfg : BatchConfig) (i j : ℕ) (b b' : InputBatch) : Prop where
  idAt : ∀ k, b'.idAt k = b.idAt (Equiv.swap i j k)
  spec : ∀ k, b'.spec k = b.spec (Equiv.swap i j k)
  index : ∀ id k, b'.reqIdToIndex.get? id = some k ↔
    b.reqIdToIndex.get? id = some (Equiv.swap i j k)
  rows : b'.rows = b.swapRows cfg i j
  length : b'.reqIds.length = b.reqIds.length
  specLength : b'.specTokenIds.length = b.specTokenIds.length
  outputLength : b'.reqOutputTokenIds.length = b.reqOutputTokenIds.length
  maskAllocated : b'.maskAllocated = b.maskAllocated
  loras : b'.loraIdToRequestIds = b.loraIdToRequestIds
  loraRequests : b'.loraIdToLoraRequest = b.loraIdToLoraRequest
  removed : b'.batchUpdateBuilder.removed = b.batchUpdateBuilder.removed
  added : b'.batchUpdateBuilder.added = b.batchUpdateBuilder.added
  moved : b'.batchUpdateBuilder.moved = b.batchUpdateBuilder.moved ++
    if cfg.isPoolingModel then [] else [.swap i j]

theorem Seated.swapStates_effect (h : b.Seated cfg T)
    (hi : b.idAt i = some id₁) (hj : b.idAt j = some id₂) :
    ∃ b', b.swapStates cfg i j = .ok b' ∧ SwapEffect cfg i j b b' := by
  have hilt := idAt_lt hi
  have hjlt := idAt_lt hj
  have hspare := h.spare
  have hgeti := (h.index id₁ i).2 hi
  have hgetj := (h.index id₂ j).2 hj
  have hati : b.reqIds.getD i none = some id₁ := hi
  have hatj : b.reqIds.getD j none = some id₂ := hj
  simp only [swapStates, hati, hatj, hgeti, hgetj, orRaise, ok_bind, pure_eq_ok]
  refine ⟨_, rfl, fun k => getD_swapItems hilt hjlt k,
    fun k => getD_swapItems (by omega) (by omega) k, fun id k => ?_, rfl, by simp [swapItems],
    by simp [swapItems], by simp [swapItems], rfl, rfl, rfl, ?_, ?_, ?_⟩
  · rw [get?_set, get?_set]
    split_ifs with h2 h1
    · rw [h2, hgetj, Option.some.injEq, Option.some.injEq, @eq_comm _ j, swap_apply_eq_iff,
        swap_apply_right]
      exact eq_comm
    · rw [h1, hgeti, Option.some.injEq, Option.some.injEq, @eq_comm _ i, swap_apply_eq_iff,
        swap_apply_left]
      exact eq_comm
    · have hnoti : b.reqIdToIndex.get? id ≠ some i := by
        rw [Ne, h.index, hi, Option.some.injEq]
        exact Ne.symm h1
      have hnotj : b.reqIdToIndex.get? id ≠ some j := by
        rw [Ne, h.index, hj, Option.some.injEq]
        exact Ne.symm h2
      by_cases hki : k = i
      · simp [hki, hnoti, hnotj]
      · by_cases hkj : k = j
        · simp [hkj, hnoti, hnotj]
        · rw [swap_apply_of_ne_of_ne hki hkj]
  all_goals split_ifs <;> simp

/-- The rows after a swap. With views as rows of the mask, both rows get the mask of the
second one. -/
theorem swapRows_apply (cfg : BatchConfig) (b : InputBatch) (i j k : ℕ) :
    ∃ n, n = max ((b.rows i).activeTokenCount (b.spec i)) ((b.rows j).activeTokenCount (b.spec j)) ∧
      b.swapRows cfg i j k = { (if k = j then (b.rows j).swapInto cfg n (b.rows i)
        else if k = i then (b.rows i).swapInto cfg n (b.rows j) else b.rows k) with
          allowedTokenIdsMask :=
            if (b.maskAllocated ∧ ¬ cfg.isPoolingModel) ∧ (k = i ∨ k = j) then
              (b.rows j).allowedTokenIdsMask
            else (b.rows k).allowedTokenIdsMask } := by
  refine ⟨_, rfl, ?_⟩
  rw [swapRows]
  by_cases hmask : b.maskAllocated ∧ ¬ cfg.isPoolingModel = true
  · simp only [hmask, true_and]
    by_cases hkj : k = j
    · by_cases hij : i = j
      · subst hij
        subst hkj
        simp
      · simp [hkj, update_apply, Ne.symm hij]
    · by_cases hki : k = i
      · have hij : i ≠ j := fun h => hkj (hki.trans h)
        simp [hki, update_apply, hij]
      · simp [hki, hkj, update_apply]
  · simp only [hmask, false_and, if_false]
    by_cases hkj : k = j
    · subst hkj
      simp only [if_true, update_self]
      exact withMask_swapInto.symm
    · by_cases hki : k = i
      · subst hki
        simp only [if_neg hkj, if_true, update_of_ne hkj, update_self]
        exact withMask_swapInto.symm
      · simp [hki, hkj]

theorem swapRows_sameFor (cfg : BatchConfig) (b : InputBatch) (i j k : ℕ) : Row.SameFor cfg
      (max ((b.rows i).activeTokenCount (b.spec i)) ((b.rows j).activeTokenCount (b.spec j)))
      (b.rows (Equiv.swap i j k)) (b.swapRows cfg i j k) ∧
    (b.swapRows cfg i j k).blockTable = (b.rows (Equiv.swap i j k)).blockTable ∧
    (k ≠ i → k ≠ j → b.swapRows cfg i j k = b.rows k) := by
  obtain ⟨n, hn, hrow⟩ := swapRows_apply cfg b i j k
  rw [← hn, hrow]
  by_cases hkj : k = j
  · subst hkj
    rw [if_pos rfl, swap_apply_right]
    exact ⟨sameFor_swapInto.withMask _, blockTable_swapInto, fun _ h => absurd rfl h⟩
  · rw [if_neg hkj]
    by_cases hki : k = i
    · subst hki
      rw [if_pos rfl, swap_apply_left]
      exact ⟨sameFor_swapInto.withMask _, blockTable_swapInto, fun h => absurd rfl h⟩
    · rw [if_neg hki, swap_apply_of_ne_of_ne hki hkj]
      exact ⟨(Row.SameFor.refl cfg n _).withMask _, rfl, fun _ _ => by simp [hki, hkj]⟩

/-- **Swapping two requests** keeps the rows with their tenants. -/
theorem Seated.swapStates (h : b.Seated cfg T) (hi : b.idAt i = some id₁)
    (hj : b.idAt j = some id₂) (e : SwapEffect cfg i j b b') : b'.Seated cfg T := by
  have hsame := swapRows_sameFor cfg b i j
  have hlive : ∀ k, b.idAt k = none → k ≠ i ∧ k ≠ j := by
    intro k hk
    refine ⟨?_, ?_⟩ <;> rintro rfl
    · rw [hi] at hk
      cases hk
    · rw [hj] at hk
      cases hk
  refine ⟨fun id' k => ?_, fun id' => ?_, h.named, h.fits, fun k id' t' hk ht' => ?_,
    fun k hk => ?_, fun k => ?_, ?_, ?_, ?_, fun L id' => ?_, fun L => ?_, fun L => ?_⟩
  · rw [e.index, e.idAt]
    exact h.index id' _
  · rw [← h.tenants id', Option.eq_none_iff_forall_ne_some, Option.eq_none_iff_forall_ne_some]
    refine ⟨fun hall k hk => ?_, fun hall k hk => hall _ ((e.index id' k).1 hk)⟩
    refine hall (Equiv.swap i j k) ((e.index id' _).2 ?_)
    rw [swap_apply_self]
    exact hk
  · rw [e.idAt] at hk
    rw [e.spec, e.rows]
    obtain ⟨hspec, hrow⟩ := h.own _ id' t' hk ht'
    refine ⟨hspec, ?_⟩
    by_cases hkij : k = i ∨ k = j
    · refine hrow.congr (h.fits id' t' ht').1 ?_ (hsame k).1
      have hactive : t'.activeTokens = (b.rows (Equiv.swap i j k)).activeTokenCount
          (b.spec (Equiv.swap i j k)) := by
        rw [activeTokenCount, hspec, hrow.numTokensNoSpec, Tenant.activeTokens]
      rw [hactive]
      rcases hkij with rfl | rfl
      · rw [swap_apply_left]
        exact le_max_right _ _
      · rw [swap_apply_right]
        exact le_max_left _ _
    · obtain ⟨hki, hkj⟩ := not_or.1 hkij
      rw [(hsame k).2.2 hki hkj]
      rw [swap_apply_of_ne_of_ne hki hkj] at hrow
      exact hrow
  · rw [e.idAt] at hk
    obtain ⟨hki, hkj⟩ := hlive _ hk
    have hk' : Equiv.swap i j k = k := by
      refine swap_apply_of_ne_of_ne ?_ ?_ <;> rintro rfl
      · exact hkj (swap_apply_left _ _)
      · exact hki (swap_apply_right _ _)
    rw [hk'] at hki hkj hk
    rw [e.spec, e.rows, (hsame k).2.2 hki hkj, hk']
    exact h.vacant k hk
  · rw [e.rows, (hsame k).2.1]
    exact h.tables _
  · rw [e.length, e.specLength]
    exact h.spare
  · rw [e.length]
    exact h.room
  · rw [e.outputLength, e.length]
    exact h.outputs
  · rw [e.loras]
    exact h.loras L id'
  · rw [e.loras]
    exact h.loraKeys L
  · rw [e.loras, e.loraRequests]
    exact h.loraRequests L

end InputBatch

end KVarN.Worker
