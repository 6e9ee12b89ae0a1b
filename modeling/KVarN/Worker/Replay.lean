import KVarN.Worker.BatchSteps

/-!
# What a batch update says about a step

The logits processors and the thinking-budget holder keep something for each request, by the
row it sits in. They do not see the operations of a step but the `BatchUpdate` that was
recorded: which rows were vacated and not refilled, which requests were added where, and which
rows were moved. `Recorded` says that carrying the record out on the rows before the step gives
the rows now. It holds for every way to carry records out that follows the changes one by one,
and is proved once per operation.

## Main definitions

* `nextValues` — what is kept for each request after an operation.
* `InputBatch.rowValues` — the same by rows.
* `InputBatch.Recorded` — the record so far describes the rows.

## Main results

* `InputBatch.Seated.step_replays` — the update of a step, carried out on the rows before it,
  gives the rows after it.
-/

namespace KVarN.Worker

open KVarN.Lib Function BatchUpdateBuilder BatchOp List

variable {τ : Type} {blank : τ} {newState : AddedRequest → τ}

/-- What is kept for each request after an operation: it is set up for a request that is added
and dropped for one that is removed. -/
def nextValues (blank : τ) (newState : AddedRequest → τ) (V : ReqId → τ) : BatchOp → ReqId → τ
  | .remove id => update V id blank
  | .add request =>
    update V request.reqId ((InputBatch.addedOf request).elim blank newState)
  | .spec _ _ | .condense | .swap _ _ => V

/-- A record with what is set up for the requests that were added. -/
def rowUpdate (newState : AddedRequest → τ) (removed : List ℕ) (added : List (ℕ × AddedRequest))
    (moved : List RowMove) : RowUpdate τ :=
  ⟨removed, added.map fun p => (p.1, newState p.2), moved⟩

namespace InputBatch

variable {cfg : BatchConfig} {T : Tenants} {b b' : InputBatch} {id : ReqId} {i j : ℕ}
  {Safe : τ → τ → Prop} {rep : RowUpdate τ → (ℕ → τ) → ℕ → τ} {D : ℕ → τ} {V : ReqId → τ}

/-- What is kept for the request of a row; nothing for a vacant row. -/
def rowValues (blank : τ) (V : ReqId → τ) (b : InputBatch) (i : ℕ) : τ := (b.idAt i).elim blank V

/-- **The record so far describes the rows**: carried out on the rows before the step it gives
the rows now. Rows that are listed as removed are vacant, and neither moves nor additions touch
them. -/
structure Recorded (blank : τ) (newState : AddedRequest → τ)
    (rep : RowUpdate τ → (ℕ → τ) → ℕ → τ) (D : ℕ → τ) (V : ReqId → τ) (b : InputBatch) :
    Prop where
  rows : b.rowValues blank V = rep (rowUpdate newState b.batchUpdateBuilder.removed
    b.batchUpdateBuilder.added b.batchUpdateBuilder.moved) D
  vacant : ∀ k ∈ b.batchUpdateBuilder.removed, b.idAt k = none
  apart : ∀ m ∈ b.batchUpdateBuilder.moved, ∀ k ∈ b.batchUpdateBuilder.removed, m.Avoids k
  proper : ∀ m ∈ b.batchUpdateBuilder.moved, m.Proper
  refilled : ∀ p ∈ b.batchUpdateBuilder.added, p.1 ∉ b.batchUpdateBuilder.removed

section Operations

variable (hrep : Replays blank Safe rep) (h : b.Recorded blank newState rep D V)

include hrep h in
/-- **A removal** adds the row to the removed ones. -/
theorem Recorded.remove (hs : b.Seated cfg T) (hat : b.idAt i = some id)
    (hadded : b.batchUpdateBuilder.added = []) (hmoved : b.batchUpdateBuilder.moved = [])
    (e : RemoveEffect cfg id i b b') :
    b'.Recorded blank newState rep D (nextValues blank newState V (.remove id)) := by
  have hrows : b'.rowValues blank (nextValues blank newState V (.remove id)) =
      update (b.rowValues blank V) i blank := by
    funext k
    rw [rowValues, e.idAt, update_apply]
    split_ifs with hk
    · rfl
    · rw [rowValues]
      rcases hid : b.idAt k with _ | id'
      · rfl
      · have hne : id' ≠ id := fun heq => hk (hs.idAt_inj (heq ▸ hid) hat)
        simp [nextValues, hne]
  refine ⟨?_, fun k hk => ?_, ?_, ?_, ?_⟩
  · rw [hrows, h.rows, e.removed, e.added, e.moved, hadded, hmoved]
    exact (hrep.clear _ i D).symm
  · rw [e.idAt]
    split_ifs with hki
    · rfl
    · rw [e.removed, mem_append, mem_singleton] at hk
      exact h.vacant k (hk.resolve_right hki)
  · simp [e.moved, hmoved]
  · simp [e.moved, hmoved]
  · simp [e.added, hadded]

include hrep h in
/-- **An addition** lists the request with its row, which is not a removed one any more. -/
theorem Recorded.add {request : CachedRequestState} {a : AddedRequest}
    (hne : ∀ k, b.idAt k ≠ some request.reqId) (ha : addedOf request = some a)
    (hmoved : b.batchUpdateBuilder.moved = []) (e : AddEffect cfg request i b b') :
    b'.Recorded blank newState rep D (nextValues blank newState V (.add request)) := by
  have hrows : b'.rowValues blank (nextValues blank newState V (.add request)) =
      update (b.rowValues blank V) i (newState a) := by
    funext k
    rw [rowValues, e.idAt, update_apply]
    split_ifs with hk
    · simp [nextValues, ha]
    · rw [rowValues]
      rcases hid : b.idAt k with _ | id'
      · rfl
      · have hne' : id' ≠ request.reqId := fun heq => hne k (heq ▸ hid)
        simp [nextValues, hne']
  have hadded : b'.batchUpdateBuilder.added = b.batchUpdateBuilder.added ++ [(i, a)] := by
    rw [e.added, ha]
    rfl
  have hi : i ∉ b'.batchUpdateBuilder.removed := fun hmem => ((e.removed i).1 hmem).2 rfl
  refine ⟨?_, fun k hk => ?_, ?_, ?_, fun p hp => ?_⟩
  · rw [hrows, h.rows, hadded, e.moved, hmoved, rowUpdate, rowUpdate, map_append]
    refine (hrep.put _ (newState a) D hi fun k hk => ?_).symm
    rw [e.removed, and_iff_left hk]
  · obtain ⟨hk, hki⟩ := (e.removed k).1 hk
    rw [e.idAt, if_neg hki]
    exact h.vacant k hk
  · simp [e.moved, hmoved]
  · simp [e.moved, hmoved]
  · rw [hadded, mem_append, mem_singleton] at hp
    rcases hp with hp | rfl
    · exact fun hmem => h.refilled p hp ((e.removed p.1).1 hmem).1
    · exact hi

include hrep h in
/-- **A move** of the last request into a vacant row. -/
theorem Recorded.moveDown (hsampling : cfg.isPoolingModel = false) {last empty : ℕ}
    (e : MoveEffect cfg last empty b b') (hsafe : ∀ id ∈ b.idAt last, Safe (V id) (D empty)) :
    b'.Recorded blank newState rep D V := by
  obtain ⟨id, hlast, -⟩ := e.index
  have hrows : b'.rowValues blank V =
      (RowMove.oneWay last empty).apply blank (b.rowValues blank V) := by
    funext k
    rw [rowValues, e.idAt]
    simp only [RowMove.apply, update_apply, rowValues]
    split_ifs <;> rfl
  have hremoved : ∀ k, k ∈ b'.batchUpdateBuilder.removed ↔
      k ∈ b.batchUpdateBuilder.removed ∧ k ≠ empty := by
    intro k
    rw [e.removed]
    exact e.pop.removed k
  have hmoved : b'.batchUpdateBuilder.moved =
      b.batchUpdateBuilder.moved ++ [.oneWay last empty] := by
    rw [e.moved, hsampling]
    rfl
  refine ⟨?_, fun k hk => ?_, fun m hm k hk => ?_, fun m hm => ?_, fun p hp => ?_⟩
  · rw [hrows, h.rows, hmoved, e.added]
    refine (hrep.oneWay e.lt.ne' (fun m hm => h.apart m hm empty e.pop.mem) (fun p hp => ?_)
      (fun hmem => ((hremoved empty).1 hmem).2 rfl) (fun k hk => ?_) ?_).symm
    · obtain ⟨q, hq, rfl⟩ := mem_map.1 hp
      exact fun heq => h.refilled q hq (heq ▸ e.pop.mem)
    · rw [hremoved, and_iff_left hk]
    · have hvalue := congrFun h.rows last
      rw [rowValues, hlast] at hvalue
      rw [rowUpdate] at hvalue
      rw [← hvalue]
      exact hsafe id hlast
  · obtain ⟨hk, hke⟩ := (hremoved k).1 hk
    rw [e.idAt, if_neg hke, h.vacant k hk, ite_self]
  · obtain ⟨hk, hke⟩ := (hremoved k).1 hk
    rw [hmoved, mem_append, mem_singleton] at hm
    rcases hm with hm | rfl
    · exact h.apart m hm k hk
    · refine ⟨?_, hke.symm⟩
      rintro rfl
      rw [h.vacant _ hk] at hlast
      cases hlast
  · rw [hmoved, mem_append, mem_singleton] at hm
    rcases hm with hm | rfl
    · exact h.proper m hm
    · exact e.lt.ne'
  · rw [e.added] at hp
    exact fun hmem => h.refilled p hp ((hremoved p.1).1 hmem).1

include hrep h in
/-- **The moves of `condense`.** -/
theorem Recorded.slides (hsampling : cfg.isPoolingModel = false)
    (hslides : Slides cfg (fun c last empty => ∀ id ∈ c.idAt last, Safe (V id) (D empty)) b b') :
    b'.Recorded blank newState rep D V := by
  induction hslides with
  | refl b => exact h
  | move e hq _ ih => exact ih (Recorded.moveDown hrep h hsampling e hq)

include hrep h in
theorem Recorded.sortRemoved : b.sortRemoved.Recorded blank newState rep D V := by
  have hmem : ∀ k, k ∈ b.batchUpdateBuilder.ensureRemovedSorted.removed ↔
      k ∈ b.batchUpdateBuilder.removed := by
    intro k
    rw [ensureRemovedSorted]
    split_ifs
    · exact Iff.rfl
    · exact mem_insertionSort _
  have hlists : b.batchUpdateBuilder.ensureRemovedSorted.added = b.batchUpdateBuilder.added ∧
      b.batchUpdateBuilder.ensureRemovedSorted.moved = b.batchUpdateBuilder.moved := by
    rw [ensureRemovedSorted]
    split_ifs <;> exact ⟨rfl, rfl⟩
  simp only [InputBatch.sortRemoved]
  refine ⟨?_, fun k hk => h.vacant k ((hmem k).1 hk), fun m hm k hk => ?_, fun m hm => ?_,
    fun p hp hmem' => ?_⟩
  · rw [hlists.1, hlists.2]
    exact h.rows.trans (hrep.congr _ _ D hmem).symm
  · exact h.apart m (hlists.2 ▸ hm) k ((hmem k).1 hk)
  · exact h.proper m (hlists.2 ▸ hm)
  · exact h.refilled p (hlists.1 ▸ hp) ((hmem p.1).1 hmem')

include hrep h in
/-- **A swap** of two rows with requests. -/
theorem Recorded.swap (hsampling : cfg.isPoolingModel = false) (hi : b.idAt i ≠ none)
    (hj : b.idAt j ≠ none) (e : SwapEffect cfg i j b b') : b'.Recorded blank newState rep D V := by
  have hrows : b'.rowValues blank V = b.rowValues blank V ∘ Equiv.swap i j := by
    funext k
    rw [rowValues, e.idAt]
    rfl
  have hmoved : b'.batchUpdateBuilder.moved = b.batchUpdateBuilder.moved ++ [.swap i j] := by
    rw [e.moved, hsampling]
    rfl
  have havoids : ∀ k ∈ b.batchUpdateBuilder.removed, i ≠ k ∧ j ≠ k :=
    fun k hk => ⟨fun heq => hi (heq ▸ h.vacant k hk), fun heq => hj (heq ▸ h.vacant k hk)⟩
  refine ⟨?_, fun k hk => ?_, fun m hm k hk => ?_, fun m hm => ?_, fun p hp => ?_⟩
  · rw [hrows, h.rows, hmoved, e.added, e.removed]
    exact (hrep.swap _ _ _ i j D).symm
  · rw [e.removed] at hk
    obtain ⟨hik, hjk⟩ := havoids k hk
    rw [e.idAt, Equiv.swap_apply_of_ne_of_ne hik.symm hjk.symm]
    exact h.vacant k hk
  · rw [e.removed] at hk
    rw [hmoved, mem_append, mem_singleton] at hm
    rcases hm with hm | rfl
    · exact h.apart m hm k hk
    · exact havoids k hk
  · rw [hmoved, mem_append, mem_singleton] at hm
    rcases hm with hm | rfl
    · exact h.proper m hm
    · exact trivial
  · rw [e.added] at hp
    rw [e.removed]
    exact h.refilled p hp

/-- The record and the rows are all that matters. -/
theorem Recorded.congr (h : b.Recorded blank newState rep D V)
    (hid : ∀ k, b'.idAt k = b.idAt k) (hbuilder : b'.batchUpdateBuilder = b.batchUpdateBuilder) :
    b'.Recorded blank newState rep D V := by
  refine ⟨?_, ?_, ?_, ?_, ?_⟩
  · rw [hbuilder, ← h.rows]
    funext k
    rw [rowValues, rowValues, hid]
  · rw [hbuilder]
    exact fun k hk => (hid k).trans (h.vacant k hk)
  · rw [hbuilder]
    exact h.apart
  · rw [hbuilder]
    exact h.proper
  · rw [hbuilder]
    exact h.refilled

include hrep h in
/-- **Every operation** of a step is recorded. -/
theorem Recorded.step (hsampling : cfg.isPoolingModel = false) {op : BatchOp}
    (hs : b.Seated cfg T) (hop : b.Meets cfg op)
    (he : OpEffect cfg (fun c last empty => ∀ id ∈ c.idAt last, Safe (V id) (D empty)) op b b') :
    b'.Recorded blank newState rep D (nextValues blank newState V op) := by
  cases he with
  | @absent _ id hnone =>
    refine ⟨?_, h.vacant, h.apart, h.proper, h.refilled⟩
    rw [← h.rows]
    funext k
    rw [rowValues, rowValues]
    rcases hid : b.idAt k with _ | id'
    · rfl
    · have hne : id' ≠ id := by
        rintro rfl
        rw [(hs.index _ k).2 hid] at hnone
        cases hnone
      simp [nextValues, hne]
  | remove hat hadded hmoved e => exact Recorded.remove hrep h hs hat hadded hmoved e
  | @add _ _ request _ hnew hmoved e =>
    have hkind := hop.2.1.2.2.2.2.2.1
    obtain ⟨p, hp⟩ : ∃ p, request.samplingParams = some p := by
      rw [hsampling] at hkind
      exact Option.isSome_iff_exists.1 (by simpa using hkind.symm)
    refine Recorded.add hrep h (fun k hk => ?_) (by rw [addedOf, hp]; rfl) hmoved e
    rw [(hs.index _ k).2 hk] at hnew
    cases hnew
  | spec hat e => exact h.congr (fun k => by rw [idAt, idAt, e.reqIds]) e.builder
  | condense hslides e =>
    exact (Recorded.slides hrep (Recorded.sortRemoved hrep h) hsampling hslides).congr e.idAt
      e.builder
  | swap hi hj e => exact Recorded.swap hrep h hsampling hi hj e

end Operations

/-- The update of a step is its record. -/
theorem refreshMetadata_fst (hsampling : cfg.isPoolingModel = false) (b : InputBatch) :
    ((b.refreshMetadata cfg).1 = none ∧ b.batchUpdateBuilder.removed = [] ∧
      b.batchUpdateBuilder.added = [] ∧ b.batchUpdateBuilder.moved = []) ∨
    (b.refreshMetadata cfg).1 = some ⟨b.numReqs, b.batchUpdateBuilder.removed,
      b.batchUpdateBuilder.added, b.batchUpdateBuilder.moved⟩ := by
  simp only [refreshMetadata, hsampling, Bool.false_eq_true, if_false, getAndReset]
  split_ifs with hnil
  · exact Or.inl ⟨rfl, hnil.1, hnil.2.2, hnil.2.1⟩
  · exact Or.inr rfl

/-- **What the record lists as added** are requests that operations have added. -/
theorem OpEffect.added {Q : InputBatch → ℕ → ℕ → Prop} {op : BatchOp} {pre : List BatchOp}
    (he : OpEffect cfg Q op b b')
    (h : ∀ p ∈ b.batchUpdateBuilder.added, ∃ r, BatchOp.add r ∈ pre ∧ addedOf r = some p.2) :
    ∀ p ∈ b'.batchUpdateBuilder.added, ∃ r, BatchOp.add r ∈ pre ++ [op] ∧ addedOf r = some p.2 := by
  have hold : ∀ p ∈ b.batchUpdateBuilder.added, ∃ r, BatchOp.add r ∈ pre ++ [op] ∧
      addedOf r = some p.2 := by
    intro p hp
    obtain ⟨r, hr, ha⟩ := h p hp
    exact ⟨r, mem_append_left _ hr, ha⟩
  cases he with
  | absent _ => exact hold
  | remove _ _ _ e => exact e.added ▸ hold
  | @add _ _ request i _ _ e =>
    intro p hp
    rw [e.added, mem_append] at hp
    rcases hp with hp | hp
    · exact hold p hp
    · obtain ⟨a, ha, rfl⟩ := mem_map.1 hp
      exact ⟨request, mem_append_right _ (mem_singleton_self _), Option.mem_toList.1 ha⟩
  | spec _ e => exact e.builder ▸ hold
  | condense hslides e =>
    rw [e.builder]
    have hslid : ∀ {c c'}, Slides cfg Q c c' →
        c'.batchUpdateBuilder.added = c.batchUpdateBuilder.added := by
      intro c c' hslides
      induction hslides with
      | refl c => rfl
      | move e _ _ ih => exact ih.trans e.added
    have hsorted : b.sortRemoved.batchUpdateBuilder.added = b.batchUpdateBuilder.added := by
      rw [sortRemoved, ensureRemovedSorted]
      split_ifs <;> rfl
    rw [hslid hslides, hsorted]
    exact hold
  | swap _ _ e => exact e.added ▸ hold

/-- Carry out the update of a step, if there is one. -/
def replayUpdate (newState : AddedRequest → τ) (rep : RowUpdate τ → (ℕ → τ) → ℕ → τ)
    (u : Option BatchUpdate) (D : ℕ → τ) : ℕ → τ :=
  u.elim D fun u => rep (rowUpdate newState u.removed u.added u.moved) D

/-- **A step and its update.** If the rows before the step are given by `V`, carrying out the
update gives the rows after it, where the operations of the step act on `V` request by
request. -/
theorem Seated.step_replays {P : InputBatch → BatchOp → Prop} {s : BatchStep}
    (hrep : Replays blank Safe rep) (hsampling : cfg.isPoolingModel = false)
    (h : b.Seated cfg T) (hpacked : b.Packed) (hfresh : b.batchUpdateBuilder = {})
    (hP : ∀ b op, P b op → Meets cfg b op)
    (hQ : ∀ c, P c .condense → CondenseMeets cfg (fun c last empty => ∀ id ∈ c.idAt last,
      Safe (s.early.foldl (nextValues blank newState) V id) (b.rowValues blank V empty)) c)
    (hmeet : AllMeet cfg P s.ops b) :
    ∃ u b', b.step cfg s = .ok (u, b') ∧ b'.Seated cfg (s.ops.foldl nextTenants T) ∧
      b'.Packed ∧ b'.batchUpdateBuilder = {} ∧
      b'.rowValues blank (s.ops.foldl (nextValues blank newState) V) =
        replayUpdate newState rep u (b.rowValues blank V) ∧ ∀ u' ∈ u, (∀ m ∈ u'.moved, m.Proper) ∧
        ∀ p ∈ u'.added, ∃ r, add r ∈ s.ops ∧ addedOf r = some p.2 := by
  have hstart : b.Recorded blank newState rep (b.rowValues blank V) V := by
    refine ⟨?_, ?_, ?_, ?_, ?_⟩
    all_goals rw [hfresh]
    · exact (hrep.nil _).symm
    · simp
    · simp
    · simp
    · simp
  obtain ⟨b₁, hstep, h₁, hpacked₁, hrec, hadd⟩ := h.run_step
    (R := fun pre _ c => c.Recorded blank newState rep (b.rowValues blank V)
      (pre.foldl (nextValues blank newState) V) ∧
      ∀ p ∈ c.batchUpdateBuilder.added, ∃ r, add r ∈ pre ∧ addedOf r = some p.2) hP hQ
    (by
      rintro pre T' op c c' hpre hs hp he ⟨hrec, hadd⟩
      refine ⟨?_, he.added hadd⟩
      rw [foldl_append]
      refine Recorded.step hrep hrec hsampling hs (hP c op hp) ?_
      cases he with
      | condense hslides e => exact .condense (hpre rfl ▸ hslides) e
      | absent h => exact .absent h
      | remove h ha hm e => exact .remove h ha hm e
      | add h hm e => exact .add h hm e
      | spec h e => exact .spec h e
      | swap hi hj e => exact .swap hi hj e)
    hpacked hfresh ⟨hstart, by simp [hfresh]⟩ hmeet
  have hbuilder := refreshMetadata_snd cfg b₁
  refine ⟨(b₁.refreshMetadata cfg).1, (b₁.refreshMetadata cfg).2, hstep, hbuilder ▸
    h₁.withBuilder {}, hbuilder ▸ hpacked₁, by rw [hbuilder], ?_, ?_⟩
  · have hrows : (b₁.refreshMetadata cfg).2.rowValues blank
        (s.ops.foldl (nextValues blank newState) V) =
        b₁.rowValues blank (s.ops.foldl (nextValues blank newState) V) := by
      rw [hbuilder]
      rfl
    rw [hrows, hrec.rows]
    rcases refreshMetadata_fst hsampling b₁ with ⟨hu, hremoved, hadded, hmoved⟩ | hu
    · rw [hu, hremoved, hadded, hmoved]
      exact hrep.nil _
    · rw [hu]
      rfl
  · rcases refreshMetadata_fst hsampling b₁ with ⟨hu, -⟩ | hu
    · simp [hu]
    · rw [hu]
      rintro _ ⟨⟩
      exact ⟨hrec.proper, hadd⟩

/-! ## Values of the tenants -/

/-- What the processors were told about the request of a row. -/
def seat (T : Tenants) (b : InputBatch) (i : ℕ) : Option AddedRequest :=
  (b.idAt i).bind fun id => (T id).bind fun t => addedOf t.request

/-- What is set up for the tenants. -/
def valuesOf (blank : τ) (newState : AddedRequest → τ) (T : Tenants) (id : ReqId) : τ :=
  ((T id).bind fun t => addedOf t.request).elim blank newState

theorem rowValues_valuesOf (b : InputBatch) (i : ℕ) :
    b.rowValues blank (valuesOf blank newState T) i = (b.seat T i).elim blank newState := by
  rw [rowValues, seat]
  rcases b.idAt i with _ | id
  · rfl
  · rfl

/-- An operation sets up the values of the tenants after it. -/
theorem nextValues_eq {g : AddedRequest → τ} (op : BatchOp) (hV : V id = valuesOf blank g T id) :
    nextValues blank g V op id = valuesOf blank g (nextTenants T op) id := by
  cases op with
  | remove id' =>
    simp only [nextValues, nextTenants, valuesOf, update_apply] at hV ⊢
    split_ifs
    · rfl
    · exact hV
  | add request =>
    simp only [nextValues, nextTenants, valuesOf, update_apply] at hV ⊢
    split_ifs
    · rfl
    · exact hV
  | spec id' tokens =>
    simp only [nextValues, nextTenants, valuesOf, update_apply] at hV ⊢
    split_ifs with hid
    · rw [hV, hid]
      rcases T id' with _ | t <;> rfl
    · exact hV
  | condense => exact hV
  | swap i j => exact hV

theorem foldl_nextValues_eq (ops : List BatchOp) (hV : V id = valuesOf blank newState T id) :
    ops.foldl (nextValues blank newState) V id =
      valuesOf blank newState (ops.foldl nextTenants T) id := by
  induction ops generalizing V T with
  | nil => exact hV
  | cons op ops ih => exact ih (nextValues_eq op hV)

/-- A request that is added gets its value whatever was there before. -/
theorem foldl_nextValues_of_add {ops : List BatchOp} {request : CachedRequestState}
    (hadd : add request ∈ ops) : ops.foldl (nextValues blank newState) V request.reqId =
      valuesOf blank newState (ops.foldl nextTenants T) request.reqId := by
  induction ops generalizing V T with
  | nil => cases hadd
  | cons op ops ih =>
    rcases mem_cons.1 hadd with rfl | hadd
    · refine foldl_nextValues_eq ops ?_
      simp [nextValues, nextTenants, valuesOf]
    · exact ih hadd

/-- A request that is not added keeps its value until it is removed. -/
theorem foldl_nextValues_of_forall_ne {oldState : AddedRequest → τ} {ops : List BatchOp}
    (hne : ∀ r, add r ∈ ops → r.reqId ≠ id) (hV : V id = valuesOf blank oldState T id) :
    ops.foldl (nextValues blank newState) V id =
      valuesOf blank oldState (ops.foldl nextTenants T) id := by
  induction ops generalizing V T with
  | nil => exact hV
  | cons op ops ih =>
    refine ih (fun r hr => hne r (mem_cons_of_mem op hr)) ?_
    rw [← nextValues_eq (g := oldState) op hV]
    cases op with
    | add request =>
      have hid := (hne request mem_cons_self).symm
      simp only [nextValues, update_of_ne hid]
    | remove id' => rfl
    | spec id' tokens => rfl
    | condense => rfl
    | swap i j => rfl

/-- A tenant that was not added was there before. -/
theorem foldl_nextTenants_of_forall_ne {ops : List BatchOp}
    (hne : ∀ r, add r ∈ ops → r.reqId ≠ id) (hnone : T id = none) :
    ops.foldl nextTenants T id = none := by
  induction ops generalizing T with
  | nil => exact hnone
  | cons op ops ih =>
    refine ih (fun r hr => hne r (mem_cons_of_mem op hr)) ?_
    cases op with
    | add request =>
      rw [nextTenants, update_of_ne (hne request mem_cons_self).symm, hnone]
    | remove id' =>
      rw [nextTenants, update_apply]
      split_ifs
      · rfl
      · exact hnone
    | spec id' tokens =>
      rw [nextTenants, update_apply]
      split_ifs with hid
      · rw [← hid, hnone]
        rfl
      · exact hnone
    | condense => exact hnone
    | swap i j => exact hnone

end InputBatch

end KVarN.Worker
