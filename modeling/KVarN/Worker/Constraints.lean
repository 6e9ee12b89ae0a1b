import KVarN.Worker.BatchSteps

/-!
# Constraints of requests and the rows they pass through

A row of the mask of allowed tokens, an entry of prompt embeddings and the flag for token ids
of a pooling request constrain or feed what is generated in a row. They are allocated lazily
and are not cleared or moved on every path: removing a request leaves its prompt embeddings,
`condense` leaves the mask of the row it has moved away and does not move the flag, and
`swap_states` reads rows of the mask as views and so copies the second one onto the first.
`Clean` says when an operation meets none of these left-overs.

## Main definitions

* `Row.Confines` — a row constrains and feeds its own request only.
* `InputBatch.Clean` — an operation does not meet the left-overs of another request.

## Main results

* `constraints_stay` — after clean steps every row confines its own request.
* `constraints_leak` — each of the left-overs reaches another request.
-/

namespace KVarN.Worker

open Function SamplingParams Bool

/-- Whether a request may not generate a token. -/
def CachedRequestState.blocks (r : CachedRequestState) (v : ℕ) : Bool :=
  match r.samplingParams.bind allowedTokenIds with
  | some (x :: xs) => v ∉ x :: xs
  | _ => false

/-- **A row constrains and feeds its own request only**: the mask blocks what lies outside its
allowed tokens, the prompt embeddings are its own, and so is the flag of a pooling request. -/
structure Row.Confines (cfg : BatchConfig) (r : CachedRequestState) (row : Row) : Prop where
  mask : ∀ v < cfg.vocabSize, row.allowedTokenIdsMask v = r.blocks v
  embeds : row.reqPromptEmbeds = r.promptEmbeds
  needs : r.samplingParams = none → ∀ p ∈ r.poolingParams,
    row.logitsProcessingNeedsTokenIds = p.requiresTokenIds

namespace InputBatch

variable {cfg : BatchConfig} {T : Tenants} {b b' : InputBatch} {id : ReqId} {i j : ℕ} {t : Tenant}

/-- A move finds no prompt embeddings that it does not overwrite, and the flag it needs. -/
def CleanMove (cfg : BatchConfig) (b : InputBatch) (last empty : ℕ) : Prop :=
  ((b.rows last).reqPromptEmbeds = none → (b.rows empty).reqPromptEmbeds = none) ∧
    (cfg.isPoolingModel = true → (b.rows empty).logitsProcessingNeedsTokenIds =
      (b.rows last).logitsProcessingNeedsTokenIds)

/-- **An operation does not meet the left-overs of another request**: a request without prompt
embeddings or without allowed tokens gets a row without them, moves are clean, and rows that
are swapped have the same mask and the same flag. -/
def Clean (cfg : BatchConfig) (b : InputBatch) : BatchOp → Prop
  | .add request =>
    (request.promptEmbeds = none → (b.rows b.nextRow).reqPromptEmbeds = none) ∧
      (cfg.isPoolingModel = false → needsMask request = false →
        ∀ v < cfg.vocabSize, (b.rows b.nextRow).allowedTokenIdsMask v = false)
  | .condense => CondenseMeets cfg (CleanMove cfg) b
  | .swap i j =>
    (b.maskAllocated = true → cfg.isPoolingModel = false → ∀ v < cfg.vocabSize,
      (b.rows i).allowedTokenIdsMask v = (b.rows j).allowedTokenIdsMask v) ∧
    (cfg.isPoolingModel = true → (b.rows i).logitsProcessingNeedsTokenIds =
      (b.rows j).logitsProcessingNeedsTokenIds)
  | .remove _ | .spec _ _ => True

instance decidableCondenseAll (cfg : BatchConfig) (Q : InputBatch → ℕ → ℕ → Prop)
    [∀ b i j, Decidable (Q b i j)] :
    (fuel last : ℕ) → (b : InputBatch) → Decidable (CondenseAll cfg Q fuel last b)
  | 0, _, _ => inferInstanceAs (Decidable True)
  | fuel + 1, last, b =>
    let _ := decidableCondenseAll cfg Q fuel
    inferInstanceAs (Decidable (∀ empty ∈ b.batchUpdateBuilder.peekRemoved,
      empty < lastNonEmpty b.batchUpdateBuilder.removed last →
      Q b _ empty ∧ ∀ b' ∈ (b.moveDown cfg _ empty).toOption, CondenseAll cfg Q fuel _ b'))

instance (cfg : BatchConfig) (b : InputBatch) (last empty : ℕ) :
    Decidable (CleanMove cfg b last empty) :=
  inferInstanceAs (Decidable (_ ∧ _))

instance (cfg : BatchConfig) (b : InputBatch) (op : BatchOp) : Decidable (b.Clean cfg op) :=
  match op with
  | .add _ | .swap _ _ => inferInstanceAs (Decidable (_ ∧ _))
  | .condense => inferInstanceAs (Decidable (CondenseAll cfg (CleanMove cfg) _ _ _))
  | .remove _ | .spec _ _ => inferInstanceAs (Decidable True)

/-- Every row confines its own request, and a mask that is not allocated blocks nothing. -/
structure Confined (cfg : BatchConfig) (T : Tenants) (b : InputBatch) : Prop where
  own : ∀ i id t, b.idAt i = some id → T id = some t → (b.rows i).Confines cfg t.request
  unallocated : b.maskAllocated = false → ∀ i v, (b.rows i).allowedTokenIdsMask v = false
  allocated : ∀ id t, T id = some t → needsMask t.request = true → b.maskAllocated = true
  pooling : cfg.isPoolingModel = true → b.maskAllocated = false

theorem blocks_of_not_needsMask {r : CachedRequestState} (h : needsMask r = false) (v : ℕ) :
    r.blocks v = false := by
  rw [needsMask] at h
  rw [CachedRequestState.blocks]
  rcases hl : r.samplingParams.bind allowedTokenIds with _ | _ | ⟨x, xs⟩
  · rfl
  · rfl
  · rw [hl] at h
    cases h

/-- A request leaves its own mask in a row without one. -/
theorem maskAfter_eq {r : CachedRequestState} {row : Row} {v : ℕ}
    (h : needsMask r = false → row.allowedTokenIdsMask v = false) :
    row.maskAfter r v = r.blocks v := by
  rw [needsMask] at h
  rw [Row.maskAfter, CachedRequestState.blocks]
  rcases hl : r.samplingParams.bind allowedTokenIds with _ | _ | ⟨x, xs⟩
  · exact h (by rw [hl])
  · exact h (by rw [hl])
  · rfl

section

variable (h : b.Confined cfg T)

include h

theorem Confined.blocks_eq_false (hun : b.maskAllocated = false)
    (ht : T id = some t) (v : ℕ) : t.request.blocks v = false := by
  refine blocks_of_not_needsMask ?_ v
  rw [← not_eq_true]
  intro hneeds
  rw [h.allocated id t ht hneeds] at hun
  cases hun

/-- **One move** carries the constraints of a request over. -/
theorem Confined.moveDown {last empty : ℕ} (hs : b.Seated cfg T)
    (e : MoveEffect cfg last empty b b') (hclean : CleanMove cfg b last empty) :
    b'.Confined cfg T := by
  have hrow : ∀ k, b'.rows k = if k = last then (b.rows last).movedAway cfg
      else if k = empty then (b.rows last).moveInto cfg b.maskAllocated
        ((b.rows last).activeTokenCount (b.spec last)) (b.rows empty) else b.rows k := by
    intro k
    rw [e.rows, update_apply, update_apply]
  refine ⟨fun k id t hk ht => ?_, fun hun k v => ?_, fun id t ht hneeds => ?_, fun hpool => ?_⟩
  · rw [e.idAt] at hk
    rw [hrow]
    split_ifs at hk ⊢ with hk1 hk2
    · have hold := h.own last id t hk ht
      have hkind := (hs.fits id t ht).1.2.2.2.2.2.1
      have hembeds : (b.rows last).reqPromptEmbeds.or (b.rows empty).reqPromptEmbeds =
          t.request.promptEmbeds := by
        rcases hl : (b.rows last).reqPromptEmbeds with _ | x
        · rw [hclean.1 hl, ← hold.embeds, hl]
          rfl
        · rw [← hold.embeds, hl]
          rfl
      rw [Row.moveInto]
      by_cases hpool : cfg.isPoolingModel = true
      · simp only [hpool, if_true]
        refine ⟨fun v _ => ?_, hembeds, fun hnone p hp => ?_⟩
        · rw [h.blocks_eq_false (h.pooling hpool) ht]
          exact h.unallocated (h.pooling hpool) empty v
        · exact (hclean.2 hpool).trans (hold.needs hnone p hp)
      · simp only [hpool, false_eq_true, if_false]
        refine ⟨fun v hv => ?_, hembeds, fun hnone => ?_⟩
        · dsimp only
          split_ifs with hmask
          · exact hold.mask v hv
          · rw [not_eq_true] at hmask
            rw [h.blocks_eq_false hmask ht]
            exact h.unallocated hmask empty v
        · rw [hnone] at hkind
          exact absurd hkind hpool
    · exact h.own k id t hk ht
  · rw [e.maskAllocated] at hun
    have hold := h.unallocated hun
    rw [hrow]
    split_ifs
    · rw [Row.movedAway]
      split_ifs <;> exact hold last v
    · rw [Row.moveInto]
      split_ifs <;> simp [hold]
    · exact hold k v
  · rw [e.maskAllocated]
    exact h.allocated id t ht hneeds
  · rw [e.maskAllocated]
    exact h.pooling hpool

/-- **The moves of `condense`** carry the constraints over. -/
theorem Confined.slides (hs : b.Seated cfg T)
    (hslides : Slides cfg (CleanMove cfg) b b') : b'.Confined cfg T := by
  induction hslides with
  | refl b => exact h
  | move e hq _ ih => exact ih (h.moveDown hs e hq) (hs.moveDown e)

/-- **A request that is added** to a clean row is confined there. -/
theorem Confined.add {request : CachedRequestState} (hne : ∀ k, b.idAt k ≠ some request.reqId)
    (hfits : request.Fits cfg) (hclean : b.Clean cfg (.add request))
    (e : AddEffect cfg request i b b') : b'.Confined cfg (nextTenants T (.add request)) := by
  obtain ⟨row, hloaded, hrows⟩ := e.rows
  obtain ⟨hembeds, hmask⟩ := hclean
  rw [← e.row] at hembeds hmask
  have hkind := hfits.2.2.2.2.2.1
  have hT : ∀ id t, nextTenants T (.add request) id = some t →
      id = request.reqId ∧ (⟨request, []⟩ : Tenant) = t ∨ id ≠ request.reqId ∧ T id = some t :=
    fun id t ht => update_some_eq_some.1 ht
  have hunmasked : ∀ v < cfg.vocabSize, needsMask request = false →
      (b.rows i).allowedTokenIdsMask v = false := by
    intro v hv hneeds
    by_cases hpool : cfg.isPoolingModel = true
    · exact h.unallocated (h.pooling hpool) i v
    · exact hmask (not_eq_true _ ▸ hpool) hneeds v hv
  refine ⟨fun k id t hk ht => ?_, fun hun k v => ?_, fun id t ht hneeds => ?_, fun hpool => ?_⟩
  · rw [e.idAt] at hk
    rw [hrows, update_apply]
    split_ifs at hk ⊢ with hki
    · obtain rfl := Option.some.inj hk
      rcases hT _ t ht with ⟨-, rfl⟩ | ⟨hno, -⟩
      · refine ⟨fun v hv => ?_, ?_, fun hnone p hp => ?_⟩
        · rw [hloaded.mask]
          exact maskAfter_eq (hunmasked v hv)
        · rw [hloaded.promptEmbeds]
          rcases he : request.promptEmbeds with _ | x
          · rw [hembeds he, Option.none_or]
          · rfl
        · have hp' : request.poolingParams = some p := hp
          have hnone' : request.samplingParams = none := hnone
          rw [hloaded.needsTokenIds, if_pos hnone', hp']
          rfl
      · exact absurd rfl hno
    · rcases hT id t ht with ⟨rfl, -⟩ | ⟨-, ht⟩
      · exact absurd hk (hne k)
      · exact h.own k id t hk ht
  · rw [e.maskAllocated, or_eq_false_iff] at hun
    rw [hrows, update_apply]
    split_ifs with hki
    · rw [hloaded.mask, maskAfter_eq (fun _ => h.unallocated hun.1 i v),
        blocks_of_not_needsMask hun.2]
    · exact h.unallocated hun.1 k v
  · rw [e.maskAllocated, or_eq_true]
    rcases hT id t ht with ⟨-, rfl⟩ | ⟨-, ht⟩
    · exact Or.inr hneeds
    · exact Or.inl (h.allocated id t ht hneeds)
  · rw [e.maskAllocated, or_eq_false_iff]
    refine ⟨h.pooling hpool, ?_⟩
    rw [hpool] at hkind
    rw [needsMask, Option.isNone_iff_eq_none.1 hkind.symm]
    rfl

/-- **Rows with the same mask and flag** may be swapped. -/
theorem Confined.swap (hs : b.Seated cfg T)
    (hclean : b.Clean cfg (.swap i j)) (e : SwapEffect cfg i j b b') : b'.Confined cfg T := by
  obtain ⟨hmask, hneeds⟩ := hclean
  refine ⟨fun k id t hk ht => ?_, fun hun k v => ?_, fun id t ht hneeds => ?_, fun hpool => ?_⟩
  · rw [e.idAt] at hk
    have hold := h.own _ id t hk ht
    have hkind := (hs.fits id t ht).1.2.2.2.2.2.1
    obtain ⟨n, -, hrow⟩ := swapRows_apply cfg b i j k
    rw [e.rows, hrow]
    by_cases hkij : k = i ∨ k = j
    · -- one of the two rows: the mask of the second one, and the flag that was there
      obtain ⟨hm, he, hf⟩ : (∀ v < cfg.vocabSize, (if (b.maskAllocated ∧ ¬ cfg.isPoolingModel) ∧
            (k = i ∨ k = j) then (b.rows j).allowedTokenIdsMask
            else (b.rows k).allowedTokenIdsMask) v = t.request.blocks v) ∧
          (if k = j then (b.rows j).swapInto cfg n (b.rows i)
            else if k = i then (b.rows i).swapInto cfg n (b.rows j)
            else b.rows k).reqPromptEmbeds = t.request.promptEmbeds ∧
          (cfg.isPoolingModel = true → (if k = j then (b.rows j).swapInto cfg n (b.rows i)
            else if k = i then (b.rows i).swapInto cfg n (b.rows j)
            else b.rows k).logitsProcessingNeedsTokenIds =
              (b.rows (Equiv.swap i j k)).logitsProcessingNeedsTokenIds) := by
        refine ⟨fun v hv => ?_, ?_, fun hpool => ?_⟩
        · split_ifs with hcase
          · obtain ⟨⟨halloc, hpool⟩, -⟩ := hcase
            rw [← hold.mask v hv]
            rcases hkij with rfl | rfl
            · rw [Equiv.swap_apply_left]
            · rw [Equiv.swap_apply_right, hmask halloc (not_eq_true _ ▸ hpool) v hv]
          · have hun : b.maskAllocated = false := by
              by_cases hpool : cfg.isPoolingModel = true
              · exact h.pooling hpool
              · rw [← not_eq_true]
                exact fun halloc => hcase ⟨⟨halloc, hpool⟩, hkij⟩
            rw [h.blocks_eq_false hun ht]
            exact h.unallocated hun k v
        · rw [← hold.embeds]
          rcases hkij with rfl | rfl
          · by_cases hij : k = j
            · subst hij
              simp
            · simp [hij]
          · simp
        · have hflags := hneeds hpool
          rcases hkij with rfl | rfl
          · by_cases hij : k = j
            · subst hij
              simp
            · simp [hij, hflags]
          · simp [hflags]
      refine ⟨hm, he, fun hnone p hp => ?_⟩
      rw [hnone] at hkind
      exact (hf hkind).trans (hold.needs hnone p hp)
    · obtain ⟨hki, hkj⟩ := not_or.1 hkij
      rw [Equiv.swap_apply_of_ne_of_ne hki hkj] at hold
      simpa [hki, hkj] using hold
  · rw [e.maskAllocated] at hun
    obtain ⟨n, -, hrow⟩ := swapRows_apply cfg b i j k
    rw [e.rows, hrow]
    dsimp only
    split_ifs
    · exact h.unallocated hun j v
    · exact h.unallocated hun k v
  · rw [e.maskAllocated]
    exact h.allocated id t ht hneeds
  · rw [e.maskAllocated]
    exact h.pooling hpool

/-- **A request that leaves** takes nothing from the others. -/
theorem Confined.remove (e : RemoveEffect cfg id i b b') :
    b'.Confined cfg (nextTenants T (.remove id)) := by
  refine ⟨fun k id' t hk ht => ?_, fun hun k v => ?_, fun id' t ht hneeds => ?_, fun hpool => ?_⟩
  · rw [e.idAt] at hk
    split_ifs at hk with hki
    rw [e.rows, update_of_ne hki]
    exact h.own k id' t hk (update_none_eq_some.1 ht).2
  · rw [e.maskAllocated] at hun
    rw [e.rows, update_apply]
    split_ifs
    · rw [Row.unload]
      split_ifs
      · exact h.unallocated hun i v
      · rfl
      · exact h.unallocated hun i v
    · exact h.unallocated hun k v
  · rw [e.maskAllocated]
    exact h.allocated id' t (update_none_eq_some.1 ht).2 hneeds
  · rw [e.maskAllocated]
    exact h.pooling hpool

/-- Speculative tokens leave the constraints alone. -/
theorem Confined.spec {tokens : List ℤ} (hs : b.Seated cfg T)
    (hat : b.idAt i = some id) (e : SpecEffect cfg i tokens b b') :
    b'.Confined cfg (nextTenants T (.spec id tokens)) := by
  obtain ⟨cells, flags, hrows, -⟩ := e.rows
  obtain ⟨t₀, ht₀⟩ := hs.exists_tenant hat
  have hT : ∀ id' t, nextTenants T (.spec id tokens) id' = some t →
      ∃ t', T id' = some t' ∧ t'.request = t.request := by
    intro id' t ht
    rw [nextTenants, ht₀, Option.map_some] at ht
    rcases update_some_eq_some.1 ht with ⟨rfl, rfl⟩ | ⟨-, ht⟩
    · exact ⟨t₀, ht₀, rfl⟩
    · exact ⟨t, ht, rfl⟩
  refine ⟨fun k id' t hk ht => ?_, fun hun k v => ?_, fun id' t ht hneeds => ?_, fun hpool => ?_⟩
  · obtain ⟨t', ht', hreq⟩ := hT id' t ht
    rw [idAt, e.reqIds] at hk
    have hold := h.own k id' t' hk ht'
    rw [hreq] at hold
    rw [hrows, update_apply]
    split_ifs with hki
    · subst hki
      exact ⟨hold.mask, hold.embeds, hold.needs⟩
    · exact hold
  · rw [e.maskAllocated] at hun
    rw [hrows, update_apply]
    split_ifs
    · exact h.unallocated hun i v
    · exact h.unallocated hun k v
  · obtain ⟨t', ht', hreq⟩ := hT id' t ht
    rw [e.maskAllocated]
    exact h.allocated id' t' ht' (hreq ▸ hneeds)
  · rw [e.maskAllocated]
    exact h.pooling hpool

end

/-- **Every clean operation** keeps the constraints with their requests. -/
theorem Confined.step {op : BatchOp} (hs : b.Seated cfg T)
    (hop : b.Meets cfg op ∧ b.Clean cfg op) (he : OpEffect cfg (CleanMove cfg) op b b')
    (h : b.Confined cfg T) : b'.Confined cfg (nextTenants T op) := by
  cases he with
  | absent hnone =>
    rw [nextTenants, ← (hs.tenants _).1 hnone, update_eq_self]
    exact h
  | remove _ _ _ e => exact h.remove e
  | add hnew _ e =>
    refine h.add (fun k hk => ?_) hop.1.2.1 hop.2 e
    rw [(hs.index _ k).2 hk] at hnew
    cases hnew
  | spec hat e => exact h.spec hs hat e
  | condense hslides e =>
    have hsort : b.sortRemoved.Confined cfg T := ⟨h.own, h.unallocated, h.allocated, h.pooling⟩
    have h₁ := hsort.slides (hs.withBuilder _) hslides
    refine ⟨fun k id t hk ht => ?_, ?_, ?_, ?_⟩
    · rw [e.rows]
      exact h₁.own k id t ((e.idAt k).symm.trans hk) ht
    all_goals rw [e.maskAllocated]
    · rw [e.rows]
      exact h₁.unallocated
    · exact h₁.allocated
    · exact h₁.pooling
  | swap hi hj e => exact h.swap hs hop.2 e

/-- **A sequence of clean steps** keeps the constraints with their requests. -/
theorem Confined.run (h : b.Confined cfg T) (hs : b.Seated cfg T) (hpacked : b.Packed)
    (hfresh : b.batchUpdateBuilder = {}) {steps : List BatchStep}
    (hmeet : StepsMeet cfg (fun b op => b.Meets cfg op ∧ b.Clean cfg op) steps b) :
    ∃ b', InputBatch.run cfg steps b = .ok b' ∧ b'.Confined cfg (tenantsAfter steps T) := by
  obtain ⟨b', hrun, -, -, h'⟩ := hs.run_steps (Q := CleanMove cfg) (R := Confined cfg)
    (fun _ _ hp => hp.1) (fun _ hp => hp.2)
    (fun _ _ _ _ hs hop he h => Confined.step hs hop he h)
    (fun _ _ h => ⟨h.own, h.unallocated, h.allocated, h.pooling⟩) hpacked hfresh h hmeet
  exact ⟨b', hrun, h'⟩

theorem confined_init (cfg : BatchConfig) : (init cfg).Confined cfg fun _ => none :=
  ⟨by simp, fun _ _ _ => rfl, by simp, fun _ => rfl⟩

end InputBatch

open InputBatch in
/-- **Constraints do not leak between requests** in steps that do not meet left-overs: every
row confines its own request, and so what a request may generate is the same in any two such
batches. -/
theorem constraints_stay (cfg : BatchConfig) (steps : List BatchStep)
    (hmeet : StepsMeet cfg (fun b op => b.Meets cfg op ∧ b.Clean cfg op) steps (init cfg)) :
    ∃ b, run cfg steps (init cfg) = .ok b ∧
      (∀ i id t, b.reqIds[i]? = some (some id) → tenantsAfter steps (fun _ => none) id = some t →
        (b.rows i).Confines cfg t.request) ∧
      ∀ steps' b', StepsMeet cfg (fun b op => b.Meets cfg op ∧ b.Clean cfg op) steps' (init cfg) →
        run cfg steps' (init cfg) = .ok b' → ∀ i i' id id' t t',
          b.reqIds[i]? = some (some id) → tenantsAfter steps (fun _ => none) id = some t →
          b'.reqIds[i']? = some (some id') → tenantsAfter steps' (fun _ => none) id' = some t' →
          t.request = t'.request → (∀ v < cfg.vocabSize,
            (b.rows i).allowedTokenIdsMask v = (b'.rows i').allowedTokenIdsMask v) ∧
          (b.rows i).reqPromptEmbeds = (b'.rows i').reqPromptEmbeds := by
  have hconfines : ∀ steps,
      StepsMeet cfg (fun b op => b.Meets cfg op ∧ b.Clean cfg op) steps (init cfg) →
      ∃ b, run cfg steps (init cfg) = .ok b ∧ ∀ i id t, b.reqIds[i]? = some (some id) →
          tenantsAfter steps (fun _ => none) id = some t → (b.rows i).Confines cfg t.request := by
    intro steps hmeet
    obtain ⟨b, hrun, h⟩ := (confined_init cfg).run (seated_init cfg)
      (fun i hi => absurd hi (Nat.not_lt_zero i)) rfl hmeet
    exact ⟨b, hrun, fun i id t hi ht => h.own i id t (getElem?_eq_some_some.1 hi) ht⟩
  obtain ⟨b, hrun, h⟩ := hconfines steps hmeet
  refine ⟨b, hrun, h, fun steps' b' hmeet' hrun' i i' id id' t t' hi ht hi' ht' hreq => ?_⟩
  obtain ⟨c, hc, h'⟩ := hconfines steps' hmeet'
  obtain rfl := Except.ok.inj (hc.symm.trans hrun')
  have hrow := h i id t hi ht
  have hrow' := h' i' id' t' hi' ht'
  refine ⟨fun v hv => ?_, ?_⟩
  · rw [hrow.mask v hv, hrow'.mask v hv, hreq]
  · rw [hrow.embeds, hrow'.embeds, hreq]

/-- A request with allowed tokens is added, and one without. -/
def allowedFirst : BatchStep :=
  ⟨[], [.inl (smallRequest 0 { allowedTokenIds := some [3] }), .inl (smallRequest 1 {})], []⟩

open InputBatch in
/-- A request with allowed tokens leaves, and one without moves into its row. -/
theorem constraints_stay_small :
    ∃ b, run smallConfig [allowedFirst, ⟨[0], [], []⟩] (init smallConfig) = .ok b ∧
      b.reqIds[0]? = some (some 1) ∧ ∀ v < 10, (b.rows 0).allowedTokenIdsMask v = false := by
  obtain ⟨b, hrun, hrows, -⟩ := constraints_stay smallConfig [allowedFirst, ⟨[0], [], []⟩]
    (by decide +kernel)
  have hid : (run smallConfig [allowedFirst, ⟨[0], [], []⟩] (init smallConfig)).toOption.bind
      (fun b => b.reqIds[0]?) = some (some 1) := by decide +kernel
  rw [hrun] at hid
  exact ⟨b, hrun, hid, fun v hv => (hrows 0 1 ⟨smallRequest 1 {}, []⟩ hid rfl).mask v hv⟩

/-- A request without allowed tokens is added, and one with. -/
def allowedSecond : BatchStep :=
  ⟨[], [.inl (smallRequest 0 {}), .inl (smallRequest 1 { allowedTokenIds := some [3] })], []⟩

/-- A request with prompt embeddings is added. -/
def embedsFirst : BatchStep :=
  ⟨[], [.inl { smallRequest 0 {} with promptEmbeds := some ⟨7, 2⟩ }], []⟩

def poolingConfig : BatchConfig := { smallConfig with isPoolingModel := true }

/-- A pooling request with a prompt of two tokens. -/
def poolingRequest (id : ReqId) (requiresTokenIds : Bool) : CachedRequestState :=
  { smallRequest id {} with samplingParams := none, poolingParams := some ⟨requiresTokenIds⟩ }

/-- A pooling request that needs its tokens leaves, and one that does not moves down. -/
def poolingSteps : List BatchStep :=
  [⟨[], [.inl (poolingRequest 0 true), .inl (poolingRequest 1 false)], []⟩, ⟨[0], [], []⟩]

open InputBatch in
/-- **The left-overs reach other requests.** Prompt embeddings stay in a row that is reused, the
mask stays in a row that was moved away, a swap copies the mask of the second row onto the
first, and the flag of a pooling request stays behind when the request moves. -/
theorem constraints_leak :
    -- the second request has the prompt embeddings of the first one
    (StepsMeet smallConfig (Meets smallConfig)
        [embedsFirst, ⟨[0], [.inl (smallRequest 1 {})], []⟩] (init smallConfig) ∧
      (run smallConfig [embedsFirst, ⟨[0], [.inl (smallRequest 1 {})], []⟩]
        (init smallConfig)).toOption.map
        (fun b => (b.reqIds, (b.rows 0).reqPromptEmbeds)) = some ([some 1], some ⟨7, 2⟩)) ∧
    -- the third request, without allowed tokens, may not generate token 4
    (StepsMeet smallConfig (Meets smallConfig)
        [allowedSecond, ⟨[0], [], []⟩, ⟨[], [.inl (smallRequest 2 {})], []⟩] (init smallConfig) ∧
      (run smallConfig [allowedSecond, ⟨[0], [], []⟩, ⟨[], [.inl (smallRequest 2 {})], []⟩]
        (init smallConfig)).toOption.map
        (fun b => (b.reqIds, (b.rows 1).allowedTokenIdsMask 4)) = some ([some 1, some 2], true)) ∧
    -- after a swap the request with allowed tokens may generate every token
    (StepsMeet smallConfig (Meets smallConfig)
        [{ allowedFirst with swaps := [.inl (0, 1)] }] (init smallConfig) ∧
      (run smallConfig [{ allowedFirst with swaps := [.inl (0, 1)] }]
        (init smallConfig)).toOption.map
        (fun b => (b.reqIds, (b.rows 1).allowedTokenIdsMask 4)) = some ([some 1, some 0], false)) ∧
    -- the pooling request that moves down has the flag of the one that left
    StepsMeet poolingConfig (Meets poolingConfig) poolingSteps (init poolingConfig) ∧
      (run poolingConfig poolingSteps (init poolingConfig)).toOption.map
        (fun b => (b.reqIds, (b.rows 0).logitsProcessingNeedsTokenIds)) =
          some ([some 1], true) := by
  decide +kernel

end KVarN.Worker
