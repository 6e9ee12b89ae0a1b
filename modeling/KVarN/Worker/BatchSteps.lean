import KVarN.Worker.Condensing

/-!
# Steps of the batch

A step removes and adds requests, condenses the rows and swaps some. An invariant that every
effect keeps holds after every sequence of steps whose operations meet what they assume.

## Main definitions

* `InputBatch.Meets` — what the operations assume.
* `InputBatch.OpEffect` — what an operation does to the batch.

## Main results

* `InputBatch.Seated.run_steps` — the rule for invariants.
* `rows_follow_requests` — the rows after every sequence of steps.
-/

namespace KVarN.Worker

open KVarN.Lib LoRARequest BatchStep List Equiv Nat

namespace InputBatch

variable {cfg : BatchConfig} {T : Tenants} {b b' : InputBatch} {id : ReqId} {i j : ℕ} {t : Tenant}
  {Q : InputBatch → ℕ → ℕ → Prop}

/-! ## Steps -/

/-- What the operations assume: new requests are not in the batch, fit into it and have room;
speculative tokens are of requests of the batch and fit; rows that are swapped have requests. -/
def Meets (cfg : BatchConfig) (b : InputBatch) : BatchOp → Prop
  | .add request => b.reqIdToIndex.get? request.reqId = none ∧ request.Fits cfg ∧
      b.numReqs < cfg.maxNumReqs
  | .spec id tokens => ∃ i ∈ b.reqIdToIndex.get? id,
      (b.rows i).numTokensNoSpec + tokens.length ≤ cfg.maxModelLen
  | .swap i j => i < b.numReqs ∧ j < b.numReqs
  | .remove _ | .condense => True

/-- All operations meet a condition in the states in which they are called. -/
def AllMeet (cfg : BatchConfig) (P : InputBatch → BatchOp → Prop) :
    List BatchOp → InputBatch → Prop
  | [], _ => True
  | op :: ops, b => P b op ∧ ∀ b' ∈ (b.exec cfg op).toOption, AllMeet cfg P ops b'

/-- All operations of a sequence of steps meet a condition. -/
def StepsMeet (cfg : BatchConfig) (P : InputBatch → BatchOp → Prop) :
    List BatchStep → InputBatch → Prop
  | [], _ => True
  | s :: steps, b => AllMeet cfg P s.ops b ∧
      ∀ r ∈ (b.step cfg s).toOption, StepsMeet cfg P steps r.2

instance (cfg : BatchConfig) (b : InputBatch) (op : BatchOp) : Decidable (b.Meets cfg op) :=
  match op with
  | .add _ | .swap _ _ => inferInstanceAs (Decidable (_ ∧ _))
  | .spec id _ => inferInstanceAs (Decidable (∃ i ∈ b.reqIdToIndex.get? id, _))
  | .remove _ | .condense => inferInstanceAs (Decidable True)

instance decidableAllMeet (cfg : BatchConfig) (P : InputBatch → BatchOp → Prop)
    [∀ b op, Decidable (P b op)] :
    (ops : List BatchOp) → (b : InputBatch) → Decidable (AllMeet cfg P ops b)
  | [], _ => inferInstanceAs (Decidable True)
  | op :: ops, b =>
    let _ := decidableAllMeet cfg P ops
    inferInstanceAs (Decidable (_ ∧ ∀ b' ∈ (b.exec cfg op).toOption, _))

instance decidableStepsMeet (cfg : BatchConfig) (P : InputBatch → BatchOp → Prop)
    [∀ b op, Decidable (P b op)] :
    (steps : List BatchStep) → (b : InputBatch) → Decidable (StepsMeet cfg P steps b)
  | [], _ => inferInstanceAs (Decidable True)
  | s :: steps, b =>
    let _ := decidableStepsMeet cfg P steps
    inferInstanceAs (Decidable (_ ∧ ∀ r ∈ (b.step cfg s).toOption, _))

/-- **What one operation does** to a batch in which the rows belong to their tenants. -/
inductive OpEffect (cfg : BatchConfig) (Q : InputBatch → ℕ → ℕ → Prop) :
    BatchOp → InputBatch → InputBatch → Prop
  | absent {b : InputBatch} {id : ReqId} (h : b.reqIdToIndex.get? id = none) :
      OpEffect cfg Q (.remove id) b b
  | remove {b b' : InputBatch} {id : ReqId} {i : ℕ} (h : b.idAt i = some id)
      (hadded : b.batchUpdateBuilder.added = []) (hmoved : b.batchUpdateBuilder.moved = [])
      (e : RemoveEffect cfg id i b b') : OpEffect cfg Q (.remove id) b b'
  | add {b b' : InputBatch} {request : CachedRequestState} {i : ℕ}
      (h : b.reqIdToIndex.get? request.reqId = none)
      (hmoved : b.batchUpdateBuilder.moved = []) (e : AddEffect cfg request i b b') :
      OpEffect cfg Q (.add request) b b'
  | spec {b b' : InputBatch} {id : ReqId} {tokens : List ℤ} {i : ℕ} (h : b.idAt i = some id)
      (e : SpecEffect cfg i tokens b b') : OpEffect cfg Q (.spec id tokens) b b'
  | condense {b b₁ b' : InputBatch} (hslides : Slides cfg Q b.sortRemoved b₁)
      (e : TrimEffect b₁ b') : OpEffect cfg Q .condense b b'
  | swap {b b' : InputBatch} {i j : ℕ} (hi : b.idAt i ≠ none) (hj : b.idAt j ≠ none)
      (e : SwapEffect cfg i j b b') : OpEffect cfg Q (.swap i j) b b'

section Phases

variable {P : InputBatch → BatchOp → Prop} {R : List BatchOp → Tenants → InputBatch → Prop}
  {Φ : InputBatch → Prop} {ops ops' pre : List BatchOp}

theorem allMeet_append : AllMeet cfg P (ops ++ ops') b ↔ AllMeet cfg P ops b ∧
    ∀ b' ∈ (ops.foldlM (exec cfg) b).toOption, AllMeet cfg P ops' b' := by
  induction ops generalizing b with
  | nil =>
    rw [nil_append, AllMeet, true_and]
    exact ⟨fun h b' hb' => Option.some.inj hb' ▸ h, fun h => h b rfl⟩
  | cons op ops ih =>
    rw [cons_append, AllMeet, AllMeet, foldlM_cons, and_assoc]
    refine and_congr_right fun _ => ?_
    rcases b.exec cfg op with e | b₁
    · simp [Except.toOption, bind, Except.bind]
    · exact ⟨fun h => ⟨fun b' hb' => (ih.1 (h b' hb')).1, (ih.1 (h b₁ rfl)).2⟩,
        fun h b' hb' => ih.2 ⟨h.1 b' hb', Option.some.inj hb' ▸ h.2⟩⟩

/-- **A phase of a step**: an invariant that every operation of the phase keeps. It may speak
of the operations so far. -/
theorem foldlM_phase
    (hstep : ∀ op ∈ ops, ∀ (T : Tenants) (b : InputBatch), b.Seated cfg T → Φ b → P b op →
      ∃ b', b.exec cfg op = .ok b' ∧ OpEffect cfg Q op b b' ∧ b'.Seated cfg (nextTenants T op) ∧
        Φ b') (hR : ∀ op ∈ ops, ∀ (pre : List BatchOp) (T : Tenants) (b b' : InputBatch),
      b.Seated cfg T → P b op → OpEffect cfg Q op b b' → R pre T b →
      R (pre ++ [op]) (nextTenants T op) b')
    (h : b.Seated cfg T) (hΦ : Φ b) (hRb : R pre T b) (hmeet : AllMeet cfg P ops b) :
    ∃ b', ops.foldlM (exec cfg) b = .ok b' ∧ b'.Seated cfg (ops.foldl nextTenants T) ∧ Φ b' ∧
      R (pre ++ ops) (ops.foldl nextTenants T) b' := by
  induction ops generalizing b T pre with
  | nil => exact ⟨b, rfl, h, hΦ, by rwa [append_nil]⟩
  | cons op ops ih =>
    obtain ⟨b₁, hok, heffect, h₁, hΦ₁⟩ := hstep op mem_cons_self T b h hΦ hmeet.1
    obtain ⟨b', hrun, h', hΦ', hR'⟩ := ih
      (fun op' hop' => hstep op' (mem_cons_of_mem op hop'))
      (fun op' hop' => hR op' (mem_cons_of_mem op hop')) h₁ hΦ₁
      (hR op mem_cons_self pre T b b₁ h hmeet.1 heffect hRb) (hmeet.2 b₁ (by rw [hok]; rfl))
    rw [append_assoc, singleton_append] at hR'
    refine ⟨b', ?_, h', hΦ', hR'⟩
    rw [foldlM_cons, hok]
    exact hrun

variable (hP : ∀ b op, P b op → Meets cfg b op) (hQ : ∀ b, P b .condense → CondenseMeets cfg Q b)
  {s : BatchStep} (hR : ∀ (pre : List BatchOp) (T : Tenants) (op : BatchOp) (b b' : InputBatch),
    (op = .condense → pre = s.early) → b.Seated cfg T → P b op → OpEffect cfg Q op b b' →
    R pre T b → R (pre ++ [op]) (nextTenants T op) b')

include hP hQ hR in
/-- **The operations of a step**: they do not fail, and an invariant that every operation keeps
holds after them. -/
theorem Seated.run_ops (h : b.Seated cfg T) (hpacked : b.Packed)
    (hfresh : b.batchUpdateBuilder = {})
    (hRb : R [] T b) (hmeet : AllMeet cfg P s.ops b) :
    ∃ b', s.ops.foldlM (exec cfg) b = .ok b' ∧ b'.Seated cfg (s.ops.foldl nextTenants T) ∧
      b'.Packed ∧ R s.ops (s.ops.foldl nextTenants T) b' := by
  have hholes : b.Holes := by
    refine ⟨by rw [hfresh]; exact nodup_nil, fun _ => by rw [hfresh]; exact .nil, fun i => ?_⟩
    rw [hfresh]
    refine ⟨fun hi => absurd hi not_mem_nil, fun hi => absurd hi.2 (hpacked i hi.1)⟩
  rw [ops, early] at hmeet ⊢
  rw [append_assoc] at hmeet ⊢
  obtain ⟨hmeet₁, hmeet⟩ := allMeet_append.1 hmeet
  -- removals
  obtain ⟨b₁, hrun₁, h₁, ⟨hholes₁, -, -, hmoved₁⟩, hR₁⟩ := foldlM_phase (Q := Q)
    (Φ := fun b => b.Holes ∧ b.batchUpdateBuilder.isRemovedSorted = false ∧
      b.batchUpdateBuilder.added = [] ∧ b.batchUpdateBuilder.moved = [])
    (by
      rintro _ hop T b h ⟨hholes, hsorted, hadded, hmoved⟩ -
      obtain ⟨id, -, rfl⟩ := mem_map.1 hop
      obtain ⟨b', hok, h', hholes', hsorted'⟩ := h.removeRequest hholes hsorted id
      rcases h.removeRequest_effect hsorted id with ⟨hsame, hnone⟩ | ⟨i, t, c, hc, hat, -, e, -⟩
      · obtain rfl := Except.ok.inj (hsame.symm.trans hok)
        exact ⟨b, hok, .absent ((h.tenants id).2 hnone), h', hholes', hsorted', hadded, hmoved⟩
      · obtain rfl := Except.ok.inj (hc.symm.trans hok)
        exact ⟨c, hok, .remove hat hadded hmoved e, h', hholes', hsorted', e.added.trans hadded,
          e.moved.trans hmoved⟩)
    (fun op hop pre T b b' => hR pre T op b b' (by rintro rfl; simp at hop))
    h ⟨hholes, by rw [hfresh], by rw [hfresh], by rw [hfresh]⟩ hRb hmeet₁
  -- additions
  obtain ⟨hmeet₂, hmeet⟩ := allMeet_append.1 (hmeet b₁ (by rw [hrun₁]; rfl))
  obtain ⟨b₂, hrun₂, h₂, ⟨hholes₂, -⟩, hR₂⟩ := foldlM_phase (Q := Q)
    (Φ := fun b => b.Holes ∧ b.batchUpdateBuilder.moved = [])
    (by
      rintro _ hop T b h ⟨hholes, hmoved⟩ hp
      obtain ⟨x, -, rfl⟩ := mem_map.1 hop
      have hm := hP b _ hp
      rcases x with request | ⟨id, tokens⟩
      · obtain ⟨hnew, hfits, hroom⟩ := hm
        obtain ⟨b', hok, h', hholes'⟩ := h.addRequest hholes hnew hfits hroom
        obtain ⟨i, c, hc, e⟩ := h.addRequest_effect hholes hfits hroom
        obtain rfl := Except.ok.inj (hc.symm.trans hok)
        exact ⟨c, hok, .add hnew hmoved e, h', hholes', e.moved.trans hmoved⟩
      · obtain ⟨i, hget, hfit⟩ := hm
        obtain ⟨b', hok, h', e⟩ := h.updateReqSpecTokenIds hget hfit
        refine ⟨b', hok, .spec ((h.index id i).1 hget) e, h', ?_, e.builder ▸ hmoved⟩
        exact ⟨e.builder ▸ hholes.nodup, e.builder ▸ hholes.sorted, fun k => by
          rw [e.builder, idAt, e.reqIds]; exact hholes.iff k⟩)
    (fun op hop pre T b b' => hR pre T op b b' (by rintro rfl; simp at hop))
    h₁ ⟨hholes₁, hmoved₁⟩ hR₁ hmeet₂
  -- condense
  obtain ⟨hp, hmeet₃⟩ := hmeet b₂ (by rw [hrun₂]; rfl)
  obtain ⟨c, b₃, hok₃, hslides, htrim, h₃, hpacked₃⟩ := h₂.condense hholes₂ (hQ b₂ hp)
  have hR₃ := hR _ _ .condense b₂ b₃ (fun _ => rfl) h₂ hp (.condense hslides htrim) hR₂
  -- swaps
  obtain ⟨b', hrun₄, h', hpacked', hR'⟩ := foldlM_phase (Q := Q) (Φ := Packed)
    (by
      rintro _ hop T b h hpacked hp
      obtain ⟨x, -, rfl⟩ := mem_map.1 hop
      have hm := hP b _ hp
      rcases x with ⟨i, j⟩ | ⟨id, tokens⟩
      · obtain ⟨hi, hj⟩ := hm
        rw [h.numReqs_of_packed hpacked] at hi hj
        obtain ⟨id₁, hid₁⟩ := Option.ne_none_iff_exists'.1 (hpacked i hi)
        obtain ⟨id₂, hid₂⟩ := Option.ne_none_iff_exists'.1 (hpacked j hj)
        obtain ⟨b', hok, e⟩ := h.swapStates_effect hid₁ hid₂
        refine ⟨b', hok, .swap (hpacked i hi) (hpacked j hj) e, h.swapStates hid₁ hid₂ e,
          fun k hk => ?_⟩
        rw [e.length] at hk
        rw [e.idAt]
        refine hpacked _ ?_
        by_cases hki : k = i
        · rwa [hki, swap_apply_left]
        · by_cases hkj : k = j
          · rwa [hkj, swap_apply_right]
          · rwa [swap_apply_of_ne_of_ne hki hkj]
      · obtain ⟨i, hget, hfit⟩ := hm
        obtain ⟨b', hok, h', e⟩ := h.updateReqSpecTokenIds hget hfit
        refine ⟨b', hok, .spec ((h.index id i).1 hget) e, h', fun k hk => ?_⟩
        rw [e.reqIds] at hk
        rw [idAt, e.reqIds]
        exact hpacked k hk)
    (fun op hop pre T b b' => hR pre T op b b' (by rintro rfl; simp at hop))
    h₃ hpacked₃ hR₃ (hmeet₃ b₃ (by rw [exec, hok₃]; rfl))
  refine ⟨b', ?_, ?_, hpacked', ?_⟩
  · rw [foldlM_append, hrun₁]
    simp only [ok_bind]
    rw [foldlM_append, hrun₂]
    simp only [ok_bind]
    rw [foldlM_cons, exec, hok₃]
    exact hrun₄
  · rw [foldl_append, foldl_append, foldl_cons]
    exact h'
  · rw [foldl_append, foldl_append, foldl_cons]
    simp only [early, append_assoc, singleton_append] at hR'
    exact hR'

/-- Refreshing the metadata resets the builder. -/
theorem refreshMetadata_snd (cfg : BatchConfig) (b : InputBatch) :
    (b.refreshMetadata cfg).2 = { b with batchUpdateBuilder := {} } := by
  rw [refreshMetadata]
  split_ifs
  · rfl
  · rw [BatchUpdateBuilder.getAndReset]
    split_ifs with hnil
    · obtain ⟨hremoved, hmoved, hadded⟩ := hnil
      simp only [hremoved, hmoved, hadded]
    · rfl

/-- The requests after a sequence of steps. -/
def tenantsAfter (steps : List BatchStep) (T : Tenants) : Tenants :=
  (steps.flatMap BatchStep.ops).foldl nextTenants T

theorem tenantsAfter_cons (s : BatchStep) (steps : List BatchStep) (T : Tenants) :
    tenantsAfter (s :: steps) T = tenantsAfter steps (s.ops.foldl nextTenants T) := by
  rw [tenantsAfter, flatMap_cons, foldl_append, tenantsAfter]

include hP hQ hR in
/-- **A step**: it does not fail, and what its operations keep holds when its metadata are
refreshed. -/
theorem Seated.run_step (h : b.Seated cfg T) (hpacked : b.Packed)
    (hfresh : b.batchUpdateBuilder = {}) (hRb : R [] T b) (hmeet : AllMeet cfg P s.ops b) :
    ∃ b₁, b.step cfg s = .ok (b₁.refreshMetadata cfg) ∧
      b₁.Seated cfg (s.ops.foldl nextTenants T) ∧ b₁.Packed ∧
      R s.ops (s.ops.foldl nextTenants T) b₁ := by
  obtain ⟨b₁, hops, h₁, hpacked₁, hR₁⟩ := h.run_ops hP hQ hR hpacked hfresh hRb hmeet
  refine ⟨b₁, ?_, h₁, hpacked₁, hR₁⟩
  rw [step, hops]
  rfl

include hP hQ in
/-- **A sequence of steps** does not fail and keeps what every operation and the reset of the
builder keep. -/
theorem Seated.run_steps {R : Tenants → InputBatch → Prop}
    (hR : ∀ (T : Tenants) (op : BatchOp) (b b' : InputBatch), b.Seated cfg T → P b op →
      OpEffect cfg Q op b b' → R T b → R (nextTenants T op) b')
    (hreset : ∀ T b, R T b → R T { b with batchUpdateBuilder := {} })
    (h : b.Seated cfg T) (hpacked : b.Packed) (hfresh : b.batchUpdateBuilder = {}) (hRb : R T b)
    {steps : List BatchStep} (hmeet : StepsMeet cfg P steps b) :
    ∃ b', run cfg steps b = .ok b' ∧ b'.Seated cfg (tenantsAfter steps T) ∧
      b'.Packed ∧ R (tenantsAfter steps T) b' := by
  induction steps generalizing b T with
  | nil => exact ⟨b, rfl, h, hpacked, hRb⟩
  | cons s steps ih =>
    obtain ⟨b₁, hstep, h₁, hpacked₁, hR₁⟩ := h.run_step (R := fun _ => R) hP hQ
      (fun _ T op b b' _ => hR T op b b') hpacked hfresh hRb hmeet.1
    have hbuilder := refreshMetadata_snd cfg b₁
    obtain ⟨b', hrun, h'⟩ := ih (b := (b₁.refreshMetadata cfg).2)
      (hbuilder ▸ h₁.withBuilder {}) (hbuilder ▸ hpacked₁) (by rw [hbuilder])
      (hbuilder ▸ hreset _ b₁ hR₁) (hmeet.2 _ (by rw [hstep]; rfl))
    rw [tenantsAfter_cons]
    refine ⟨b', ?_, h'⟩
    rw [run, hstep]
    exact hrun

end Phases

theorem seated_init (cfg : BatchConfig) : (init cfg).Seated cfg fun _ => none := by
  refine ⟨fun id i => ?_, fun id => ⟨fun _ => rfl, fun _ => rfl⟩, by simp, by simp, by simp,
    fun i _ => ⟨fun _ => ⟨rfl, rfl⟩, ?_⟩, fun i => ?_, zero_le _, zero_le _, rfl, ?_, ?_,
    fun L => by simp [init]⟩
  · simp [init, idAt]
  · simp only [spec, init, getD_eq_getElem?_getD, getElem?_replicate]
    split_ifs <;> rfl
  · exact length_map _
  · simp [init]
  · simp [init]

/-- **A sequence of steps** does not fail and keeps the rows with their tenants. -/
theorem Seated.run (h : b.Seated cfg T) (hpacked : b.Packed) (hfresh : b.batchUpdateBuilder = {})
    {steps : List BatchStep} (hmeet : StepsMeet cfg (Meets cfg) steps b) :
    ∃ b', run cfg steps b = .ok b' ∧ b'.Seated cfg (tenantsAfter steps T) ∧ b'.Packed := by
  obtain ⟨b', hrun, h', hpacked', -⟩ := h.run_steps (Q := fun _ _ _ => True)
    (R := fun _ _ => True) (fun _ _ => id)
    (fun _ _ => condenseAll_of_forall (fun _ _ _ => trivial) _ _ _)
    (fun _ _ _ _ _ _ _ => id) (fun _ _ => id) hpacked hfresh trivial hmeet
  exact ⟨b', hrun, h', hpacked'⟩

theorem getElem?_eq_some_some : b.reqIds[i]? = some (some id) ↔ b.idAt i = some id := by
  rw [idAt, getD_eq_getElem?_getD]
  rcases b.reqIds[i]? with _ | _ | id' <;> simp

end InputBatch

open InputBatch in
/-- **The rows of the batch belong to their requests.** After every sequence of steps, the
index is a bijection between the requests of the batch and its first rows and inverse to the
list of ids; each row holds the tokens, counts, speculative tokens, blocks, adapter and
sampling parameters of its own request; and the LoRA sets list the requests of each adapter. -/
theorem rows_follow_requests (cfg : BatchConfig) (steps : List BatchStep)
    (hmeet : StepsMeet cfg (Meets cfg) steps (init cfg)) : ∃ b, run cfg steps (init cfg) = .ok b ∧
      (∀ id, b.reqIdToIndex.get? id = none ↔ tenantsAfter steps (fun _ => none) id = none) ∧
      (∀ id i, b.reqIdToIndex.get? id = some i ↔ b.reqIds[i]? = some (some id)) ∧
      b.reqIds.length = b.numReqs ∧ (∀ i < b.numReqs, ∃ id, b.reqIds[i]? = some (some id)) ∧
      (∀ i id t, b.reqIds[i]? = some (some id) → tenantsAfter steps (fun _ => none) id = some t →
        t.request.reqId = id ∧ b.specTokenIds[i]? = some t.spec ∧ (b.rows i).Holds cfg t) ∧
      (∀ L id, (∃ s, b.loraIdToRequestIds.get? L = some s ∧ id ∈ s) ↔
        ∃ t, tenantsAfter steps (fun _ => none) id = some t ∧
          t.request.loraRequest.map loraIntId = some L) := by
  have hpacked : (init cfg).Packed := fun i hi => absurd hi (not_lt_zero i)
  obtain ⟨b, hrun, h, hpacked⟩ := (seated_init cfg).run hpacked rfl hmeet
  have hnum := h.numReqs_of_packed hpacked
  refine ⟨b, hrun, h.tenants, fun id i => ?_, hnum.symm, fun i hi => ?_, fun i id t hi ht => ?_,
    fun L id => ?_⟩
  · rw [getElem?_eq_some_some]
    exact h.index id i
  · obtain ⟨id, hid⟩ := Option.ne_none_iff_exists'.1 (hpacked i (hnum ▸ hi))
    exact ⟨id, getElem?_eq_some_some.2 hid⟩
  · rw [getElem?_eq_some_some] at hi
    obtain ⟨hspec, hrow⟩ := h.own i id t hi ht
    refine ⟨h.named id t ht, ?_, hrow⟩
    have hlt := (idAt_lt hi).trans_le h.spare
    rw [← hspec, spec, getD_eq_getElem _ _ hlt, getElem?_eq_getElem hlt]
  · rw [← h.loras L id]
    rcases b.loraIdToRequestIds.get? L with _ | s <;> simp

/-- A batch for two requests of up to 8 tokens. -/
def smallConfig : BatchConfig := ⟨false, 2, 8, 10, false, [⟨4, 2⟩]⟩

/-- A request with a prompt of two tokens. -/
def smallRequest (id : ReqId) (params : SamplingParams) : CachedRequestState where
  reqId := id
  promptTokenIds := some [1, 2]
  samplingParams := some params
  generator := none
  blockIds := [[id]]
  numComputedTokens := 0
  outputTokenIds := ⟨id, []⟩
  loraRequest := none
  promptEmbeds := none
  promptIsTokenIds := none
  poolingParams := none

/-- Two requests are added and swapped; the one in the first row leaves. -/
def swapSteps : List BatchStep :=
  [⟨[], [.inl (smallRequest 0 {}), .inl (smallRequest 1 {})], [.inl (0, 1)]⟩,
    ⟨[1], [.inr (0, [5])], []⟩]

open InputBatch in
/-- The request that is left moves into the first row. -/
theorem rows_follow_requests_small :
    ∃ b, run smallConfig swapSteps (init smallConfig) = .ok b ∧
      b.reqIdToIndex.get? 0 = some 0 ∧ b.reqIds.length = b.numReqs := by
  obtain ⟨b, hrun, -, -, hlen, -⟩ := rows_follow_requests smallConfig swapSteps (by decide +kernel)
  refine ⟨b, hrun, ?_, hlen⟩
  have hindex : ((run smallConfig swapSteps (init smallConfig)).toOption.bind
      fun b => b.reqIdToIndex.get? 0) = some 0 := by decide +kernel
  rw [hrun] at hindex
  exact hindex

end KVarN.Worker
