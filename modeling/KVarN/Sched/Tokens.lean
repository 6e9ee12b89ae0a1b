import KVarN.Sched.Admission

/-!
# How many tokens a request gets

The tokens a request asks for are cut several times: at block boundaries for Mamba
layers, before a multimodal item that cannot be encoded, and to keep a prefill from
ending inside the look-ahead of a drafter. This module says that no cut makes them
more, and when a request that was padded to a decode keeps its padding.

The items of a request are assumed to be sorted by offset, as the binary search for
the items of a step does.

## Main results

* `Pass.planTokens_le`, `Pass.planRunning_le` — the cuts only take tokens away.
* `Pass.planAdmission_admits` — the same for an admission, and when a padding stays whole.
-/

namespace KVarN.Sched

open KVarN.Core

variable {H : Type} {cfg : SchedulerConfig H} {env : ScheduleEnv}

/-- The items are sorted by offset. -/
def Request.FeaturesSorted (r : Request H) : Prop :=
  r.mmFeatures.Pairwise fun f g => f.offset ≤ g.offset

/-! ## Encoder inputs -/

/-- Whatever `bisect_left` has passed is below the bound. -/
theorem lt_of_lt_bisectLeft {key : ℕ → ℕ} {x : ℕ} {fuel lo hi i : ℕ}
    (mono : ∀ i j, i ≤ j → j < hi → key i ≤ key j) (below : ∀ i < lo, key i < x)
    (h : i < bisectLeft key x fuel lo hi) : key i < x := by
  induction fuel generalizing lo hi with
  | zero => exact below i h
  | succ fuel ih =>
    rw [bisectLeft] at h
    split at h
    · next hlt =>
      split at h
      · next hmid =>
        refine ih mono (fun j hj => ?_) h
        exact (mono j ((lo + hi) / 2) (by omega) (by omega)).trans_lt hmid
      · exact ih (fun i j hij hj => mono i j hij (by omega)) below h
    · exact below i h

/-- The items of a window start before its end. -/
theorem offset_lt_of_window {r : Request H} (hr : r.FeaturesSorted) {start stop i : ℕ}
    {f : MmFeature} (hf : r.mmFeatures[i]? = some f)
    (hi : i < (getMmFeaturesInWindow r.mmFeatures start stop).2) : f.offset < stop := by
  have hkey : ∀ i j, i ≤ j → j < r.mmFeatures.length →
      (r.mmFeatures[i]?.map fun f => f.offset).getD 0
        ≤ (r.mmFeatures[j]?.map fun f => f.offset).getD 0 := by
    intro i j hij hj
    rw [List.getElem?_eq_getElem hj, List.getElem?_eq_getElem (hij.trans_lt hj)]
    rcases hij.eq_or_lt with rfl | hlt
    · exact le_rfl
    · exact List.pairwise_iff_getElem.1 hr i j _ hj hlt
  have hlt := lt_of_lt_bisectLeft hkey (by simp) hi
  simpa [hf] using hlt

/-- How the loop over the items changes the tokens: not at all, to none, or so that they
end before an item of the window. -/
def CutBefore (r : Request H) (c shift n n' : ℤ) : Prop :=
  n' = n ∨ n' = 0 ∨ ∃ f ∈ r.mmFeatures, c + shift < f.offset ∧ (f.offset : ℤ) < c + n + shift ∧
    n' = f.offset - (c + shift)

theorem CutBefore.le {r : Request H} {c shift n n' : ℤ} (h : CutBefore r c shift n n') :
    n' ≤ max n 0 := by
  rcases h with rfl | rfl | ⟨f, -, -, hlt, rfl⟩ <;> omega

section Encoder

variable {ec : EncoderConfig} {remote : MmHash → Bool} {r : Request H} {id : ReqId}
  {c shift windowEnd : ℤ} {i : ℕ} {p plan : EncoderPlan} {st : EncoderStep}

theorem planItem_cut {f : MmFeature}
    (hf : f ∈ r.mmFeatures) (hlt : (f.offset : ℤ) < c + p.numNewTokens + shift)
    (h : planItem ec remote r c shift windowEnd i f p = .ok st) :
    (∃ p', st = .next p' ∧ p'.numNewTokens = p.numNewTokens) ∨
      ∃ p', st = .stop p' ∧ CutBefore r c shift p.numNewTokens p'.numNewTokens := by
  rw [planItem] at h
  split at h
  · cases h
    refine .inr ⟨_, rfl, ?_⟩
    rcases le_or_gt (f.offset : ℤ) (c + shift) with hle | hgt
    · exact .inr (.inl (max_eq_left (by omega)))
    · exact .inr (.inr ⟨f, hf, hgt, hlt, max_eq_right (by omega)⟩)
  · simp only [bind_eq_ok] at h
    obtain ⟨⟨fits, cache⟩, -, h⟩ := h
    split at h
    · split at h
      · next hgt =>
        cases h
        exact .inr ⟨_, rfl, .inr (.inr ⟨f, hf, hgt, hlt, rfl⟩)⟩
      · cases h
        exact .inr ⟨_, rfl, .inr (.inl rfl)⟩
    · simp only at h
      split at h
      · cases h
        exact .inl ⟨_, rfl, rfl⟩
      · split at h
        · cases h
          exact .inl ⟨_, rfl, rfl⟩
        · cases h
          exact .inl ⟨_, rfl, rfl⟩

theorem encoderItem_cut
    (hlt : ∀ f, r.mmFeatures[i]? = some f → (f.offset : ℤ) < c + p.numNewTokens + shift)
    (h : encoderItem ec remote r id c shift windowEnd i p = .ok st) :
    (∃ p', st = .next p' ∧ p'.numNewTokens = p.numNewTokens) ∨
      ∃ p', st = .stop p' ∧ CutBefore r c shift p.numNewTokens p'.numNewTokens := by
  simp only [encoderItem, bind_eq_ok, orRaise_eq_ok] at h
  obtain ⟨f, hf, h⟩ := h
  have hmem : f ∈ r.mmFeatures := List.mem_of_getElem? hf
  split at h
  · obtain ⟨-, -, h⟩ := bind_eq_ok.1 h
    cases h
    exact .inl ⟨_, rfl, rfl⟩
  split at h
  · exact planItem_cut hmem (hlt f hf) h
  split at h
  · cases h
    exact .inl ⟨_, rfl, rfl⟩
  obtain ⟨⟨hit, cache⟩, -, h⟩ := bind_eq_ok.1 h
  simp only at h
  split at h
  · cases h
    exact .inl ⟨_, rfl, rfl⟩
  · exact planItem_cut (p := { p with cache := cache }) hmem (hlt f hf) h

theorem encoderLoop_cut {k : ℕ} (hlt : ∀ j f, i ≤ j → j < i + k → r.mmFeatures[j]? = some f →
      (f.offset : ℤ) < c + p.numNewTokens + shift)
    (h : encoderLoop ec remote r id c shift windowEnd i k p = .ok plan) :
    CutBefore r c shift p.numNewTokens plan.numNewTokens := by
  induction k generalizing i p with
  | zero =>
    cases h
    exact .inl rfl
  | succ k ih =>
    obtain ⟨st, hst, h⟩ := bind_eq_ok.1 h
    obtain ⟨p', rfl, hp'⟩ | ⟨p', rfl, hp'⟩ :=
      encoderItem_cut (fun f hf => hlt i f le_rfl (by omega) hf) hst
    · rw [← hp'] at hlt ⊢
      exact ih (fun j f hij hj => hlt j f (by omega) (by omega)) h
    · cases h
      exact hp'

/-- **Encoder inputs only take tokens away.** -/
theorem tryScheduleEncoderInputs_cut {cache : EncoderCache} {n budget : ℤ} (hr : r.FeaturesSorted)
    (h : tryScheduleEncoderInputs ec remote r id c shift cache n budget = .ok plan) :
    CutBefore r c shift n plan.numNewTokens := by
  simp only [tryScheduleEncoderInputs] at h
  split at h
  · cases h
    exact .inl rfl
  · refine encoderLoop_cut (fun j f hij hj hf => ?_) h
    have hwin : j < (getMmFeaturesInWindow r.mmFeatures c.toNat (c + n + shift).toNat).2 := by
      omega
    have hlt := offset_lt_of_window hr hf hwin
    simp only
    omega

end Encoder

/-! ## The other cuts -/

theorem foldl_min_le (l : List ℤ) (a : ℤ) : l.foldl min a ≤ a := by
  induction l generalizing a with
  | nil => exact le_rfl
  | cons x l ih => exact (ih (min a x)).trans (min_le_left a x)

theorem mambaAlignedEnd_le (hbs : 0 < cfg.cacheBlockSize) (start stop prefillEnd : ℤ) :
    mambaAlignedEnd cfg start stop prefillEnd ≤ stop := by
  have hdiv : stop / cfg.cacheBlockSize * cfg.cacheBlockSize ≤ stop :=
    Int.ediv_mul_le _ (by omega)
  simp only [mambaAlignedEnd]
  split_ifs <;> omega

/-- **The Mamba split only takes tokens away.** -/
theorem mambaSplit_le (hbs : cfg.needMambaBlockAlignedSplit = true → 0 < cfg.cacheBlockSize)
    (r : Request H) (n : ℤ) (numLocal numExternal : ℕ) :
    mambaSplit cfg r n numLocal numExternal ≤ max n 0 := by
  rw [mambaSplit]
  split
  swap
  · exact le_max_left _ _
  next hneed =>
  simp only [mambaBlockAlignedSplit]
  split
  · exact le_max_left _ _
  · refine max_le_max ?_ le_rfl
    refine Int.sub_left_le_of_le_add ((foldl_min_le _ _).trans ?_)
    exact mambaAlignedEnd_le (hbs hneed) _ _ _

theorem reservePrefillLookahead_le (cfg : SchedulerConfig H) (r : Request H) (c n : ℤ) :
    0 ≤ reservePrefillLookahead cfg r c n ∧ reservePrefillLookahead cfg r c n ≤ max n 0 := by
  simp only [reservePrefillLookahead]
  split <;> omega

/-- The cuts of a request's tokens work as intended: its items are sorted, and blocks have
a size where chunks end at them. -/
structure Request.WellPosed (cfg : SchedulerConfig H) (r : Request H) : Prop where
  sorted : r.FeaturesSorted
  block_pos : cfg.needMambaBlockAlignedSplit = true → 0 < cfg.cacheBlockSize

variable {p : Pass H} {id : ReqId} {c n : ℤ} {plan : EncoderPlan}

theorem Pass.encoderPlan_cut
    (hr : (p.s.objs id).FeaturesSorted) (h : p.encoderPlan cfg env id c n = .ok plan) :
    CutBefore (p.s.objs id) c cfg.numPrefillLookahead n plan.numNewTokens := by
  rw [encoderPlan] at h
  split at h
  · exact tryScheduleEncoderInputs_cut hr h
  · cases h
    exact .inl rfl

/-- **The plan of a request has no more tokens than it asks for.** -/
theorem Pass.planTokens_le (h : p.planTokens cfg env id c n = .ok plan) :
    0 ≤ plan.numNewTokens ∧ ((p.s.objs id).FeaturesSorted → plan.numNewTokens ≤ max n 0) := by
  obtain ⟨plan', hplan, h⟩ := bind_eq_ok.1 h
  cases h
  have hreserve := reservePrefillLookahead_le cfg (p.s.objs id) c plan'.numNewTokens
  refine ⟨hreserve.1, fun hr => hreserve.2.trans ?_⟩
  have hle := (Pass.encoderPlan_cut hr hplan).le
  omega

/-- **A running request gets at most what it asks for**, within the budgets. -/
theorem Pass.planRunning_le
    (h : p.planRunning cfg env id = .ok plan) (hne : plan.numNewTokens ≠ 0) :
    0 < plan.numNewTokens ∧ ((p.s.objs id).WellPosed cfg →
      plan.numNewTokens ≤ runningTokens cfg p.tokenBudget p.inputBudget (p.s.objs id)) := by
  obtain ⟨hnonneg, hle⟩ := Pass.planTokens_le h
  refine ⟨by omega, fun hr => ?_⟩
  have hle := hle hr.sorted
  have hsplit := mambaSplit_le hr.block_pos (p.s.objs id)
    (runningTokens cfg p.tokenBudget p.inputBudget (p.s.objs id)) 0 0
  omega

/-! ## Padded admissions -/

/-- Nothing is cut from a request that is padded to a decode with drafts: neither by the
threshold for long prefills nor at a boundary for Mamba layers, and none of its items
starts in the padding. -/
structure Request.PadsWhole (cfg : SchedulerConfig H) (r : Request H) : Prop where
  threshold : cfg.longPrefillTokenThreshold = 0 ∨ cfg.numSpecTokens < cfg.longPrefillTokenThreshold
  mamba : cfg.needMambaBlockAlignedSplit = true → r.numTokens ≤ r.numPromptTokens →
    r.numPromptTokens ≤ r.numTokens + cfg.numSpecTokens ∧
    ∀ x ∈ mambaStops cfg r ((r.numTokens : ℤ) - 1) (r.numTokens + cfg.numSpecTokens),
      ¬ ((r.numTokens : ℤ) - 1 < x ∧ x < r.numTokens + cfg.numSpecTokens)
  items : ∀ f ∈ r.mmFeatures, f.offset < r.numTokens

theorem capByThreshold_le (n : ℤ) (h : 0 ≤ n) :
    capByThreshold cfg n ≤ n ∧ 0 ≤ capByThreshold cfg n := by
  rw [capByThreshold]
  split <;> omega

theorem foldl_min_eq_of_nil {l : List ℤ} {a : ℤ} {P : ℤ → Bool} (h : ∀ x ∈ l, P x = false) :
    (l.filter P).foldl min a = a := by
  have hnil : l.filter P = [] := by simpa [List.filter_eq_nil_iff] using h
  rw [hnil, List.foldl_nil]

/-- The Mamba split keeps a padding without a stop in it. -/
theorem mambaSplit_pad {r : Request H} {numLocal numExternal : ℕ} (h : r.PadsWhole cfg)
    (hc : r.numComputedTokens + numLocal + numExternal = r.numTokens - 1) :
    mambaSplit cfg r (1 + cfg.numSpecTokens) numLocal numExternal = 1 + cfg.numSpecTokens := by
  rw [mambaSplit]
  split
  swap
  · rfl
  next hneed =>
  simp only [mambaBlockAlignedSplit, hc]
  split
  · rfl
  next hprefill =>
  obtain ⟨hprompt, hstops⟩ := h.mamba hneed (by omega)
  have hstop : (r.numTokens : ℤ) - 1 + (1 + cfg.numSpecTokens) =
      r.numTokens + cfg.numSpecTokens := by omega
  have hend : mambaAlignedEnd cfg ((r.numTokens : ℤ) - 1) (r.numTokens + cfg.numSpecTokens)
      (max (r.numPromptTokens : ℤ) ((r.numTokens : ℤ) - 1)) = r.numTokens + cfg.numSpecTokens := by
    simp only [mambaAlignedEnd]
    rw [if_neg (by omega)]
  rw [hstop, hend, foldl_min_eq_of_nil fun x hx => by simpa using hstops x hx]
  omega

namespace Pass

variable {r : Request H} {hit : Hit} {deferPrefills pad : Bool} {p' : Pass H} {a : Admission}

/-- What an admission asks for. -/
theorem wantedTokens_eq_some (h : wantedTokens cfg p r c = some (n, pad)) :
    (pad = false ∧ n = r.numTokens - c) ∨
      (pad = true ∧ n = 1 + cfg.numSpecTokens ∧ (r.numTokens : ℤ) - c = 1 ∧
        1 + (cfg.numSpecTokens : ℤ) ≤ min p.tokenBudget (p.inputBudget - cfg.draftSlots)) := by
  simp only [wantedTokens] at h
  split at h
  · next hpad =>
    split at h
    · cases h
    · next hfits =>
      cases h
      simp only [not_or, not_lt] at hfits
      exact .inr ⟨rfl, rfl, hpad.2.2.2.1, hfits.1⟩
  · cases h
    exact .inl ⟨rfl, rfl⟩

/-- **The tokens of an admission** are cut from what it asks for. -/
theorem admissionTokens_eq_ok
    (h : admissionTokens cfg p deferPrefills r hit = .ok (some (n, pad))) :
    (deferPrefills = true → (r.numTokens : ℤ) - 1 ≤ computedAt r hit) ∧
    ∃ m, wantedTokens cfg p r (computedAt r hit) = some (m, pad) ∧
      0 < min (capByThreshold cfg m) (min p.tokenBudget (p.inputBudget - cfg.draftSlots)) ∧
      n = mambaSplit cfg r (min (capByThreshold cfg m)
        (min p.tokenBudget (p.inputBudget - cfg.draftSlots))) hit.numLocal hit.numExternal := by
  simp only [admissionTokens] at h
  split at h
  · cases h
  next hdefer =>
  refine ⟨fun hd => ?_, ?_⟩
  · by_contra hlt
    exact hdefer ⟨hd, not_le.1 hlt⟩
  split at h
  · cases h
  next m pad' hwanted =>
  split at h
  · cases h
  simp only [bind_eq_ok, assert_eq_ok] at h
  obtain ⟨⟨⟩, hpos, h⟩ := h
  simp only [pure, Except.pure, Except.ok.injEq] at h
  split at h
  · cases h
  cases h
  exact ⟨m, hwanted, hpos, rfl⟩

/-- **What the plan of an admission is.** -/
theorem planAdmission_eq_ok (h : p.planAdmission cfg env deferPrefills id hit = .ok (p', some a)) :
    a.hit = hit ∧ p' = p.setEncoder a.plan.cache ∧ a.plan.numNewTokens ≠ 0 ∧
    ∃ n, admissionTokens cfg p deferPrefills (p.s.objs id) hit = .ok (some (n, a.pad)) ∧
      p.planTokens cfg env id (computedAt (p.s.objs id) hit) n = .ok a.plan := by
  obtain ⟨tokens, htokens, h⟩ := bind_eq_ok.1 h
  cases tokens with
  | none => cases h
  | some t =>
    obtain ⟨n, pad⟩ := t
    obtain ⟨plan, hplan, h⟩ := bind_eq_ok.1 h
    simp only [pure, Except.pure, Except.ok.injEq, Prod.mk.injEq] at h
    obtain ⟨hp', ha⟩ := h
    by_cases hzero : plan.numNewTokens = 0
    · rw [if_pos hzero] at ha
      cases ha
    · rw [if_neg hzero] at ha
      cases ha
      exact ⟨rfl, hp'.symm, hzero, n, htokens, hplan⟩

/-- What an admission schedules of a request with `c` computed tokens. -/
structure Admits (cfg : SchedulerConfig H) (r : Request H) (c n : ℤ) (pad : Bool) : Prop where
  pos : 0 < n
  unpadded : pad = false → r.WellPosed cfg → n ≤ r.numTokens - c
  padded : pad = true → (r.numTokens : ℤ) - c = 1 ∧ (r.WellPosed cfg → n ≤ 1 + cfg.numSpecTokens) ∧
    (r.WellPosed cfg → r.PadsWhole cfg → n = 1 + cfg.numSpecTokens)

/-- **An admission gets at most what it asks for**, and all of its padding where nothing
is cut. -/
theorem planAdmission_admits (h : p.planAdmission cfg env deferPrefills id hit = .ok (p', some a)) :
    Admits cfg (p.s.objs id) (computedAt (p.s.objs id) hit) a.plan.numNewTokens a.pad := by
  obtain ⟨-, -, hne, n, htokens, hplan⟩ := planAdmission_eq_ok h
  obtain ⟨hnonneg, hle⟩ := planTokens_le hplan
  obtain ⟨-, m, hwanted, hpos, rfl⟩ := admissionTokens_eq_ok htokens
  have hcap : 0 ≤ m → capByThreshold cfg m ≤ m := fun h0 => (capByThreshold_le m h0).1
  have hm : 0 < m := by
    by_contra hm
    have : capByThreshold cfg m = m := by
      rw [capByThreshold]
      split <;> omega
    omega
  have hbound (hr : (p.s.objs id).WellPosed cfg) : a.plan.numNewTokens ≤ m := by
    have hsplit := mambaSplit_le hr.block_pos (p.s.objs id)
      (min (capByThreshold cfg m) (min p.tokenBudget (p.inputBudget - cfg.draftSlots)))
      hit.numLocal hit.numExternal
    have := hle hr.sorted
    omega
  obtain ⟨hpad, rfl⟩ | ⟨hpad, rfl, hone, hbudget⟩ := wantedTokens_eq_some hwanted
  · exact ⟨by omega, fun _ hr => hbound hr, fun ht => by simp [hpad] at ht⟩
  refine ⟨by omega, fun hf => by simp [hpad] at hf, fun _ => ⟨hone, fun hr => hbound hr, ?_⟩⟩
  intro hr hwhole
  have hcut : capByThreshold cfg (1 + (cfg.numSpecTokens : ℤ)) = 1 + cfg.numSpecTokens := by
    rw [capByThreshold, if_neg]
    rcases hwhole.threshold with ht | ht <;> omega
  have hc : (p.s.objs id).numComputedTokens + hit.numLocal + hit.numExternal =
      (p.s.objs id).numTokens - 1 := by
    rw [computedAt] at hone
    omega
  rw [hcut, min_eq_left hbudget, mambaSplit_pad hwhole hc] at hplan
  obtain ⟨plan, hencoder, hplan⟩ := bind_eq_ok.1 hplan
  simp only [pure, Except.pure, Except.ok.injEq] at hplan
  rw [← hplan] at hne ⊢
  -- an item before which the tokens could be cut would start in the padding
  rcases encoderPlan_cut hr.sorted hencoder with hsame | hzero | ⟨f, hf, hlt, -, -⟩
  · simp only [hsame, reservePrefillLookahead]
    rw [if_neg (by omega)]
    omega
  · simp only [hzero, reservePrefillLookahead] at hne
    split at hne <;> omega
  · have := hwhole.items f hf
    omega

end Pass

end KVarN.Sched
