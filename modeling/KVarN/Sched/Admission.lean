import KVarN.Core.EagleDrop
import KVarN.Sched.Rounds

/-!
# What the pieces of an admission do

A round of the admission loop promotes a blocked request, looks up what is computed of
it, plans its tokens and takes it out of its queue. Each piece changes little of the
state; this module says what.

## Main results

* `Pass.promote_eq_ok`, `Pass.getHit_eq_ok`, `Pass.planHit_eq_ok`,
  `Pass.popHead_eq_ok`, `Pass.startLoad_eq`, `Pass.admitRequest_eq_ok`.
-/

namespace KVarN.Sched

open KVarN.Core Scheduler KVCacheManager

namespace Pass

variable {H : Type} {cfg : SchedulerConfig H} {env : ScheduleEnv}

/-- A request with a new status and a new number of computed tokens. -/
def restate (st : RequestStatus) (c : ℤ) (r : Request H) : Request H :=
  { r with status := st, numComputedTokens := c }

@[simp] theorem restate_self (r : Request H) : restate r.status r.numComputedTokens r = r := rfl

/-- What a promotion may change of a scheduler. -/
def promotedTo (s : Scheduler H) (id : ReqId) (st : RequestStatus) (c : ℤ)
    (kv : KVCacheManager H) (failed finished grammar : List ReqId) : Scheduler H :=
  { s with
    objs := Function.update s.objs id (restate st c (s.objs id))
    kv := { s.kv with kv := kv }
    failedRecvingKvReqIds := failed
    finishedRecvingKvReqIds := finished
    grammarCompileErrorReqs := grammar }

theorem promotedTo_self (s : Scheduler H) (id : ReqId) (grammar : List ReqId) :
    promotedTo s id (s.objs id).status (s.objs id).numComputedTokens s.kv.kv
      s.failedRecvingKvReqIds s.finishedRecvingKvReqIds grammar =
      { s with grammarCompileErrorReqs := grammar } := by
  simp [promotedTo, Function.update_eq_self]

/-- The statuses a promotion leads from and to. -/
def Promotes (st st' : RequestStatus) : Prop :=
  st' = st ∨ ((st = .waitingForRemoteKvs ∨ st = .waitingForStructuredOutputGrammar) ∧
    (st' = .waiting ∨ st' = .preempted))

theorem recomputeLast_eq (r : Request H) :
    recomputeLast r = restate r.status (recomputeLast r).numComputedTokens r := by
  rw [recomputeLast]
  split <;> rfl

variable [DecidableEq H] {s s' : Scheduler H} {id : ReqId} {diverged skipped : Bool} {p p' : Pass H}

/-- **What promoting a request does.** Only with a connector do its computed tokens or
the KV cache change. -/
theorem promote_eq_ok {ready : Bool} (h : promote cfg env s id = .ok (ready, s')) :
    ∃ st c kv failed finished grammar, s' = promotedTo s id st c kv failed finished grammar ∧
      Promotes (s.objs id).status st ∧ (ready = true → st.isBlockedWaiting = false) ∧
      (cfg.hasConnector = false → c = (s.objs id).numComputedTokens ∧ kv = s.kv.kv) := by
  have hself (grammar : List ReqId) := (promotedTo_self s id grammar).symm
  rw [promote] at h
  split at h
  swap
  · next hb =>
    cases h
    refine ⟨_, _, _, _, _, _, hself _, .inl rfl, fun _ => by simpa using hb, fun _ => ⟨rfl, rfl⟩⟩
  rw [tryPromote] at h
  split at h
  · next hst =>
    rw [promoteRemoteKv] at h
    split at h
    · cases h
      exact ⟨_, _, _, _, _, _, hself _, .inl rfl, by simp, fun _ => ⟨rfl, rfl⟩⟩
    simp only [bind_eq_ok, updateWaitingForRemoteKv, assert_eq_ok] at h
    obtain ⟨s₁, ⟨-, hcon, h₁⟩, h⟩ := h
    have hno : cfg.hasConnector = false → False := fun hf => by rw [hf] at hcon; cases hcon
    cases h
    split at h₁
    · obtain ⟨kv, -, h₁⟩ := bind_eq_ok.1 h₁
      cases h₁
      refine ⟨if (s.objs id).numPreemptions ≠ 0 then .preempted else .waiting,
        (s.objs id).numComputedTokens, kv, _, _, _, rfl, .inr ⟨.inl hst, ?_⟩, fun _ => ?_,
        fun hf => (hno hf).elim⟩
      · split <;> simp
      · split <;> rfl
    · obtain ⟨kv, -, h₁⟩ := bind_eq_ok.1 h₁
      cases h₁
      refine ⟨if (s.objs id).numPreemptions ≠ 0 then .preempted else .waiting,
        (recomputeLast (s.objs id)).numComputedTokens, kv, s.failedRecvingKvReqIds,
        s.finishedRecvingKvReqIds.filter (· ≠ id), s.grammarCompileErrorReqs, ?_,
        .inr ⟨.inl hst, ?_⟩, fun _ => ?_, fun hf => (hno hf).elim⟩
      · simp only [update, promotedTo, Function.update_idem, Function.update_self]
        rw [recomputeLast_eq]
        rfl
      · split <;> simp
      · split <;> rfl
  · next hst =>
    split at h
    · cases h
      exact ⟨_, _, _, _, _, _, hself _, .inl rfl, by simp, fun _ => ⟨rfl, rfl⟩⟩
    · cases h
      exact ⟨_, _, _, _, _, _, hself _, .inl rfl, by simp, fun _ => ⟨rfl, rfl⟩⟩
    · cases h
      refine ⟨.waiting, (s.objs id).numComputedTokens, s.kv.kv, s.failedRecvingKvReqIds,
        s.finishedRecvingKvReqIds, s.grammarCompileErrorReqs, rfl, .inr ⟨.inr hst, .inl rfl⟩,
        fun _ => rfl, fun _ => ⟨rfl, rfl⟩⟩
  · split at h
    · cases h
      exact ⟨_, _, _, _, _, _, hself _, .inl rfl, by simp, fun _ => ⟨rfl, rfl⟩⟩
    · cases h
  · cases h

omit [DecidableEq H] in
@[simp] theorem setBoundary_setBoundary (s : Scheduler H) (id : ReqId) (b b' : ℕ) :
    setBoundary (setBoundary s id b) id b' = setBoundary s id b' := by
  simp [setBoundary, update]

omit [DecidableEq H] in
theorem setBoundary_self (s : Scheduler H) (id : ReqId) :
    setBoundary s id (s.objs id).sharedPrefixBoundary = s := by
  simp [setBoundary, update, Function.update_eq_self]

/-- The shared-prefix boundaries a lookup can leave. -/
def Boundary (r : Request H) (b : ℕ) : Prop :=
  b = r.sharedPrefixBoundary ∨ b ≤ r.numTokens - 1

section

omit [DecidableEq H]

theorem Boundary.of_setBoundary {b b' : ℕ}
    (hb : Boundary (s.objs id) b) (h : Boundary ((setBoundary s id b).objs id) b') :
    Boundary (s.objs id) b' := by
  rw [setBoundary, update_objs_self] at h
  rcases h with rfl | h
  · exact hb
  · exact .inr h

theorem reconcileHit_eq_ok {hit hit' : Hit}
    (h : reconcileHit cfg s id diverged hit = .ok (s', hit')) :
    ∃ b, s' = setBoundary s id b ∧ Boundary (s.objs id) b := by
  rw [reconcileHit] at h
  split at h
  · obtain ⟨⟨blocks, n, b⟩, hget, h⟩ := bind_eq_ok.1 h
    cases h
    exact ⟨b, rfl, .inr (getComputedBlocks_le hget).2⟩
  · cases h
    exact ⟨_, (setBoundary_self s id).symm, .inl rfl⟩

theorem externalHit_eq_ok {blocks : List (List BlockId)} {n : ℕ} {hit : Option Hit}
    (h : externalHit cfg env s id blocks n diverged = .ok (s', hit)) :
    (∃ b, s' = setBoundary s id b ∧ Boundary (s.objs id) b) ∧
      (cfg.hasConnector = false → hit = some ⟨blocks, n, 0, false⟩) := by
  have hself : ∃ b, s = setBoundary s id b ∧ Boundary (s.objs id) b :=
    ⟨_, (setBoundary_self s id).symm, .inl rfl⟩
  rw [externalHit] at h
  split at h
  · next hcon =>
    have hno : cfg.hasConnector = false → hit = some ⟨blocks, n, 0, false⟩ := fun hf => by
      rw [hf] at hcon
      cases hcon
    split at h
    · cases h
      exact ⟨hself, hno⟩
    · simp only [bind_eq_ok] at h
      obtain ⟨hit₁, -, ⟨s₁, hit₂⟩, hrec, h⟩ := h
      cases h
      exact ⟨reconcileHit_eq_ok hrec, hno⟩
  · cases h
    exact ⟨hself, fun _ => rfl⟩

theorem localHit_boundary_le {blocks : List (List BlockId)}
    {n b : ℕ} (h : localHit cfg s id = .ok (blocks, n, b, diverged)) :
    b ≤ (s.objs id).numTokens - 1 := by
  have hle {blocks : List (List BlockId)} {n b : ℕ}
      (h : s.kv.kv.getComputedBlocks cfg.kv ((s.objs id).toKV id) = .ok (blocks, n, b)) :
      b ≤ (s.objs id).numTokens - 1 := (getComputedBlocks_le h).2
  rw [localHit] at h
  split at h
  · rw [getComputedBlocksForConnector] at h
    split at h
    · obtain ⟨⟨bs, m, b'⟩, hget, h⟩ := bind_eq_ok.1 h
      cases h
      exact hle hget
    split at h
    · cases h
      exact Nat.zero_le _
    obtain ⟨hits, -, h⟩ := bind_eq_ok.1 h
    simp only at h
    split at h
    · obtain ⟨⟨bs, m, b'⟩, hget, h⟩ := bind_eq_ok.1 h
      cases h
      exact hle hget
    · cases h
      exact Nat.zero_le _
  · obtain ⟨⟨bs, m, b'⟩, hget, h⟩ := bind_eq_ok.1 h
    cases h
    exact hle hget

end

/-- What a lookup without a connector returns for a request: nothing for one that has
computed tokens already. -/
def Local (r : Request H) (hit : Hit) : Prop :=
  hit.numExternal = 0 ∧ hit.loadKvAsync = false ∧ (r.numComputedTokens ≠ 0 → hit.numLocal = 0)

section

omit [DecidableEq H]

/-- **What the lookup does to the scheduler**: it records a shared-prefix boundary. -/
theorem getHit_eq_ok {hit : Option Hit} (h : getHit cfg env s id = .ok (s', hit)) :
    (∃ b, s' = setBoundary s id b ∧ Boundary (s.objs id) b) ∧
      (cfg.hasConnector = false → ∀ x ∈ hit, Local (s.objs id) x) := by
  rw [getHit] at h
  split at h
  · next hzero =>
    simp only [lookupComputed, bind_eq_ok] at h
    obtain ⟨⟨blocks, n, boundary, diverged⟩, hlocal, ⟨s₁, hit₁⟩, hext, h⟩ := h
    obtain ⟨⟨b, rfl, hb⟩, hno⟩ := externalHit_eq_ok hext
    have hb := Boundary.of_setBoundary (.inr (localHit_boundary_le hlocal)) hb
    rw [setBoundary_setBoundary] at h
    cases hit₁ with
    | none =>
      cases h
      exact ⟨⟨b, rfl, hb⟩, fun _ x hx => by cases hx⟩
    | some hit₁ =>
      obtain ⟨hit₂, hcheck, h⟩ := bind_eq_ok.1 h
      cases h
      refine ⟨⟨b, rfl, hb⟩, fun hf x hx => ?_⟩
      cases hno hf
      obtain ⟨-, -, hcheck⟩ := bind_eq_ok.1 hcheck
      split at hcheck
      · cases hcheck
        cases hx
      · obtain ⟨-, -, hcheck⟩ := bind_eq_ok.1 hcheck
        cases hcheck
        cases hx
        exact ⟨rfl, rfl, fun hne => absurd hzero hne⟩
  · cases h
    refine ⟨⟨_, (setBoundary_self s id).symm, .inl rfl⟩, fun _ x hx => ?_⟩
    cases hx
    exact ⟨rfl, rfl, fun _ => rfl⟩

/-- **What planning an admission does to the pass**: the encoder cache may change. -/
theorem planHit_eq_ok {deferPrefills : Bool} {hit : Hit}
    {a : Option Admission} (h : p.planHit cfg env deferPrefills id hit = .ok (p', a)) :
    (∃ e, p' = p.setEncoder e) ∧ ∀ x ∈ a, x.hit = hit := by
  rw [planHit] at h
  split at h
  · obtain ⟨-, -, h⟩ := bind_eq_ok.1 h
    cases h
    exact ⟨⟨p.s.encoder, rfl⟩, by simp⟩
  · obtain ⟨tokens, -, h⟩ := bind_eq_ok.1 h
    cases tokens with
    | none =>
      cases h
      exact ⟨⟨p.s.encoder, rfl⟩, by simp⟩
    | some t =>
      obtain ⟨plan, -, h⟩ := bind_eq_ok.1 h
      cases h
      refine ⟨⟨plan.cache, rfl⟩, fun x hx => ?_⟩
      split at hx
      · cases hx
      · cases hx
        rfl

/-- The head that is considered is the first element of its queue. -/
theorem peek_eq_some (h : p.peek cfg = some (skipped, id)) :
    (if skipped then p.s.skippedWaiting else p.s.waiting).head? = some id := by
  cases hw : p.s.waiting with
  | nil =>
    cases hk : p.s.skippedWaiting <;> simp_all [peek]
  | cons w ws =>
    cases hk : p.s.skippedWaiting with
    | nil => simp_all [peek]
    | cons k ks =>
      cases hp : cfg.policy with
      | fcfs => simp_all [peek]
      | priority =>
        simp only [peek, hp, hw, hk, Option.some.injEq] at h
        split at h <;> simp_all

end

def withQueues (s : Scheduler H) (w k : List ReqId) : Scheduler H :=
  { s with waiting := w, skippedWaiting := k }

omit [DecidableEq H] in
/-- **What popping the considered head does.** -/
theorem popHead_eq_ok {id' : ReqId}
    (head : (if skipped then p.s.skippedWaiting else p.s.waiting).head? = some id)
    (h : p.popHead cfg skipped = .ok (id', p')) :
    id' = id ∧ ∃ w k, p' = p.setSched (withQueues p.s w k) ∧
      (id :: (w ++ k)).Perm (p.s.waiting ++ p.s.skippedWaiting) := by
  cases skipped with
  | true =>
    obtain ⟨⟨i, q⟩, hpop, h⟩ := bind_eq_ok.1 h
    cases h
    simp only [if_true] at head
    obtain ⟨rest, hq⟩ : ∃ rest, p.s.skippedWaiting = id :: rest := by
      cases hq : p.s.skippedWaiting with
      | nil => simp [hq] at head
      | cons x xs => exact ⟨xs, by simp_all⟩
    rw [hq] at hpop
    obtain ⟨rfl, hperm⟩ := popQueue_cons hpop
    refine ⟨rfl, p.s.waiting, q, rfl, ?_⟩
    rw [hq]
    exact (List.perm_middle.symm).trans ((hperm.cons _).append_left _)
  | false =>
    obtain ⟨⟨i, q⟩, hpop, h⟩ := bind_eq_ok.1 h
    cases h
    simp only [Bool.false_eq_true, if_false] at head
    obtain ⟨rest, hq⟩ : ∃ rest, p.s.waiting = id :: rest := by
      cases hq : p.s.waiting with
      | nil => simp [hq] at head
      | cons x xs => exact ⟨xs, by simp_all⟩
    rw [hq] at hpop
    obtain ⟨rfl, hperm⟩ := popQueue_cons hpop
    refine ⟨rfl, q, p.s.skippedWaiting, rfl, ?_⟩
    rw [hq]
    exact (hperm.cons _).append_right _

omit [DecidableEq H] in
/-- **What setting the considered head aside does.** -/
theorem skipHead_eq_ok
    (head : (if skipped then p.s.skippedWaiting else p.s.waiting).head? = some id)
    (h : p.skipHead cfg skipped = .ok p') :
    ∃ w k aside, p' = { p.setSched (withQueues p.s w k) with stepSkippedWaiting := aside } ∧
      (id :: (w ++ k)).Perm (p.s.waiting ++ p.s.skippedWaiting) ∧
      aside.Perm (id :: p.stepSkippedWaiting) := by
  obtain ⟨⟨i, p₁⟩, hpop, h⟩ := bind_eq_ok.1 h
  cases h
  obtain ⟨rfl, w, k, rfl, hperm⟩ := popHead_eq_ok head hpop
  exact ⟨w, k, _, rfl, hperm, prependQueue_perm _ _ _ _⟩

/-- The computed tokens of a request after its admission. -/
def computedAt (r : Request H) (hit : Hit) : ℤ :=
  r.numComputedTokens + hit.numLocal + hit.numExternal

omit [DecidableEq H] in
theorem startLoad_eq (cfg : SchedulerConfig H) (p : Pass H) (id : ReqId) (hit : Hit) :
    ∃ skipZero aside, p.startLoad cfg id hit = { p with
        s := { p.s with
          objs := Function.update p.s.objs id
            (restate .waitingForRemoteKvs (computedAt (p.s.objs id) hit) (p.s.objs id))
          inflightPrefills := addTo p.s.inflightPrefills id
          skipZeroBlockIds := skipZero }
        stepSkippedWaiting := aside } ∧ aside.Perm (id :: p.stepSkippedWaiting) :=
  ⟨_, _, rfl, prependQueue_perm _ _ _ _⟩

omit [DecidableEq H] in
/-- **What admitting a popped request does.** -/
theorem admitRequest_eq_ok {a : Admission} (h : p.admitRequest cfg id a = .ok p') :
    ((p.s.objs id).status = .waiting ∨ (p.s.objs id).status = .preempted) ∧
    ∃ e, EncoderCache.allocateAll cfg.encoder.isEncoderDecoder
        (restate .running (computedAt (p.s.objs id) a.hit) (p.s.objs id)) id
        (a.plan.inputs ++ a.plan.external) p.s.encoder = .ok e ∧
      p' = { p with
        s := { p.s with
          objs := Function.update p.s.objs id
            (restate .running (computedAt (p.s.objs id) a.hit) (p.s.objs id))
          running := p.s.running ++ [id]
          inflightPrefills :=
            if computedAt (p.s.objs id) a.hit + a.plan.numNewTokens < (p.s.objs id).numTokens then
              addTo p.s.inflightPrefills id
            else p.s.inflightPrefills
          encoder := e }
        scheduledNewReqs :=
          if (p.s.objs id).status = .waiting then p.scheduledNewReqs ++ [id]
          else p.scheduledNewReqs
        scheduledResumedReqs :=
          if (p.s.objs id).status = .waiting then p.scheduledResumedReqs
          else p.scheduledResumedReqs ++ [id]
        scheduledLoras := p.lorasWith cfg id
        reqToNewBlocks := p.reqToNewBlocks.set id (p.s.kv.kv.getBlocks id)
        numScheduledTokens := p.numScheduledTokens.set id a.plan.numNewTokens.toNat
        tokenBudget := p.tokenBudget - a.plan.numNewTokens.toNat
        inputBudget := p.inputBudget - (a.plan.numNewTokens.toNat + cfg.draftSlots)
        scheduledSpecDecodeTokens :=
          if a.pad then p.scheduledSpecDecodeTokens.set id (List.replicate cfg.numSpecTokens (-1))
          else p.scheduledSpecDecodeTokens
        scheduledEncoderInputs :=
          if a.plan.inputs = [] then p.scheduledEncoderInputs
          else p.scheduledEncoderInputs.set id a.plan.inputs
        encoderComputeBudget :=
          if a.plan.inputs = [] then p.encoderComputeBudget else a.plan.computeBudget } := by
  obtain ⟨p₁, hnote, h⟩ := bind_eq_ok.1 h
  rw [noteAdmitted] at hnote
  split at hnote
  · next hst =>
    cases hnote
    obtain ⟨e, he, rfl⟩ := grantEncoder_eq_ok h
    refine ⟨.inl hst, e, ?_, ?_⟩
    · simpa [enterRunning, grant, restate, computedAt] using he
    · simp only [if_pos hst]
      rfl
  · next hst =>
    cases hnote
    have hne : (p.s.objs id).status ≠ .waiting := by simp [hst]
    obtain ⟨e, he, rfl⟩ := grantEncoder_eq_ok h
    refine ⟨.inr hst, e, ?_, ?_⟩
    · simpa [enterRunning, grant, restate, computedAt] using he
    · simp only [if_neg hne]
      rfl
  · cases hnote

end Pass

end KVarN.Sched
