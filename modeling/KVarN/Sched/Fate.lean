import KVarN.Sched.Queues
import KVarN.Sched.Tokens

/-!
# What a scheduling pass does to a request

During a pass a request is left alone, scheduled, preempted, considered for admission
without success, or admitted. `Fate` says what each of these means for its fields, for
the tokens it is given and for its draft tokens; nothing else can happen to a request
before the step is issued.

## Main definitions

* `Fate` — what a pass has done to a request so far.
* `Pass.Tracked` — every request has a fate.

## Main results

* `Pass.Rounds.tracked_and` — induction over a pass in which every request is tracked.
* `Scheduler.schedule_fate` — what a call of `schedule` does to each request.
-/

namespace KVarN.Sched

open KVarN.Lib KVarN.Core Relation QueueView Dict Scheduler Request

variable {H : Type} {cfg : SchedulerConfig H} {env : ScheduleEnv}

/-- The tokens a running request asks for. -/
def Request.asked (r : Request H) : ℤ :=
  r.numTokensWithSpec + r.numOutputPlaceholders - r.numComputedTokens

/-- The draft tokens of a running request of which `n` tokens are scheduled. -/
def Request.draftsIn (r : Request H) (n : ℕ) : Option (List Token) :=
  if r.specTokenIds ≠ [] ∧
      0 < (n : ℤ) + r.numComputedTokens - r.numTokens - r.numOutputPlaceholders then
    some (r.specTokenIds.take
      ((n : ℤ) + r.numComputedTokens - r.numTokens - r.numOutputPlaceholders).toNat)
  else none

/-- The fields that the consideration of a waiting request may change. -/
def Request.recheck (st : RequestStatus) (c : ℤ) (b : ℕ) (r : Request H) : Request H :=
  { r with status := st, numComputedTokens := c, sharedPrefixBoundary := b }

/-- What a pass has done to a request: `r` is the request at the start of the pass, `r'`
the request now, `tokens` and `drafts` what it was given. A request is preempted only in a
pass with preemptions. -/
inductive Fate (cfg : SchedulerConfig H) (step : ℕ) (defer : Bool) (preempting : Prop)
    (r : Request H) (tokens : Option ℕ) (drafts : Option (List Token)) (r' : Request H) : Prop
  | untouched (idle : tokens = none) (no_drafts : drafts = none) (same : r' = r)
  | scheduled {n : ℕ} (granted : tokens = some n) (pos : 0 < n) (running : r.status = .running)
      (due : ¬ notDue step defer r) (asked : r.WellPosed cfg → (n : ℤ) ≤ r.asked)
      (fits : r.WellPosed cfg →
        (n : ℤ) ≤ cfg.maxModelLen - r.numComputedTokens - cfg.numSampledTokensPerStep)
      (taken : drafts = r.draftsIn n) (cleared : r' = Pass.clearSpec r)
  | preempted (idle : tokens = none) (no_drafts : drafts = none) (running : r.status = .running)
      (some_preempted : preempting)
      (back : r' = preempt (cfg.hasConnector && cfg.requiresKvDelivery) r)
  | considered {st : RequestStatus} {c : ℤ} {b : ℕ} (idle : tokens = none)
      (no_drafts : drafts = none) (queued : r.status ≠ .running) (not_running : st ≠ .running)
      (kept : cfg.hasConnector = false → c = r.numComputedTokens) (boundary : Pass.Boundary r b)
      (rechecked : r' = r.recheck st c b)
  | admitted {n b : ℕ} {c : ℤ} {pad : Bool} (granted : tokens = some n)
      (queued : r.status ≠ .running)
      (delivered : ¬ (0 < r.numStaleOutputTokens ∧ r.dropStaleOutput = false))
      (admits : Pass.Admits cfg r c n pad)
      (padded : drafts = if pad then some (List.replicate cfg.numSpecTokens (-1)) else none)
      (kept : cfg.hasConnector = false → r.numComputedTokens ≤ c ∧
        (r.numComputedTokens ≠ 0 → c = r.numComputedTokens))
      (rechecked : r' = r.recheck .running c b)

namespace Fate

variable {step : ℕ} {defer : Bool} {preempting : Prop} {r r' : Request H} {tokens : Option ℕ}
  {drafts : Option (List Token)}

section

variable (h : Fate cfg step defer preempting r tokens drafts r')

include h

theorem mono {preempting' : Prop}
    (hp : preempting → preempting') : Fate cfg step defer preempting' r tokens drafts r' := by
  cases h with
  | untouched idle no_drafts same => exact .untouched idle no_drafts same
  | scheduled granted pos running due asked fits taken cleared =>
    exact .scheduled granted pos running due asked fits taken cleared
  | preempted idle no_drafts running some_preempted back =>
    exact .preempted idle no_drafts running (hp some_preempted) back
  | considered idle no_drafts queued not_running kept boundary rechecked =>
    exact .considered idle no_drafts queued not_running kept boundary rechecked
  | admitted granted queued delivered admits padded kept rechecked =>
    exact .admitted granted queued delivered admits padded kept rechecked

/-- Only scheduled requests have draft tokens in the batch. -/
theorem no_drafts (ht : tokens = none) : drafts = none := by
  cases h with
  | untouched idle no_drafts same => exact no_drafts
  | scheduled granted => simp [granted] at ht
  | preempted idle no_drafts running some_preempted back => exact no_drafts
  | considered idle no_drafts queued not_running kept boundary rechecked => exact no_drafts
  | admitted granted => simp [granted] at ht

/-- A running request that was given nothing is as it was. -/
theorem untouched_of_running (ht : tokens = none) (hr' : r'.status = .running) : r' = r := by
  cases h with
  | untouched idle no_drafts same => exact same
  | scheduled granted => simp [granted] at ht
  | preempted idle no_drafts running some_preempted back =>
    rw [back] at hr'
    cases hr'
  | considered idle no_drafts queued not_running kept boundary rechecked =>
    rw [rechecked] at hr'
    exact absurd hr' not_running
  | admitted granted => simp [granted] at ht

/-- The preemption of a running request that was running at the start of the pass. -/
theorem preempt (hr : r.status = .running) (hr' : r'.status = .running) (drop : Bool) :
    preempt drop r' = preempt drop r := by
  cases h with
  | untouched idle no_drafts same => rw [same]
  | scheduled granted pos running due asked fits taken cleared =>
    rw [cleared]
    rfl
  | preempted idle no_drafts running some_preempted back =>
    rw [back] at hr'
    cases hr'
  | considered idle no_drafts queued => exact absurd hr queued
  | admitted granted queued => exact absurd hr queued

end

/-- A request that is considered again. -/
theorem recheck (h : Fate cfg step defer False r tokens drafts r') (ht : tokens = none)
    (hr' : r'.status ≠ .running) {st : RequestStatus} {c : ℤ} {b : ℕ} (hst : st ≠ .running)
    (hc : cfg.hasConnector = false → c = r'.numComputedTokens) (hb : Pass.Boundary r' b) :
    Fate cfg step defer False r none none (r'.recheck st c b) := by
  cases h with
  | untouched idle no_drafts same =>
    subst same
    exact .considered rfl rfl hr' hst hc hb rfl
  | scheduled granted => simp [granted] at ht
  | preempted idle no_drafts running some_preempted => exact some_preempted.elim
  | @considered st' c' b' idle no_drafts queued not_running kept boundary rechecked =>
    subst rechecked
    refine .considered rfl rfl queued hst (fun hno => (hc hno).trans (kept hno)) ?_ rfl
    rcases hb with rfl | hb
    · exact boundary
    · exact .inr hb
  | admitted granted => simp [granted] at ht

end Fate

/-! ## The second loop -/

namespace Pass

/-- What a round of the second loop leaves alone when it schedules nothing. -/
structure Frame (p p' : Pass H) : Prop where
  tokens : p'.numScheduledTokens = p.numScheduledTokens
  drafts : p'.scheduledSpecDecodeTokens = p.scheduledSpecDecodeTokens
  tokenBudget : p'.tokenBudget = p.tokenBudget
  inputBudget : p'.inputBudget = p.inputBudget
  preempted : p'.preemptedReqs = p.preemptedReqs
  running : p'.s.running = p.s.running
  requests : p'.s.requests = p.s.requests
  step : p'.s.currentStep = p.s.currentStep

/-- What an admission records. -/
structure Grants (cfg : SchedulerConfig H) (p : Pass H) (id : ReqId) (n : ℕ) (pad : Bool)
    (p' : Pass H) : Prop where
  tokens : p'.numScheduledTokens = p.numScheduledTokens.set id n
  drafts : p'.scheduledSpecDecodeTokens =
    if pad then p.scheduledSpecDecodeTokens.set id (List.replicate cfg.numSpecTokens (-1))
    else p.scheduledSpecDecodeTokens
  tokenBudget : p'.tokenBudget = p.tokenBudget - n
  inputBudget : p'.inputBudget = p.inputBudget - (n + cfg.draftSlots)
  preempted : p'.preemptedReqs = p.preemptedReqs
  running : p'.s.running = p.s.running ++ [id]
  requests : p'.s.requests = p.s.requests
  step : p'.s.currentStep = p.s.currentStep

/-- What a round of the second loop does to the request it considers. -/
inductive Considered (cfg : SchedulerConfig H) (p : Pass H) (id : ReqId) (p' : Pass H) : Prop
  | kept {st : RequestStatus} {c : ℤ} {b : ℕ}
      (status : st = (p.s.objs id).status ∨ st ≠ .running)
      (computed : cfg.hasConnector = false → c = (p.s.objs id).numComputedTokens)
      (boundary : Boundary (p.s.objs id) b) (frame : Frame p p')
      (objs : p'.s.objs = Function.update p.s.objs id ((p.s.objs id).recheck st c b))
  | started {c : ℤ} {n b : ℕ} {pad : Bool}
      (delivered : ¬ (0 < (p.s.objs id).numStaleOutputTokens ∧
        (p.s.objs id).dropStaleOutput = false))
      (admits : Admits cfg (p.s.objs id) c n pad)
      (computed : cfg.hasConnector = false → (p.s.objs id).numComputedTokens ≤ c ∧
        ((p.s.objs id).numComputedTokens ≠ 0 → c = (p.s.objs id).numComputedTokens))
      (objs : p'.s.objs = Function.update p.s.objs id ((p.s.objs id).recheck .running c b))
      (grants : Grants cfg p id n pad p')

end Pass

variable {r : Request H} {c : ℤ} {b : ℕ}

/-- The boundary of a lookup lies outside of the padding. -/
theorem Request.PadsWhole.recheck (h : r.PadsWhole cfg) {st : RequestStatus}
    (hb : Pass.Boundary r b) : (r.recheck st c b).PadsWhole cfg := by
  refine ⟨h.threshold, fun hneed hprompt => ?_, h.items⟩
  obtain ⟨hle, hstops⟩ := h.mamba hneed hprompt
  refine ⟨hle, ?_⟩
  rcases hb with rfl | hb
  · exact hstops
  show ∀ x ∈ mambaStops cfg (r.recheck st c b) ((r.numTokens : ℤ) - 1)
    (r.numTokens + cfg.numSpecTokens),
    ¬ ((r.numTokens : ℤ) - 1 < x ∧ x < r.numTokens + cfg.numSpecTokens)
  rcases Nat.eq_zero_or_pos r.numTokens with hzero | hpos
  · -- an empty request has the stop 0, which the padding would contain
    have hlast := hstops 0 (by simp [mambaStops, hzero])
    intro x _
    omega
  have hout : ¬ ((r.numTokens : ℤ) - 1 < b ∧ (b : ℤ) < r.numTokens + cfg.numSpecTokens) := by
    omega
  intro x hx
  simp only [mambaStops, List.mem_cons, List.not_mem_nil, or_false] at hx hstops
  rcases hx with hx | hx | hx | hx
  · exact hstops x (.inl hx)
  · exact hstops x (.inr (.inl hx))
  · exact hstops x (.inr (.inr (.inl hx)))
  · rw [if_neg (by exact hout)] at hx
    omega

theorem Pass.Admits.of_recheck {st : RequestStatus} {c' n : ℤ}
    {pad : Bool} (hb : Pass.Boundary r b) (h : Pass.Admits cfg (r.recheck st c' b) c n pad) :
    Pass.Admits cfg r c n pad := by
  have hposed (hr : r.WellPosed cfg) : (r.recheck st c' b).WellPosed cfg :=
    ⟨hr.sorted, hr.block_pos⟩
  refine ⟨h.pos, fun hpad hr => h.unpadded hpad (hposed hr), fun hpad => ?_⟩
  obtain ⟨hone, hle, hwhole⟩ := h.padded hpad
  exact ⟨hone, fun hr => hle (hposed hr), fun hr hw => hwhole (hposed hr) (hw.recheck hb)⟩

/-- The admission of a request that was not scheduled before. -/
theorem Fate.start {step : ℕ} {defer : Bool} {r' : Request H} {tokens : Option ℕ}
    {drafts : Option (List Token)} (h : Fate cfg step defer False r tokens drafts r')
    (ht : tokens = none) (hr' : r'.status ≠ .running) {n : ℕ} {pad : Bool}
    (delivered : ¬ (0 < r'.numStaleOutputTokens ∧ r'.dropStaleOutput = false))
    (admits : Pass.Admits cfg r' c n pad)
    (computed : cfg.hasConnector = false → r'.numComputedTokens ≤ c ∧
      (r'.numComputedTokens ≠ 0 → c = r'.numComputedTokens)) : Fate cfg step defer False r (some n)
      (if pad then some (List.replicate cfg.numSpecTokens (-1)) else none)
      (r'.recheck .running c b) := by
  cases h with
  | untouched idle no_drafts same =>
    subst same
    exact .admitted rfl hr' delivered admits rfl computed rfl
  | scheduled granted => simp [granted] at ht
  | preempted idle no_drafts running some_preempted => exact some_preempted.elim
  | considered idle no_drafts queued not_running kept boundary rechecked =>
    subst rechecked
    refine .admitted rfl queued delivered (admits.of_recheck boundary) rfl (fun hno => ?_) rfl
    obtain ⟨hle, heq⟩ := computed hno
    exact ⟨kept hno ▸ hle, fun hne => (heq (kept hno ▸ hne)).trans (kept hno)⟩
  | admitted granted => simp [granted] at ht

namespace Pass

variable [DecidableEq H]

/-- What a promotion and a lookup may change of a scheduler. -/
def lookedUp (s : Scheduler H) (id : ReqId) (st : RequestStatus) (c : ℤ) (b : ℕ)
    (kv : KVCacheManager H) (failed finished grammar : List ReqId) : Scheduler H :=
  { promotedTo s id st c kv failed finished grammar with
    objs := Function.update s.objs id ((s.objs id).recheck st c b) }

variable {id : ReqId} {p p' : Pass H}

/-- **What a promotion and a lookup do.** -/
theorem looked_eq_ok {s s₁ s' : Scheduler H} {ready : Bool} {hit : Option Hit}
    (hready : promote cfg env s id = .ok (ready, s₁)) (h : getHit cfg env s₁ id = .ok (s', hit)) :
    ∃ st c b kv failed finished grammar, s' = lookedUp s id st c b kv failed finished grammar ∧
      Promotes (s.objs id).status st ∧ Boundary (s.objs id) b ∧
      (cfg.hasConnector = false → c = (s.objs id).numComputedTokens ∧
        ∀ x ∈ hit, Local (s.objs id) x) := by
  obtain ⟨st, c, kv, failed, finished, grammar, rfl, hst, -, hno⟩ := promote_eq_ok hready
  obtain ⟨⟨b, rfl, hb⟩, hlocal⟩ := getHit_eq_ok h
  refine ⟨st, c, b, kv, failed, finished, grammar, ?_, hst, ?_, fun hf => ?_⟩
  · simp [lookedUp, setBoundary, promotedTo, update, recheck, restate]
  · simpa [promotedTo, restate, Boundary, numTokens] using hb
  · obtain ⟨rfl, -⟩ := hno hf
    refine ⟨rfl, fun x hx => ?_⟩
    simpa [promotedTo, restate, Local] using hlocal hf x hx

omit [DecidableEq H] in
theorem Promotes.or_ne {st st' : RequestStatus} (h : Promotes st st') :
    st' = st ∨ st' ≠ .running := by
  rcases h with rfl | ⟨-, rfl | rfl⟩ <;> simp

variable {p₁ : Pass H} {skipped deferPrefills : Bool} {a : Admission}

section

omit [DecidableEq H]

theorem Frame.after (h' : Frame p₁ p') (h : Frame p p₁) : Frame p p' :=
  ⟨h'.tokens.trans h.tokens, h'.drafts.trans h.drafts, h'.tokenBudget.trans h.tokenBudget,
    h'.inputBudget.trans h.inputBudget, h'.preempted.trans h.preempted,
    h'.running.trans h.running, h'.requests.trans h.requests, h'.step.trans h.step⟩

theorem Frame.of_skipHead (head : p.IsHead skipped id) (h : p.skipHead cfg skipped = .ok p') :
    Frame p p' ∧ p'.s.objs = p.s.objs := by
  obtain ⟨w, k, aside, rfl, -, -⟩ := skipHead_eq_ok head h
  exact ⟨⟨rfl, rfl, rfl, rfl, rfl, rfl, rfl, rfl⟩, rfl⟩

theorem Frame.of_abandon (h : p.abandon cfg id = .ok p') : Frame p p' ∧ p'.s.objs = p.s.objs := by
  rw [abandon] at h
  split at h
  · simp only [freeEncoder, bind_eq_ok] at h
    obtain ⟨s, ⟨e, -, hs⟩, h⟩ := h
    cases hs
    cases h
    exact ⟨⟨rfl, rfl, rfl, rfl, rfl, rfl, rfl, rfl⟩, rfl⟩
  · cases h
    exact ⟨⟨rfl, rfl, rfl, rfl, rfl, rfl, rfl, rfl⟩, rfl⟩

/-- **What taking the considered head does**: it loads first, or it starts. -/
theorem takeHead_eq_ok (head : p.IsHead skipped id) (h : p.takeHead cfg skipped a = .ok p') :
    (a.hit.loadKvAsync = true ∧ Frame p p' ∧ p'.s.objs = Function.update p.s.objs id
      (restate .waitingForRemoteKvs (computedAt (p.s.objs id) a.hit) (p.s.objs id))) ∨
    (a.hit.loadKvAsync = false ∧ Grants cfg p id a.plan.numNewTokens.toNat a.pad p' ∧
      p'.s.objs = Function.update p.s.objs id
        (restate .running (computedAt (p.s.objs id) a.hit) (p.s.objs id))) := by
  simp only [takeHead, bind_eq_ok] at h
  obtain ⟨⟨i, p₁⟩, hpop, h⟩ := h
  obtain ⟨rfl, w, k, rfl, -⟩ := popHead_eq_ok head hpop
  split at h
  · next hload =>
    cases h
    obtain ⟨skipZero, aside, heq, -⟩ := startLoad_eq cfg (p.setSched (withQueues p.s w k)) i a.hit
    rw [heq]
    exact .inl ⟨hload, ⟨rfl, rfl, rfl, rfl, rfl, rfl, rfl, rfl⟩, rfl⟩
  · next hload =>
    obtain ⟨-, e, -, rfl⟩ := admitRequest_eq_ok h
    exact .inr ⟨by simpa using hload, ⟨rfl, rfl, rfl, rfl, rfl, rfl, rfl, rfl⟩, rfl⟩

/-- The tokens of an admission that does not load first. -/
theorem planHit_admits {hit : Hit} (h : p.planHit cfg env deferPrefills id hit = .ok (p', some a))
    (hload : hit.loadKvAsync = false) :
    Admits cfg (p.s.objs id) (computedAt (p.s.objs id) hit) a.plan.numNewTokens a.pad := by
  rw [planHit, if_neg (by simp [hload])] at h
  exact planAdmission_admits h

end

variable {s s' : Scheduler H} {ready : Bool}

/-- A head that is only promoted. -/
theorem considered_of_promote (h : promote cfg env p.s id = .ok (ready, s))
    (head : p.peek cfg = some (skipped, id)) (skip : (p.setSched s).skipHead cfg skipped = .ok p') :
    ∃ id ∈ p.queues.queued, Considered cfg p id p' := by
  have head : p.IsHead skipped id := peek_eq_some head
  obtain ⟨st, c, kv, failed, finished, grammar, rfl, hst, -, hno⟩ := promote_eq_ok h
  have hhead : (p.setSched (promotedTo p.s id st c kv failed finished grammar)).IsHead
    skipped id := head
  obtain ⟨frame, hobjs⟩ := Frame.of_skipHead hhead skip
  exact ⟨id, head.queued, .kept hst.or_ne (fun hf => (hno hf).1) (.inl rfl)
    (frame.after ⟨rfl, rfl, rfl, rfl, rfl, rfl, rfl, rfl⟩) hobjs⟩

/-- A head that is looked up and left where it is. -/
theorem considered_of_looked {hit : Option Hit} (h : promote cfg env p.s id = .ok (ready, s))
    (looked : getHit cfg env s id = .ok (s', hit)) (head : p.peek cfg = some (skipped, id))
    (hkept : (p.setSched s').IsHead skipped id → Frame (p.setSched s') p' ∧ p'.s.objs = s'.objs) :
    ∃ id ∈ p.queues.queued, Considered cfg p id p' := by
  have head : p.IsHead skipped id := peek_eq_some head
  obtain ⟨st, c, b, kv, failed, finished, grammar, rfl, hst, hb, hno⟩ := looked_eq_ok h looked
  obtain ⟨frame, hobjs⟩ := hkept head
  exact ⟨id, head.queued, .kept hst.or_ne (fun hf => (hno hf).1) hb
    (frame.after ⟨rfl, rfl, rfl, rfl, rfl, rfl, rfl, rfl⟩) hobjs⟩

/-- **What a round of the second loop does.** -/
theorem considered_of_waitingRound (h : WaitingRound cfg env deferPrefills p p') :
    ∃ id ∈ p.queues.queued, Considered cfg p id p' := by
  cases h with
  | blocked head kept skip => exact considered_of_promote kept head skip
  | passedOver head ready passed skip => exact considered_of_promote ready head skip
  | unknownHit head ready looked skip =>
    exact considered_of_looked ready looked head fun hhead => Frame.of_skipHead hhead skip
  | stop head ready looked planned =>
    obtain ⟨⟨e, rfl⟩, -⟩ := planHit_eq_ok planned
    exact considered_of_looked ready looked head fun _ =>
      ⟨⟨rfl, rfl, rfl, rfl, rfl, rfl, rfl, rfl⟩, rfl⟩
  | abandon head ready looked planned full freed =>
    obtain ⟨⟨e, rfl⟩, -⟩ := planHit_eq_ok planned
    obtain ⟨frame, hobjs⟩ := Frame.of_abandon freed
    exact considered_of_looked ready looked head fun _ =>
      ⟨frame.after ⟨rfl, rfl, rfl, rfl, rfl, rfl, rfl, rfl⟩, hobjs⟩
  | @take skipped id s s' hit a reserved blocks kv p₁ p' head ready considered looked budget slots
      room planned fit taken =>
    have head : p.IsHead skipped id := peek_eq_some head
    refine ⟨id, head.queued, ?_⟩
    have hstale : ¬ (0 < (p.s.objs id).numStaleOutputTokens ∧
        (p.s.objs id).dropStaleOutput = false) := by
      obtain ⟨st, c, kv, failed, finished, grammar, rfl, -⟩ := promote_eq_ok ready
      intro hstale
      exact considered (.inl (by simpa [promotedTo, restate] using hstale))
    obtain ⟨st, c, b, kv', failed, finished, grammar, hs', hst, hb, hno⟩ :=
      looked_eq_ok ready looked
    have hobjs' : s'.objs = Function.update p.s.objs id ((p.s.objs id).recheck st c b) := by
      rw [hs', lookedUp]
    have hself : s'.objs id = (p.s.objs id).recheck st c b := by rw [hobjs', Function.update_self]
    have hadmits := planHit_admits planned
    obtain ⟨⟨e, rfl⟩, hhit⟩ := planHit_eq_ok planned
    cases hhit a rfl
    have hhead : (((p.setSched s').setEncoder e).setKV kv).IsHead skipped id := by
      rw [hs']
      exact head
    have hlooked : Frame p (((p.setSched s').setEncoder e).setKV kv) := by
      rw [hs']
      exact ⟨rfl, rfl, rfl, rfl, rfl, rfl, rfl, rfl⟩
    have hupdate (st' : RequestStatus) : Function.update s'.objs id
        (restate st' (computedAt (s'.objs id) a.hit) (s'.objs id)) =
        Function.update p.s.objs id ((p.s.objs id).recheck st'
          (computedAt ((p.s.objs id).recheck st c b) a.hit) b) := by
      rw [hself, hobjs', Function.update_idem]
      rfl
    obtain ⟨hload, frame, hobjs⟩ | ⟨hload, grants, hobjs⟩ := takeHead_eq_ok hhead taken
    · refine .kept (.inr (by simp)) (fun hf => ?_) hb (frame.after hlooked)
        (hobjs.trans (hupdate .waitingForRemoteKvs))
      have hasync := ((hno hf).2 a.hit rfl).2.1
      rw [hload] at hasync
      cases hasync
    · have hadmits := hadmits hload
      rw [show ((p.setSched s').s.objs id) = (p.s.objs id).recheck st c b from hself] at hadmits
      have hadmits := hadmits.of_recheck hb
      have hcast : (a.plan.numNewTokens.toNat : ℤ) = a.plan.numNewTokens :=
        Int.toNat_of_nonneg hadmits.pos.le
      rw [← hcast] at hadmits
      refine .started hstale hadmits (fun hf => ?_) (hobjs.trans (hupdate .running))
        ⟨grants.tokens, grants.drafts, grants.tokenBudget, grants.inputBudget, grants.preempted,
          grants.running.trans (congrArg (· ++ [id]) hlooked.running),
          grants.requests.trans hlooked.requests, grants.step.trans hlooked.step⟩
      obtain ⟨rfl, hlocal⟩ := hno hf
      obtain ⟨hext, -, hzero⟩ := hlocal a.hit rfl
      show _ ≤ (p.s.objs id).numComputedTokens + a.hit.numLocal + a.hit.numExternal ∧
        (_ → (p.s.objs id).numComputedTokens + a.hit.numLocal + a.hit.numExternal = _)
      refine ⟨by omega, fun hne => ?_⟩
      have := hzero hne
      omega

end Pass

/-! ## The first loop -/

namespace Pass

variable {p p' : Pass H} {v id : ReqId}

/-- **What a preemption leaves of the batch**: the victim is out of it. -/
theorem preemptVictim_batch (h : p.preemptVictim cfg v = .ok p')
    (dropped : v ∉ p'.numScheduledTokens) : (p.s.objs v).status = .running ∧
    p'.s.objs = Function.update p.s.objs v
      (preempt (cfg.hasConnector && cfg.requiresKvDelivery) (p.s.objs v)) ∧
    p'.s.currentStep = p.s.currentStep ∧ p'.s.requests = p.s.requests ∧
    p'.preemptedReqs = p.preemptedReqs ++ [v] ∧
    (∀ id ≠ v, p'.numScheduledTokens.get? id = p.numScheduledTokens.get? id ∧
      p'.scheduledSpecDecodeTokens.get? id = p.scheduledSpecDecodeTokens.get? id) ∧
    (p'.scheduledSpecDecodeTokens.get? v = none ∨ (v ∉ p.numScheduledTokens ∧
      p'.scheduledSpecDecodeTokens = p.scheduledSpecDecodeTokens)) := by
  obtain ⟨p₁, s, hr, hs, rfl⟩ := preemptVictim_eq_ok h
  obtain ⟨hst, kv, e, w, -, -, -, rfl⟩ := preemptRequest_eq_ok hs
  obtain ⟨-, -, hr⟩ | ⟨-, rfl⟩ := rescindVictim_eq_ok hr
  · obtain ⟨n, -, hr⟩ := bind_eq_ok.1 hr
    cases hr
    refine ⟨hst, rfl, rfl, rfl, rfl, fun id hne => ⟨?_, ?_⟩, .inl (get?_pop_self _ _)⟩
    · exact (get?_pop _ _ _).trans (if_neg hne)
    · exact (get?_pop _ _ _).trans (if_neg hne)
  · exact ⟨hst, rfl, rfl, rfl, rfl, fun id _ => ⟨rfl, rfl⟩, .inr ⟨dropped, rfl⟩⟩

theorem mem_running_of_preemptVictim (hv : p.victim cfg = .ok v)
    (h : p.preemptVictim cfg v = .ok p') (hne : id ≠ v) (hid : id ∈ p.s.running) :
    id ∈ p'.s.running := by
  have hmem : id ∈ (p.s.running : Multiset ReqId).erase v :=
    (Multiset.mem_erase_of_ne hne).2 hid
  rwa [← coe_running_preemptVictim hv h] at hmem

/-- The request for which others are preempted stays as it is. -/
theorem Preempting.keeps [DecidableEq H] {n : ℕ} (h : Preempting cfg id n p p') :
    p'.s.objs id = p.s.objs id ∧ p'.numScheduledTokens.get? id = p.numScheduledTokens.get? id ∧
      (id ∈ p.s.running → id ∈ p'.s.running) := by
  induction h with
  | done => exact ⟨rfl, rfl, fun hid => hid⟩
  | next full chosen other preempted dropped rest ih =>
    obtain ⟨hobjs, htokens, hrun⟩ := ih
    obtain ⟨-, hobjs', -, -, -, hothers, -⟩ := preemptVictim_batch preempted dropped
    refine ⟨?_, ?_, fun hid => ?_⟩
    · rw [hobjs, hobjs', Function.update_of_ne other.symm]
      rfl
    · rw [htokens, (hothers id other.symm).1]
      rfl
    · exact hrun (mem_running_of_preemptVictim chosen preempted other.symm hid)

/-- Every request has a fate, and those that were given tokens run. -/
structure Tracked (cfg : SchedulerConfig H) (s : Scheduler H) (deferPrefills : Bool)
    (p : Pass H) : Prop where
  exclusive : p.queues.Exclusive
  requests : p.s.requests = s.requests
  step : p.s.currentStep = s.currentStep + 1
  scheduled : ∀ id ∈ p.numScheduledTokens, id ∈ p.s.running
  fate : ∀ id, Fate cfg (s.currentStep + 1) deferPrefills (p.preemptedReqs ≠ []) (s.objs id)
    (p.numScheduledTokens.get? id) (p.scheduledSpecDecodeTokens.get? id) (p.s.objs id)

/-- During the first loop only requests that were running are scheduled. -/
structure TrackedEarly (cfg : SchedulerConfig H) (s : Scheduler H) (deferPrefills : Bool)
    (p : Pass H) : Prop extends Tracked cfg s deferPrefills p where
  early : ∀ id ∈ p.numScheduledTokens, (s.objs id).status = .running

variable {s : Scheduler H} {deferPrefills : Bool}

theorem Tracked.status_of_running (h : Tracked cfg s deferPrefills p)
    (hid : id ∈ p.s.running) : (p.s.objs id).status = .running := h.exclusive.status_of_running hid

theorem TrackedEarly.start (hx : s.queues.Exclusive) :
    TrackedEarly cfg s deferPrefills (Pass.start cfg s) := by
  have hsame : (Pass.start cfg s).queues = s.queues := by
    simp [Pass.queues, Scheduler.queues, Pass.start]
  refine ⟨⟨hsame ▸ hx, rfl, rfl, ?_, fun id => .untouched rfl rfl rfl⟩, ?_⟩
  · exact fun id hid => absurd hid (notMem_empty id)
  · exact fun id hid => absurd hid (notMem_empty id)

/-- A request that runs in the first loop was running before. -/
theorem TrackedEarly.running_before (h : TrackedEarly cfg s deferPrefills p)
    (hid : id ∈ p.s.running) : (s.objs id).status = .running := by
  by_cases hk : id ∈ p.numScheduledTokens
  · exact h.early id hk
  · have hst := h.status_of_running hid
    rwa [(h.fate id).untouched_of_running (get?_eq_none_iff.2 hk) hst] at hst

theorem TrackedEarly.preemptVictim {v : ReqId} (h : TrackedEarly cfg s deferPrefills p)
    (hv : p.victim cfg = .ok v) (hp : p.preemptVictim cfg v = .ok p')
    (dropped : v ∉ p'.numScheduledTokens) : TrackedEarly cfg s deferPrefills p' := by
  have hstep : Step False p.queues p'.queues := queues_preemptVictim hv hp
  obtain ⟨hst, hobjs, hcur, hreq, hpre, hothers, hdrafts⟩ := preemptVictim_batch hp dropped
  have hrun := h.running_before (mem_running_of_victim hv)
  have hmem : ∀ id ∈ p'.numScheduledTokens, id ≠ v ∧ id ∈ p.numScheduledTokens := by
    intro id hid
    have hne : id ≠ v := fun e => dropped (e ▸ hid)
    refine ⟨hne, ?_⟩
    obtain ⟨n, hn⟩ := mem_iff_get?.1 hid
    exact mem_of_get? ((hothers id hne).1 ▸ hn)
  refine ⟨⟨h.exclusive.step hstep, hreq.trans h.requests, hcur.trans h.step, fun id hid => ?_,
    fun id => ?_⟩,
    fun id hid => h.early id (hmem id hid).2⟩
  · obtain ⟨hne, hid⟩ := hmem id hid
    exact mem_running_of_preemptVictim hv hp hne (h.scheduled id hid)
  have hsome : p'.preemptedReqs ≠ [] := by simp [hpre]
  rcases eq_or_ne id v with rfl | hne
  · refine .preempted (get?_eq_none_iff.2 dropped) ?_ hrun hsome ?_
    · rcases hdrafts with hnone | ⟨hfresh, hsame⟩
      · exact hnone
      · rw [hsame]
        exact (h.fate id).no_drafts (get?_eq_none_iff.2 hfresh)
    · rw [hobjs, Function.update_self]
      exact (h.fate id).preempt hrun hst _
  · rw [hobjs, Function.update_of_ne hne, (hothers id hne).1, (hothers id hne).2]
    exact (h.fate id).mono fun _ => hsome

theorem get?_specAfter_of_ne {i : ReqId} (hne : i ≠ id) (n : ℤ) :
    (p.specAfter id n).get? i = p.scheduledSpecDecodeTokens.get? i := by
  simp only [specAfter]
  split
  · rw [get?_set, if_neg hne]
  · rfl

theorem get?_specAfter (hnone : p.scheduledSpecDecodeTokens.get? id = none) (n : ℕ) :
    (p.specAfter id n).get? id = (p.s.objs id).draftsIn n := by
  simp only [specAfter, draftsIn]
  split
  · rw [get?_set, if_pos rfl]
  · exact hnone

theorem runningTokens_le (cfg : SchedulerConfig H) (tokenBudget inputBudget : ℤ) (r : Request H) :
    runningTokens cfg tokenBudget inputBudget r ≤ r.asked ∧
      runningTokens cfg tokenBudget inputBudget r ≤
        cfg.maxModelLen - r.numComputedTokens - cfg.numSampledTokensPerStep := by
  have hcap (n : ℤ) : capByThreshold cfg n ≤ n := by
    rw [capByThreshold]
    split <;> omega
  have hcap := hcap (r.numTokensWithSpec + r.numOutputPlaceholders - r.numComputedTokens)
  rw [runningTokens, asked]
  omega

/-- A running request that gets tokens. -/
theorem TrackedEarly.commitRunning {plan : EncoderPlan}
    {blocks : List (List BlockId)} {tokenBudget inputBudget : ℤ}
    (h : TrackedEarly cfg s deferPrefills p) (running : id ∈ p.s.running)
    (fresh : id ∉ p.numScheduledTokens) (due : ¬ notDue p.s.currentStep deferPrefills (p.s.objs id))
    (planned : 0 < plan.numNewTokens ∧ ((p.s.objs id).WellPosed cfg →
      plan.numNewTokens ≤ runningTokens cfg tokenBudget inputBudget (p.s.objs id)))
    (hc : p.commitRunning cfg id plan blocks = .ok p') : TrackedEarly cfg s deferPrefills p' := by
  have hqueues := queues_commitRunning hc
  have hst := h.status_of_running running
  have hnone := get?_eq_none_iff.2 fresh
  have hsame := (h.fate id).untouched_of_running hnone hst
  obtain ⟨e, -, rfl⟩ := commitRunning_eq_ok hc
  have hcast : (plan.numNewTokens.toNat : ℤ) = plan.numNewTokens :=
    Int.toNat_of_nonneg planned.1.le
  refine ⟨⟨hqueues ▸ h.exclusive, h.requests, h.step, fun i hi => ?_, fun i => ?_⟩, fun i hi => ?_⟩
  · rcases mem_set.1 hi with rfl | hi
    · exact running
    · exact h.scheduled i hi
  · rcases eq_or_ne i id with rfl | hne
    · rw [hsame] at due planned hst
      rw [h.step] at due
      refine .scheduled (get?_set_self _ _ _) (by omega) hst due (fun hr => ?_)
        (fun hr => ?_) ?_ ?_
      · exact hcast.trans_le ((planned.2 hr).trans (runningTokens_le cfg _ _ _).1)
      · exact hcast.trans_le ((planned.2 hr).trans (runningTokens_le cfg _ _ _).2)
      · rw [← hsame, ← get?_specAfter ((h.fate i).no_drafts hnone), hcast]
      · rw [← hsame]
        exact update_objs_self _ _ _
    · have hobjs : (p.s.update id clearSpec).objs i = p.s.objs i :=
        update_objs_of_ne _ _ hne
      have hfate := h.fate i
      rw [← hobjs, ← get?_specAfter_of_ne hne plan.numNewTokens] at hfate
      simpa only [get?_set, if_neg hne] using hfate
  · rcases mem_set.1 hi with rfl | hi
    · rw [← hsame]
      exact hst
    · exact h.early i hi

variable [DecidableEq H]

/-- **A round of the first loop keeps every request tracked.** -/
theorem TrackedEarly.runningRound (h : TrackedEarly cfg s deferPrefills p)
    (hr : RunningRound cfg env deferPrefills p p') : TrackedEarly cfg s deferPrefills p' := by
  have halloc {id : ReqId} {n : ℕ} {q q' : Pass H} {blocks : Option (List (List BlockId))}
      (hq : TrackedEarly cfg s deferPrefills q) (ha : Allocated cfg id n q blocks q') :
      TrackedEarly cfg s deferPrefills q' :=
    ha.invariant
      (fun kv hp => ⟨⟨hp.exclusive, hp.requests, hp.step, hp.scheduled, hp.fate⟩, hp.early⟩)
      (fun hp hv hpre hdrop => hp.preemptVictim hv hpre hdrop) hq
  have hencoder (e : EncoderCache) : TrackedEarly cfg s deferPrefills (p.setEncoder e) :=
    ⟨⟨h.exclusive, h.requests, h.step, h.scheduled, h.fate⟩, h.early⟩
  cases hr with
  | idle => exact hencoder _
  | giveUp running fresh planned some_tokens allocated => exact halloc (hencoder _) allocated
  | @schedule id plan blocks p₁ p₂ running fresh budget slots due planned some_tokens allocated
      committed =>
    have hp₁ := halloc (hencoder _) allocated
    have hplan := planRunning_le planned some_tokens
    cases allocated with
    | @fits q bs kv rounds fit =>
      obtain ⟨hobjs, htokens, hrun⟩ := rounds.keeps
      have hobjs : (q.setKV kv).s.objs id = p.s.objs id := hobjs
      rw [← hobjs] at hplan due
      have hstep : (q.setKV kv).s.currentStep = p.s.currentStep :=
        hp₁.step.trans h.step.symm
      rw [← hstep] at due
      have hfresh : id ∉ (q.setKV kv).numScheduledTokens :=
        get?_eq_none_iff.1 (htokens.trans (get?_eq_none_iff.2 fresh))
      exact hp₁.commitRunning (hrun running) hfresh due hplan committed

/-- **A round of the second loop keeps every request tracked.** -/
theorem Tracked.waitingRound (h : Tracked cfg s deferPrefills p) (hnone : p.preemptedReqs = [])
    (hr : WaitingRound cfg env deferPrefills p p') :
    Tracked cfg s deferPrefills p' ∧ p'.preemptedReqs = [] := by
  have hsteps : Steps False p.queues p'.queues := steps_of_waitingRound hr
  have hexclusive := h.exclusive.steps hsteps
  obtain ⟨id, hid, hc⟩ := considered_of_waitingRound hr
  have hst := h.exclusive.status_of_queued hid
  have hst : (p.s.objs id).status ≠ .running := hst
  have hfresh : id ∉ p.numScheduledTokens := fun hk =>
    h.exclusive.not_running hid (h.scheduled id hk)
  have hfate (i : ReqId) : Fate cfg (s.currentStep + 1) deferPrefills False (s.objs i)
      (p.numScheduledTokens.get? i) (p.scheduledSpecDecodeTokens.get? i) (p.s.objs i) :=
    (h.fate i).mono fun hne => hne hnone
  cases hc with
  | kept status computed boundary frame objs =>
    refine ⟨⟨hexclusive, frame.requests.trans h.requests, frame.step.trans h.step, ?_,
      fun i => ?_⟩, frame.preempted.trans hnone⟩
    · rw [frame.tokens, frame.running]
      exact h.scheduled
    rw [frame.tokens, frame.drafts, objs]
    rcases eq_or_ne i id with rfl | hne
    · have hidle := get?_eq_none_iff.2 hfresh
      rw [Function.update_self, hidle, (hfate i).no_drafts hidle]
      refine ((hfate i).recheck hidle hst ?_ computed boundary).mono False.elim
      rcases status with rfl | hne
      · exact hst
      · exact hne
    · rw [Function.update_of_ne hne]
      exact (hfate i).mono False.elim
  | started delivered admits computed objs grants =>
    refine ⟨⟨hexclusive, grants.requests.trans h.requests, grants.step.trans h.step, ?_,
      fun i => ?_⟩, grants.preempted.trans hnone⟩
    · rw [grants.tokens, grants.running]
      intro i hi
      rcases mem_set.1 hi with rfl | hi
      · simp
      · exact List.mem_append_left _ (h.scheduled i hi)
    rw [grants.tokens, grants.drafts, objs, get?_set]
    rcases eq_or_ne i id with rfl | hne
    · have hidle := get?_eq_none_iff.2 hfresh
      have hdrafts := (hfate i).no_drafts hidle
      rw [Function.update_self, if_pos rfl]
      refine (?_ : Fate cfg _ _ False _ _ _ _).mono False.elim
      convert (hfate i).start hidle hst delivered admits computed using 1
      split
      · exact get?_set_self _ _ _
      · exact hdrafts
    · rw [Function.update_of_ne hne, if_neg hne]
      refine (?_ : Fate cfg _ _ False _ _ _ _).mono False.elim
      convert hfate i using 1
      split
      · rw [get?_set, if_neg hne]
      · rfl

/-- **An invariant of the rounds**, in passes in which every request is tracked. -/
theorem Rounds.tracked_and {P : Pass H → Prop} (h : Rounds cfg env s p)
    (hx : s.queues.Exclusive) (hd : deferPrefills = s.deferPrefills env.throttlePrefills)
    (init : P (Pass.start cfg s)) (running : ∀ {p p'}, TrackedEarly cfg s deferPrefills p → P p →
      RunningRound cfg env deferPrefills p p' → P p')
    (loras : ∀ {p} l, P p → P { p with scheduledLoras := l })
    (waiting : ∀ {p p'}, Tracked cfg s deferPrefills p → P p →
      WaitingRound cfg env deferPrefills p p' → P p')
    (requeue : ∀ {p}, P p → P (p.requeue cfg deferPrefills)) :
    Tracked cfg s deferPrefills p ∧ P p := by
  subst hd
  have hfirst {q : Pass H} (hrun : ReflTransGen
      (RunningRound cfg env (s.deferPrefills env.throttlePrefills)) (Pass.start cfg s) q) :
      TrackedEarly cfg s (s.deferPrefills env.throttlePrefills) q ∧ P q :=
    invariant_of_reflTransGen
      (P := fun q => TrackedEarly cfg s (s.deferPrefills env.throttlePrefills) q ∧ P q) hrun
      ⟨.start hx, init⟩ fun hp hr => ⟨hp.1.runningRound hr, running hp.1 hp.2 hr⟩
  cases h with
  | ran hrun hlora closed =>
    obtain ⟨l, rfl⟩ := collectLoras_eq_ok hlora
    obtain ⟨hp, hP⟩ := hfirst hrun
    exact ⟨⟨hp.exclusive, hp.requests, hp.step, hp.scheduled, hp.fate⟩, loras l hP⟩
  | @admitted _ _ q hrun hlora none_preempted unpaused hwait =>
    obtain ⟨l, rfl⟩ := collectLoras_eq_ok hlora
    obtain ⟨hp, hP⟩ := hfirst hrun
    obtain ⟨hq, -, hP⟩ := invariant_of_reflTransGen
      (P := fun q => Tracked cfg s (s.deferPrefills env.throttlePrefills) q ∧
        q.preemptedReqs = [] ∧ P q) hwait
      ⟨⟨hp.exclusive, hp.requests, hp.step, hp.scheduled, hp.fate⟩, none_preempted, loras l hP⟩
      fun hq hr => ⟨(hq.1.waitingRound hq.2.1 hr).1, (hq.1.waitingRound hq.2.1 hr).2,
        waiting hq.1 hq.2.2 hr⟩
    refine ⟨⟨?_, hq.requests, hq.step, hq.scheduled, hq.fate⟩, requeue hP⟩
    rw [queues_requeue]
    exact hq.exclusive

/-- **At the end of the loops every request is tracked.** -/
theorem Rounds.tracked (h : Rounds cfg env s p) (hx : s.queues.Exclusive) :
    Tracked cfg s (s.deferPrefills env.throttlePrefills) p :=
  (h.tracked_and (P := fun _ => True) hx rfl trivial (fun _ _ _ => trivial) (fun _ _ => trivial)
    (fun _ _ _ => trivial) fun _ => trivial).1

end Pass

/-- **What a call of `schedule` does to a request**: its fate in the pass and, if it was
given tokens, what the end of the pass does to it. -/
theorem Scheduler.schedule_fate [DecidableEq H] {s s' : Scheduler H} {out : SchedulerOutput}
    (hx : s.queues.Exclusive) (h : s.schedule cfg env = .ok (out, s')) (id : ReqId) :
    s'.requests = s.requests ∧
      ∃ r, Fate cfg (s.currentStep + 1) (s.deferPrefills env.throttlePrefills) True (s.objs id)
        (out.numScheduledTokens.get? id) (out.scheduledSpecDecodeTokens.get? id) r ∧
      s'.objs id = match out.numScheduledTokens.get? id with
        | none => r
        | some n => afterSchedule cfg out s'.kv (s.currentStep + 1) id n r := by
  obtain ⟨p, hrounds, hfin⟩ :=
    schedule_eq_ok (Multiset.coe_nodup.1 (Multiset.nodup_add.1 hx.once).1) h
  have htracked := hrounds.tracked hx
  obtain ⟨d, numSpec, inflight, placeholders, -, -, -, hout, -, rfl⟩ := Pass.finish_eq_ok hfin
  refine ⟨htracked.requests, p.s.objs id, ?_, ?_⟩
  · rw [hout]
    exact (htracked.fate id).mono fun _ => trivial
  · rw [← htracked.step]
    have htokens : out.numScheduledTokens = p.numScheduledTokens := by rw [hout]; rfl
    rw [htokens]
    rfl

end KVarN.Sched
