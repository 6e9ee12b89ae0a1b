import KVarN.Sched.Schedule

/-!
# What a scheduling pass can do

The loops of `schedule` are cut into rounds. A round of the first loop schedules a
running request, leaves it alone or preempts it, after preempting any number of
others; a round of the second considers the head of a waiting queue. This module
says once, for each round, what it can be; properties of a pass are then proved
round by round.

## Main definitions

* `Preempting` — failed allocations, each followed by the preemption of a request.
* `RunningRound`, `WaitingRound` — the rounds of the two loops.
* `Rounds` — the passes that the loops reach.

## Main results

* `Scheduler.rounds_of_schedulePass` — every pass is reached by rounds.
-/

namespace KVarN.Sched

open KVarN.Lib KVarN.Core Relation List

namespace Pass

variable {H : Type} [DecidableEq H] (cfg : SchedulerConfig H) (env : ScheduleEnv)

/-- `allocate_slots` for a running request. -/
def allocateRunning (p : Pass H) (id : ReqId) (n : ℕ) :
    Except Fault (Option (List (List BlockId)) × KVCacheManager H) :=
  p.s.kv.kv.allocateSlots cfg.kv ((p.s.objs id).toKV id) (runningArgs cfg n)

/-- Rounds of `allocateLoop` in which the slots of `id` did not fit and another request
was preempted. -/
inductive Preempting (id : ReqId) (n : ℕ) : Pass H → Pass H → Prop
  | done (p : Pass H) : Preempting id n p p
  | next {p p₁ p₂ : Pass H} {kv : KVCacheManager H} {v : ReqId}
      (full : p.allocateRunning cfg id n = .ok (none, kv))
      (chosen : (p.setKV kv).victim cfg = .ok v) (other : v ≠ id)
      (preempted : (p.setKV kv).preemptVictim cfg v = .ok p₁) (dropped : v ∉ p₁.numScheduledTokens)
      (rest : Preempting id n p₁ p₂) : Preempting id n p p₂

/-- The end of the preemptions: the slots fit, or the request itself was preempted. -/
inductive Allocated (id : ReqId) (n : ℕ) (p : Pass H) :
    Option (List (List BlockId)) → Pass H → Prop
  | fits {p₁ : Pass H} {blocks : List (List BlockId)} {kv : KVCacheManager H}
      (rounds : Preempting cfg id n p p₁)
      (fit : p₁.allocateRunning cfg id n = .ok (some blocks, kv)) :
      Allocated id n p (some blocks) (p₁.setKV kv)
  | gaveUp {p₁ p₂ : Pass H} {kv : KVCacheManager H} (rounds : Preempting cfg id n p p₁)
      (full : p₁.allocateRunning cfg id n = .ok (none, kv))
      (chosen : (p₁.setKV kv).victim cfg = .ok id)
      (preempted : (p₁.setKV kv).preemptVictim cfg id = .ok p₂)
      (dropped : id ∉ p₂.numScheduledTokens) : Allocated id n p none p₂

def planRunning (p : Pass H) (id : ReqId) : Except Fault EncoderPlan :=
  p.planTokens cfg env id (p.s.objs id).numComputedTokens
    (mambaSplit cfg (p.s.objs id) (runningTokens cfg p.tokenBudget p.inputBudget (p.s.objs id)) 0 0)

/-- A round of the loop over the running requests, for a request that is due and that
was not scheduled before. -/
inductive RunningRound (deferPrefills : Bool) (p : Pass H) : Pass H → Prop
  | idle {id : ReqId} {plan : EncoderPlan} (running : id ∈ p.s.running)
      (fresh : id ∉ p.numScheduledTokens) (planned : p.planRunning cfg env id = .ok plan)
      (nothing : plan.numNewTokens = 0) : RunningRound deferPrefills p (p.setEncoder plan.cache)
  | schedule {id : ReqId} {plan : EncoderPlan} {blocks : List (List BlockId)} {p₁ p₂ : Pass H}
      (running : id ∈ p.s.running) (fresh : id ∉ p.numScheduledTokens)
      (budget : 0 < p.tokenBudget) (slots : (cfg.draftSlots : ℤ) < p.inputBudget)
      (due : ¬ notDue p.s.currentStep deferPrefills (p.s.objs id))
      (planned : p.planRunning cfg env id = .ok plan) (some_tokens : plan.numNewTokens ≠ 0)
      (allocated : Allocated cfg id plan.numNewTokens.toNat (p.setEncoder plan.cache)
        (some blocks) p₁)
      (committed : p₁.commitRunning cfg id plan blocks = .ok p₂) :
      RunningRound deferPrefills p p₂
  | giveUp {id : ReqId} {plan : EncoderPlan} {p₁ : Pass H} (running : id ∈ p.s.running)
      (fresh : id ∉ p.numScheduledTokens) (planned : p.planRunning cfg env id = .ok plan)
      (some_tokens : plan.numNewTokens ≠ 0)
      (allocated : Allocated cfg id plan.numNewTokens.toNat (p.setEncoder plan.cache) none p₁) :
      RunningRound deferPrefills p p₁

/-- How far a round of the admission loop gets with a request. -/
inductive WaitingRound (deferPrefills : Bool) (p : Pass H) : Pass H → Prop
  | blocked {skipped : Bool} {id : ReqId} {s : Scheduler H} {p' : Pass H}
      (head : p.peek cfg = some (skipped, id)) (kept : promote cfg env p.s id = .ok (false, s))
      (skip : (p.setSched s).skipHead cfg skipped = .ok p') : WaitingRound deferPrefills p p'
  | passedOver {skipped : Bool} {id : ReqId} {s : Scheduler H} {p' : Pass H}
      (head : p.peek cfg = some (skipped, id)) (ready : promote cfg env p.s id = .ok (true, s))
      (passed : Pass.passedOver cfg (p.setSched s) (s.objs id))
      (skip : (p.setSched s).skipHead cfg skipped = .ok p') : WaitingRound deferPrefills p p'
  | unknownHit {skipped : Bool} {id : ReqId} {s s' : Scheduler H} {p' : Pass H}
      (head : p.peek cfg = some (skipped, id)) (ready : promote cfg env p.s id = .ok (true, s))
      (looked : getHit cfg env s id = .ok (s', none))
      (skip : (p.setSched s').skipHead cfg skipped = .ok p') : WaitingRound deferPrefills p p'
  | stop {skipped : Bool} {id : ReqId} {s s' : Scheduler H} {hit : Hit} {p' : Pass H}
      (head : p.peek cfg = some (skipped, id)) (ready : promote cfg env p.s id = .ok (true, s))
      (looked : getHit cfg env s id = .ok (s', some hit))
      (planned : (p.setSched s').planHit cfg env deferPrefills id hit = .ok (p', none)) :
      WaitingRound deferPrefills p p'
  | abandon {skipped : Bool} {id : ReqId} {s s' : Scheduler H} {hit : Hit} {a : Admission}
      {reserved : ℤ} {kv : KVCacheManager H} {p₁ p' : Pass H}
      (head : p.peek cfg = some (skipped, id)) (ready : promote cfg env p.s id = .ok (true, s))
      (looked : getHit cfg env s id = .ok (s', some hit))
      (planned : (p.setSched s').planHit cfg env deferPrefills id hit = .ok (p₁, some a))
      (full : p₁.s.kv.kv.allocateSlots cfg.kv ((p₁.s.objs id).toKV id)
        (admissionArgs cfg p₁.s id a reserved) = .ok (none, kv))
      (freed : (p₁.setKV kv).abandon cfg id = .ok p') : WaitingRound deferPrefills p p'
  | take {skipped : Bool} {id : ReqId} {s s' : Scheduler H} {hit : Hit} {a : Admission}
      {reserved : ℤ} {blocks : List (List BlockId)} {kv : KVCacheManager H} {p₁ p' : Pass H}
      (head : p.peek cfg = some (skipped, id)) (ready : promote cfg env p.s id = .ok (true, s))
      (considered : ¬ Pass.passedOver cfg (p.setSched s) (s.objs id))
      (looked : getHit cfg env s id = .ok (s', some hit))
      (budget : 0 < p.tokenBudget) (slots : (cfg.draftSlots : ℤ) < p.inputBudget)
      (room : p.s.running.length + p.s.numWaitingForStreamingInput < (cfg.maxNumRunningReqs : ℤ))
      (planned : (p.setSched s').planHit cfg env deferPrefills id hit = .ok (p₁, some a))
      (fit : p₁.s.kv.kv.allocateSlots cfg.kv ((p₁.s.objs id).toKV id)
        (admissionArgs cfg p₁.s id a reserved) = .ok (some blocks, kv))
      (taken : (p₁.setKV kv).takeHead cfg skipped a = .ok p') : WaitingRound deferPrefills p p'

variable {cfg env}

variable {deferPrefills : Bool} {id v : ReqId} {p p' : Pass H} {fuel idx : ℕ} {plan : EncoderPlan}

/-- **What one round of the admission loop does.** -/
theorem waitingRound_of_waitingStep {skipped more : Bool}
    (head : p.peek cfg = some (skipped, id)) (budget : 0 < p.tokenBudget)
    (slots : (cfg.draftSlots : ℤ) < p.inputBudget)
    (room : p.s.running.length + p.s.numWaitingForStreamingInput < (cfg.maxNumRunningReqs : ℤ))
    (h : p.waitingStep cfg env deferPrefills skipped id = .ok (more, p')) :
    WaitingRound cfg env deferPrefills p p' := by
  obtain ⟨⟨ready, s⟩, hready, h⟩ := bind_eq_ok.1 h
  cases ready with
  | false =>
    obtain ⟨p₁, hskip, h⟩ := bind_eq_ok.1 h
    cases h
    exact .blocked head hready hskip
  | true =>
    simp only [if_true, considerHead] at h
    split at h
    · next passed =>
      obtain ⟨p₁, hskip, h⟩ := bind_eq_ok.1 h
      cases h
      exact .passedOver head hready passed hskip
    next considered =>
    obtain ⟨⟨s', hit⟩, hlook, h⟩ := bind_eq_ok.1 h
    cases hit with
    | none =>
      obtain ⟨p₁, hskip, h⟩ := bind_eq_ok.1 h
      cases h
      exact .unknownHit head hready hlook hskip
    | some hit =>
      obtain ⟨⟨p₁, a⟩, hplan, h⟩ := bind_eq_ok.1 h
      cases a with
      | none =>
        cases h
        exact .stop head hready hlook hplan
      | some a =>
        simp only [allocateAdmission, bind_eq_ok] at h
        obtain ⟨reserved, -, ⟨blocks, kv⟩, hal, h⟩ := h
        cases blocks with
        | none =>
          obtain ⟨p₂, hab, h⟩ := bind_eq_ok.1 h
          cases h
          exact .abandon head hready hlook hplan hal hab
        | some blocks =>
          obtain ⟨p₂, htake, h⟩ := bind_eq_ok.1 h
          cases h
          exact .take head hready considered hlook budget slots room hplan hal htake

/-- The admission loop is a sequence of rounds. -/
theorem rounds_of_waitingLoop (h : p.waitingLoop cfg env deferPrefills fuel = .ok p') :
    ReflTransGen (WaitingRound cfg env deferPrefills) p p' := by
  induction fuel generalizing p with
  | zero =>
    cases h
    exact .refl
  | succ fuel ih =>
    rw [waitingLoop] at h
    split at h
    · cases h
      exact .refl
    next skipped id head =>
    split at h
    · cases h
      exact .refl
    next hb =>
    simp only [not_or, not_le] at hb
    obtain ⟨⟨more, p₁⟩, hstep, h⟩ := bind_eq_ok.1 h
    have hround := waitingRound_of_waitingStep head hb.1 hb.2.1 hb.2.2 hstep
    cases more with
    | false =>
      cases h
      exact .single hround
    | true => exact .head hround (ih h)

/-! ## What scheduling a request records -/

/-- A request whose draft tokens were taken. -/
def clearSpec (r : Request H) : Request H := { r with specTokenIds := [] }

omit [DecidableEq H] in
theorem update_clearSpec_of_nil {s : Scheduler H}
    (h : (s.objs id).specTokenIds = []) : s.update id clearSpec = s := by
  have hr : clearSpec (s.objs id) = s.objs id := by rw [clearSpec, ← h]
  rw [Scheduler.update, hr, Function.update_eq_self]

/-- The draft tokens of the batch after a running request was scheduled. -/
def specAfter (p : Pass H) (id : ReqId) (numNewTokens : ℤ) : Dict ReqId (List Token) :=
  let r := p.s.objs id
  let numSpec := numNewTokens + r.numComputedTokens - r.numTokens - r.numOutputPlaceholders
  if r.specTokenIds ≠ [] ∧ 0 < numSpec then
    p.scheduledSpecDecodeTokens.set id (r.specTokenIds.take numSpec.toNat)
  else p.scheduledSpecDecodeTokens

section

omit [DecidableEq H]

theorem scheduleSpec_eq (p : Pass H) (id : ReqId) (n : ℤ) :
    p.scheduleSpec id n = { p with
      s := p.s.update id clearSpec
      scheduledSpecDecodeTokens := p.specAfter id n } := by
  rw [scheduleSpec, specAfter]
  split
  · next h => simp [h, update_clearSpec_of_nil h]
  · next h =>
    simp only [ne_eq, h, not_false_eq_true, true_and]
    split <;> rfl

/-- **What granting encoder inputs does.** -/
theorem grantEncoder_eq_ok (h : p.grantEncoder cfg id plan = .ok p') :
    ∃ e, EncoderCache.allocateAll cfg.encoder.isEncoderDecoder (p.s.objs id) id
        (plan.inputs ++ plan.external) p.s.encoder = .ok e ∧
      p' = { p with
        s := { p.s with encoder := e }
        scheduledEncoderInputs :=
          if plan.inputs = [] then p.scheduledEncoderInputs
          else p.scheduledEncoderInputs.set id plan.inputs
        encoderComputeBudget :=
          if plan.inputs = [] then p.encoderComputeBudget else plan.computeBudget } := by
  obtain ⟨e, he, h⟩ := bind_eq_ok.1 h
  refine ⟨e, he, ?_⟩
  cases h
  split <;> rfl

/-- **What scheduling a running request does.** -/
theorem commitRunning_eq_ok
    {blocks : List (List BlockId)} (h : p.commitRunning cfg id plan blocks = .ok p') :
    ∃ e, EncoderCache.allocateAll cfg.encoder.isEncoderDecoder (clearSpec (p.s.objs id)) id
        (plan.inputs ++ plan.external) p.s.encoder = .ok e ∧
      p' = { p with
        s := { p.s.update id clearSpec with encoder := e }
        scheduledRunningReqs := p.scheduledRunningReqs ++ [id]
        prefillScheduled := p.prefillScheduled || (p.s.objs id).isPrefillChunk
        reqToNewBlocks := p.reqToNewBlocks.set id blocks
        numScheduledTokens := p.numScheduledTokens.set id plan.numNewTokens.toNat
        tokenBudget := p.tokenBudget - plan.numNewTokens.toNat
        inputBudget := p.inputBudget - (plan.numNewTokens.toNat + cfg.draftSlots)
        scheduledSpecDecodeTokens := p.specAfter id plan.numNewTokens
        scheduledEncoderInputs :=
          if plan.inputs = [] then p.scheduledEncoderInputs
          else p.scheduledEncoderInputs.set id plan.inputs
        encoderComputeBudget :=
          if plan.inputs = [] then p.encoderComputeBudget else plan.computeBudget } := by
  rw [commitRunning, scheduleSpec_eq] at h
  obtain ⟨e, he, rfl⟩ := grantEncoder_eq_ok h
  refine ⟨e, ?_, rfl⟩
  simpa [grant] using he

/-! ## The cursor of the first loop -/

/-- **What rescinding leaves**, in a pass in which the victim may have been scheduled. -/
theorem rescindVictim_eq_ok (h : p.rescindVictim cfg v = .ok p') :
    (cfg.policy = .priority ∧ v ∈ p.scheduledRunningReqs ∧ p.rescind cfg v = .ok p') ∨
      (¬ (cfg.policy = .priority ∧ v ∈ p.scheduledRunningReqs) ∧ p' = p) := by
  rw [rescindVictim] at h
  split at h
  · next hv => exact .inl ⟨hv.1, hv.2, h⟩
  · next hv =>
    cases h
    exact .inr ⟨hv, rfl⟩

theorem rescind_s (h : p.rescind cfg v = .ok p') : p'.s = p.s := by
  obtain ⟨n, -, h⟩ := bind_eq_ok.1 h
  cases h
  rfl

theorem rescindVictim_s (h : p.rescindVictim cfg v = .ok p') : p'.s = p.s := by
  obtain ⟨-, -, h⟩ | ⟨-, rfl⟩ := rescindVictim_eq_ok h
  · exact rescind_s h
  · rfl

section

variable (h : p.preemptVictim cfg v = .ok p')

include h

/-- **What the preemption of a victim does.** -/
theorem preemptVictim_eq_ok : ∃ p₁ s, (p.dropRunning cfg v).rescindVictim cfg v = .ok p₁ ∧
      (p.dropRunning cfg v).s.preemptRequest cfg v (cfg.hasConnector && cfg.requiresKvDelivery)
        = .ok s ∧ p' = { p₁ with s := s, preemptedReqs := p₁.preemptedReqs ++ [v] } := by
  simp only [preemptVictim, bind_eq_ok] at h
  obtain ⟨p₁, hr, s, hs, h⟩ := h
  cases h
  rw [rescindVictim_s hr] at hs
  exact ⟨p₁, s, hr, hs, rfl⟩

theorem preemptVictim_running : p'.s.running =
      if cfg.policy = .priority then p.s.running.erase v else p.s.running.dropLast := by
  obtain ⟨p₁, s, -, hs, rfl⟩ := preemptVictim_eq_ok h
  obtain ⟨-, kv, e, w, -, -, -, rfl⟩ := Scheduler.preemptRequest_eq_ok hs
  rfl

/-- The scheduled requests after a preemption: without the victim, if it was one. -/
theorem preemptVictim_scheduled : (cfg.policy = .priority ∧ v ∈ p.scheduledRunningReqs ∧
      p'.numScheduledTokens = p.numScheduledTokens.pop v ∧
      p'.scheduledRunningReqs = p.scheduledRunningReqs.erase v) ∨
    (¬ (cfg.policy = .priority ∧ v ∈ p.scheduledRunningReqs) ∧
      p'.numScheduledTokens = p.numScheduledTokens ∧
      p'.scheduledRunningReqs = p.scheduledRunningReqs) := by
  obtain ⟨p₁, s, hr, -, rfl⟩ := preemptVictim_eq_ok h
  obtain ⟨hp, hv, hr⟩ | ⟨hv, rfl⟩ := rescindVictim_eq_ok hr
  · obtain ⟨n, -, hr⟩ := bind_eq_ok.1 hr
    cases hr
    exact .inl ⟨hp, hv, rfl, rfl⟩
  · exact .inr ⟨hv, rfl, rfl⟩

end

theorem mem_of_lowestPriority {s : Scheduler H} {l : List ReqId}
    (h : lowestPriority s l = some v) : v ∈ l := by
  induction l generalizing v with
  | nil => cases h
  | cons id ids ih =>
    rw [lowestPriority] at h
    split at h
    · cases h
      exact mem_cons_self
    next best hbest =>
    split at h
    · cases h
      exact mem_cons_of_mem _ (ih hbest)
    · cases h
      exact mem_cons_self

/-- The requests scheduled so far stand before the cursor. -/
structure Cursor (p : Pass H) (idx : ℕ) : Prop where
  nodup : p.s.running.Nodup
  scheduled_nodup : p.scheduledRunningReqs.Nodup
  keys : ∀ id, id ∈ p.numScheduledTokens ↔ id ∈ p.scheduledRunningReqs
  behind : ∀ id ∈ p.scheduledRunningReqs, id ∈ p.s.running.take idx

theorem Cursor.setEncoder (h : Cursor p idx) (e : EncoderCache) :
    Cursor (p.setEncoder e) idx := ⟨h.nodup, h.scheduled_nodup, h.keys, h.behind⟩

/-- A request at the cursor was not scheduled yet. -/
theorem Cursor.fresh (h : Cursor p idx)
    (hid : p.s.running[idx]? = some id) : id ∉ p.numScheduledTokens := by
  intro hk
  obtain ⟨j, hj, hjid⟩ := mem_take_iff_getElem.1 (h.behind id ((h.keys id).1 hk))
  obtain ⟨hidx, hidid⟩ := List.getElem?_eq_some_iff.1 hid
  have := (List.Nodup.getElem_inj_iff h.nodup).1 (hjid.trans hidid.symm)
  omega

/-- The victim under the first-come-first-served policy is the last running request. -/
theorem dropLast_of_victim_fcfs (hp : cfg.policy = .fcfs)
    (h : p.victim cfg = .ok v) : p.s.running = p.s.running.dropLast ++ [v] := by
  rw [victim, hp] at h
  simp only [orRaise_eq_ok] at h
  exact (dropLast_append_getLast? v h).symm

/-- Removing the element at position `j` moves the later ones one place forward. -/
theorem mem_take_eraseIdx {l : List ReqId} {x : ReqId} {i j : ℕ} (hx : x ∈ l.take i)
    (hne : l[j]? ≠ some x) : x ∈ (l.eraseIdx j).take (if j < i then i - 1 else i) := by
  obtain ⟨k, hk, rfl⟩ := mem_take_iff_getElem.1 hx
  have hkj : k ≠ j := by
    rintro rfl
    exact hne (getElem?_eq_getElem (by omega))
  rcases Nat.lt_or_gt_of_ne hkj with hlt | hgt
  · refine mem_iff_getElem?.2 ⟨k, ?_⟩
    rw [getElem?_take, getElem?_eraseIdx, if_pos hlt, if_pos (by split <;> omega)]
    exact getElem?_eq_getElem _
  · refine mem_iff_getElem?.2 ⟨k - 1, ?_⟩
    rw [getElem?_take, getElem?_eraseIdx, if_neg (by omega : ¬ k - 1 < j),
      if_pos (by split <;> omega), show k - 1 + 1 = k by omega]
    exact getElem?_eq_getElem _

/-- **A preemption keeps the cursor on its request.** -/
theorem Cursor.preemptVictim (h : Cursor p idx)
    (hid : p.s.running[idx]? = some id) (hv : p.victim cfg = .ok v) (hne : v ≠ id)
    (hp : p.preemptVictim cfg v = .ok p') : Cursor p' (p.cursorAfter cfg v idx) ∧
      p'.s.running[p.cursorAfter cfg v idx]? = some id := by
  have hrun := preemptVictim_running hp
  have hsched := preemptVictim_scheduled hp
  have hidx := (List.getElem?_eq_some_iff.1 hid).1
  cases hpol : cfg.policy with
  | priority =>
    simp only [hpol, true_and, if_true] at hrun hsched
    have hmem : v ∈ p.s.running := by
      simp only [victim, hpol, orRaise_eq_ok] at hv
      exact mem_of_lowestPriority hv
    have hj := getElem?_idxOf hmem
    have herase : p'.s.running = p.s.running.eraseIdx (p.s.running.idxOf v) := by
      rw [hrun, erase_eq_eraseIdx_of_idxOf rfl]
    have hcur : p.cursorAfter cfg v idx = if p.s.running.idxOf v < idx then idx - 1 else idx := by
      simp [cursorAfter, hpol]
    -- the victim does not count as scheduled any more
    have hleft : ∀ x ∈ p'.scheduledRunningReqs, x ∈ p.scheduledRunningReqs ∧ x ≠ v := by
      intro x hx
      obtain ⟨-, -, hs⟩ | ⟨hnot, -, hs⟩ := hsched
      · rw [hs, h.scheduled_nodup.mem_erase_iff] at hx
        exact ⟨hx.2, hx.1⟩
      · rw [hs] at hx
        exact ⟨hx, fun e => hnot (e ▸ hx)⟩
    refine ⟨⟨?_, ?_, ?_, ?_⟩, ?_⟩
    · rw [hrun]
      exact h.nodup.erase v
    · obtain ⟨-, -, hs⟩ | ⟨-, -, hs⟩ := hsched
      · rw [hs]
        exact h.scheduled_nodup.erase v
      · rw [hs]
        exact h.scheduled_nodup
    · intro x
      obtain ⟨-, hk, hs⟩ | ⟨-, hk, hs⟩ := hsched
      · rw [hk, hs, Dict.mem_pop, h.scheduled_nodup.mem_erase_iff, h.keys]
      · rw [hk, hs, h.keys]
    · intro x hx
      obtain ⟨hx, hxv⟩ := hleft x hx
      rw [herase, hcur]
      refine mem_take_eraseIdx (h.behind x hx) ?_
      rw [hj]
      simpa using Ne.symm hxv
    · rw [herase, hcur, getElem?_eraseIdx]
      have hji : p.s.running.idxOf v ≠ idx := by
        intro e
        rw [e, hid] at hj
        exact hne (Option.some.inj hj).symm
      split
      · rw [if_neg (by omega), show idx - 1 + 1 = idx by omega, hid]
      · rw [if_pos (by omega), hid]
  | fcfs =>
    have hcur : p.cursorAfter cfg v idx = idx := by simp [cursorAfter, hpol]
    simp only [hpol, reduceCtorEq, false_and, not_false_eq_true, true_and, if_false,
      false_or] at hrun hsched
    have hlast := dropLast_of_victim_fcfs hpol hv
    have hlt : idx < p.s.running.dropLast.length := by
      by_contra hge
      rw [hlast, getElem?_append_right (by omega)] at hid
      have hzero : idx - p.s.running.dropLast.length = 0 := by
        rw [length_dropLast] at *
        omega
      rw [hzero] at hid
      exact hne (Option.some.inj hid)
    have htake : p'.s.running.take idx = p.s.running.take idx := by
      rw [hrun, hlast]
      simp [take_append_of_le_length (by omega : idx ≤ p.s.running.dropLast.length)]
    refine ⟨⟨?_, ?_, ?_, ?_⟩, ?_⟩
    · rw [hrun]
      exact h.nodup.sublist (dropLast_sublist _)
    · rw [hsched.2]
      exact h.scheduled_nodup
    · intro x
      rw [hsched.1, hsched.2, h.keys]
    · intro x hx
      rw [hcur, htake]
      exact h.behind x (hsched.2 ▸ hx)
    · rw [hcur, hrun, ← hid]
      conv_rhs => rw [hlast]
      exact (getElem?_append_left hlt).symm

/-- A victim has lost what it was given. -/
theorem Cursor.notMem_of_notMem_running (h : Cursor p idx)
    (hv : v ∉ p.s.running) : v ∉ p.numScheduledTokens := fun hk =>
  hv (mem_of_mem_take (h.behind v ((h.keys v).1 hk)))

theorem preemptVictim_notMem_running (hnodup : p.s.running.Nodup)
    (hv : p.victim cfg = .ok v) (h : p.preemptVictim cfg v = .ok p') : v ∉ p'.s.running := by
  rw [preemptVictim_running h]
  cases hpol : cfg.policy with
  | priority => simpa using hnodup.not_mem_erase
  | fcfs =>
    simp only [reduceCtorEq, if_false]
    rw [dropLast_of_victim_fcfs hpol hv, nodup_append] at hnodup
    exact fun hm => hnodup.2.2 v hm v (mem_singleton_self v) rfl

/-- The request at the cursor has lost nothing when it is preempted itself. -/
theorem preemptVictim_fresh (hfresh : v ∉ p.numScheduledTokens)
    (h : p.preemptVictim cfg v = .ok p') : v ∉ p'.numScheduledTokens := by
  obtain ⟨-, -, hk, -⟩ | ⟨-, hk, -⟩ := preemptVictim_scheduled h
  · simp [hk]
  · rwa [hk]

end

theorem Allocated.of_next {n : ℕ} {p₁ : Pass H} {kv : KVCacheManager H}
    {blocks : Option (List (List BlockId))} (full : p.allocateRunning cfg id n = .ok (none, kv))
    (chosen : (p.setKV kv).victim cfg = .ok v) (other : v ≠ id)
    (preempted : (p.setKV kv).preemptVictim cfg v = .ok p₁) (dropped : v ∉ p₁.numScheduledTokens)
    (h : Allocated cfg id n p₁ blocks p') : Allocated cfg id n p blocks p' := by
  cases h with
  | fits rounds fit => exact .fits (.next full chosen other preempted dropped rounds) fit
  | gaveUp rounds full' chosen' preempted' dropped' =>
    exact .gaveUp (.next full chosen other preempted dropped rounds) full' chosen' preempted'
      dropped'

/-- **What the preemption loop does.** The cursor stays on its request. -/
theorem allocated_of_allocateLoop {n idx' : ℕ}
    {blocks : Option (List (List BlockId))} (h : Cursor p idx) (hid : p.s.running[idx]? = some id)
    (hal : p.allocateLoop cfg id n fuel idx = .ok (blocks, idx', p')) :
    Allocated cfg id n p blocks p' ∧
      (blocks ≠ none → Cursor p' idx' ∧ p'.s.running[idx']? = some id) := by
  induction fuel generalizing idx p with
  | zero => cases hal
  | succ fuel ih =>
    simp only [allocateLoop, bind_eq_ok] at hal
    obtain ⟨⟨bs, kv⟩, halloc, hal⟩ := hal
    have hkv : Cursor (p.setKV kv) idx := ⟨h.nodup, h.scheduled_nodup, h.keys, h.behind⟩
    cases bs with
    | some bs =>
      cases hal
      exact ⟨.fits (.done p) halloc, fun _ => ⟨hkv, hid⟩⟩
    | none =>
      simp only [bind_eq_ok] at hal
      obtain ⟨v, hv, p₁, hp, hal⟩ := hal
      split at hal
      · next hvid =>
        subst hvid
        cases hal
        have hdrop := preemptVictim_fresh (hkv.fresh hid) hp
        exact ⟨.gaveUp (.done p) halloc hv hp hdrop, fun hne => absurd rfl hne⟩
      · next hne =>
        obtain ⟨h₁, hid₁⟩ := hkv.preemptVictim hid hv hne hp
        have hdrop := h₁.notMem_of_notMem_running
          (preemptVictim_notMem_running hkv.nodup hv hp)
        obtain ⟨hall, hcur⟩ := ih h₁ hid₁ hal
        exact ⟨hall.of_next halloc hv hne hp hdrop, hcur⟩

omit [DecidableEq H] in
/-- Scheduling the request at the cursor. -/
theorem Cursor.commitRunning
    {blocks : List (List BlockId)} (h : Cursor p idx) (hid : p.s.running[idx]? = some id)
    (hc : p.commitRunning cfg id plan blocks = .ok p') : Cursor p' (idx + 1) := by
  obtain ⟨e, -, rfl⟩ := commitRunning_eq_ok hc
  have hfresh : id ∉ p.scheduledRunningReqs := fun hm => h.fresh hid ((h.keys id).2 hm)
  refine ⟨h.nodup, ?_, ?_, ?_⟩
  · exact h.scheduled_nodup.append (nodup_singleton id) (by simpa using hfresh)
  · intro x
    simp [h.keys, or_comm]
  · intro x hx
    show x ∈ p.s.running.take (idx + 1)
    rw [take_add_one, hid]
    simp only [mem_append, mem_singleton] at hx
    rcases hx with hx | rfl
    · exact mem_append_left _ (h.behind x hx)
    · simp

/-- **The first loop is a sequence of rounds.** -/
theorem rounds_of_runningLoop
    (hc : Cursor p idx) (h : p.runningLoop cfg env deferPrefills fuel idx = .ok p') :
    ReflTransGen (RunningRound cfg env deferPrefills) p p' := by
  induction fuel generalizing idx p with
  | zero =>
    cases h
    exact .refl
  | succ fuel ih =>
    rw [runningLoop] at h
    split at h
    · cases h
      exact .refl
    next id hid =>
    have hrun := mem_of_getElem? hid
    have hnext : Cursor p (idx + 1) :=
      ⟨hc.nodup, hc.scheduled_nodup, hc.keys, fun x hx =>
        take_subset_take_left _ (Nat.le_succ idx) (hc.behind x hx)⟩
    split at h
    · cases h
      exact .refl
    next hb =>
    split at h
    · exact ih hnext h
    next due =>
    simp only [not_or, not_le] at hb
    obtain ⟨plan, hplan, h⟩ := bind_eq_ok.1 h
    split at h
    · next hzero =>
      exact .head (.idle hrun (hc.fresh hid) hplan hzero) (ih (hnext.setEncoder plan.cache) h)
    next hsome =>
    obtain ⟨⟨blocks, idx', p₁⟩, hal, h⟩ := bind_eq_ok.1 h
    obtain ⟨hall, hcur⟩ := allocated_of_allocateLoop (hc.setEncoder plan.cache) hid hal
    cases blocks with
    | none =>
      cases h
      exact .single (.giveUp hrun (hc.fresh hid) hplan hsome hall)
    | some blocks =>
      obtain ⟨p₂, hcommit, h⟩ := bind_eq_ok.1 h
      obtain ⟨h₁, hid₁⟩ := hcur (by simp)
      exact .head (.schedule hrun (hc.fresh hid) hb.1 hb.2 due hplan hsome hall hcommit)
        (ih (h₁.commitRunning hid₁ hcommit) h)

/-- The passes that the loops of `schedule` reach from a scheduler. -/
inductive Rounds (cfg : SchedulerConfig H) (env : ScheduleEnv) (s : Scheduler H) : Pass H → Prop
  | ran {p p₁ : Pass H}
      (running : ReflTransGen (RunningRound cfg env (s.deferPrefills env.throttlePrefills))
        (start cfg s) p)
      (loras : p.collectLoras cfg = .ok p₁)
      (closed : ¬ (p₁.preemptedReqs = [] ∧ p₁.s.pauseState = .unpaused)) : Rounds cfg env s p₁
  | admitted {p p₁ p₂ : Pass H}
      (running : ReflTransGen (RunningRound cfg env (s.deferPrefills env.throttlePrefills))
        (start cfg s) p)
      (loras : p.collectLoras cfg = .ok p₁) (none_preempted : p₁.preemptedReqs = [])
      (unpaused : p₁.s.pauseState = .unpaused)
      (waiting : ReflTransGen (WaitingRound cfg env (s.deferPrefills env.throttlePrefills)) p₁ p₂) :
      Rounds cfg env s (p₂.requeue cfg (s.deferPrefills env.throttlePrefills))

end Pass

open Pass

/-- **Every pass is reached by rounds.** -/
theorem Scheduler.rounds_of_schedulePass {H : Type} [DecidableEq H] {cfg : SchedulerConfig H}
    {env : ScheduleEnv} {s : Scheduler H} {p : Pass H} (hs : s.running.Nodup)
    (h : s.schedulePass cfg env = .ok p) : Pass.Rounds cfg env s p := by
  simp only [schedulePass, bind_eq_ok] at h
  obtain ⟨p₁, hrun, p₂, hlora, h⟩ := h
  have hcur : Pass.Cursor (start cfg s) 0 :=
    ⟨hs, nodup_nil, fun id => by simp [start], fun id hid => by cases hid⟩
  have hrounds := rounds_of_runningLoop hcur hrun
  rw [admitWaiting] at h
  split at h
  · next hopen =>
    obtain ⟨p₃, hwait, h⟩ := bind_eq_ok.1 h
    cases h
    exact .admitted hrounds hlora hopen.1 hopen.2 (rounds_of_waitingLoop hwait)
  · next hclosed =>
    cases h
    exact .ran hrounds hlora hclosed

end KVarN.Sched
