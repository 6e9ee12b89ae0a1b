import KVarN.Sched.Output
import KVarN.Sched.Queues
import KVarN.Sched.System

/-!
# Every unfinished request has its place

The entry points of the scheduler refine the machine of `QueueView`: each call is a
sequence of its steps. So no call makes a request stand in two places, and every call
that does not lose a session keeps every unfinished request in exactly one.

A session is lost when an output stops it while it is not running: it is queued again
and then removed from the queues with the requests that stopped.

## Main results

* `Scheduler.steps_of_call` — every call is a sequence of steps.
* `Reachable.queue_partition` — the partition of the unfinished requests.
-/

namespace KVarN.Sched

open KVarN.Lib KVarN.Core Request QueueView Multiset

namespace Scheduler

variable {H : Type} {cfg : SchedulerConfig H} {lossy : Prop}

/-! ## Finishing requests -/

/-- The queues before requests were taken out of them. -/
structure Dequeued (s : Scheduler H) (ids : List ReqId) (v : QueueView) : Prop where
  requests : v.requests = s.requests
  status : v.status = s.queues.status
  running : s.queues.running = v.running.filter (· ∉ ids)
  queued : s.queues.queued = v.queued.filter (· ∉ ids)
  counted : s.queues.numStreaming = v.numStreaming -
    (ids.filter fun id => decide (s.queues.status id = .waitingForStreamingReq)).length

variable {s s' : Scheduler H} {v : QueueView} {id : ReqId} {st : RequestStatus}
  {requests ids : List ReqId} {delays : ReqId → Bool} {r : Request H}

theorem Dequeued.eq_of_nil (h : Dequeued s [] v) : v = s.queues := by
  ext1
  · exact h.requests
  · simpa using h.running.symm
  · simpa using h.queued.symm
  · exact h.status
  · simpa using h.counted.symm

theorem filter_notMem_cons (q : Multiset ReqId) (id : ReqId) (ids : List ReqId) :
    q.filter (· ∉ id :: ids) = (q.filter (· ≠ id)).filter (· ∉ ids) := by
  rw [filter_filter]
  refine filter_congr fun i _ => ?_
  simp [and_comm]

/-- The queues after a request was finished. -/
def finishedView (v : QueueView) (id : ReqId) (st : RequestStatus) (requests : List ReqId) :
    QueueView :=
  { v.setStatus id st with
    requests := requests
    running := v.running.filter (· ≠ id)
    queued := v.queued.filter (· ≠ id)
    numStreaming := v.numStreaming - if v.status id = .waitingForStreamingReq then 1 else 0 }

theorem finishedView_numStreaming (h : v.status id ≠ .waitingForStreamingReq) :
    (finishedView v id st requests).numStreaming = v.numStreaming := by
  simp [finishedView, h]

theorem filter_ne_of_notMem {q : Multiset ReqId} (h : id ∉ q) : q.filter (· ≠ id) = q := by
  refine filter_eq_self.2 fun i hi => ?_
  rintro rfl
  exact h hi

/-- Finishing a request and, unless that is delayed, forgetting it. -/
theorem steps_finishedView (known : id ∈ v.requests)
    (unfinished : (v.status id).isFinished = false) (finished : st.isFinished = true)
    (hreq : requests = v.requests ∨ requests = v.requests.filter (· ≠ id)) :
    Steps lossy v (finishedView v id st requests) := by
  have hfin : Step lossy v (finishedView v id st v.requests) := .finish known unfinished finished
  rcases hreq with rfl | rfl
  · exact .single hfin
  · have hforget : Step lossy (finishedView v id st v.requests)
        (finishedView v id st (v.requests.filter (· ≠ id))) := by
      refine .forget ?_
      simpa [finishedView] using finished
    exact .tail (.single hfin) hforget

theorem Freed.requests_eq {kv : KVState H} (h : Freed cfg s id kv requests) :
    requests = s.requests ∨ requests = s.requests.filter (· ≠ id) := by
  cases h with
  | delayed told => exact .inl rfl
  | gone told freed => exact .inr rfl

/-- **Finishing requests that have left the queues**, one by one. -/
theorem steps_of_finishAll (hst : st.isFinished = true) (hids : ids.Nodup)
    (valid : ∀ id ∈ ids, id ∈ s.requests ∧ (s.objs id).isFinished = false)
    (hv : Dequeued s ids v) (h : finishAll cfg st delays ids s = .ok s') :
    Steps lossy v s'.queues := by
  induction ids generalizing s v with
  | nil =>
    cases h
    rw [hv.eq_of_nil]
  | cons id ids ih =>
    obtain ⟨s₁, hone, h⟩ := bind_eq_ok.1 h
    rw [List.nodup_cons] at hids
    obtain ⟨recving, failed, kv, e, requests, hfreed, -, rfl⟩ := finishOne_eq_ok hone
    have hreq := hfreed.requests_eq
    obtain ⟨hknown, hunfin⟩ := valid id List.mem_cons_self
    have hsteps : Steps lossy v (finishedView v id st requests) :=
      steps_finishedView (hv.requests ▸ hknown) (hv.status ▸ hunfin) hst (hv.requests ▸ hreq)
    have hother (i : ReqId) (hi : i ∈ ids) : i ≠ id := fun e => hids.1 (e ▸ hi)
    refine hsteps.trans (ih hids.2 ?_ ?_ h)
    · intro i hi
      obtain ⟨hiknown, hiunfin⟩ := valid i (List.mem_cons_of_mem _ hi)
      refine ⟨?_, ?_⟩
      · rcases hreq with rfl | rfl
        · exact hiknown
        · exact List.mem_filter.2 ⟨hiknown, by simpa using hother i hi⟩
      · show ((s.update id (withStatus st)).objs i).isFinished = false
        rwa [update_objs_of_ne _ _ (hother i hi)]
    · have hstatus : (fun i => ((s.update id (withStatus st)).objs i).status) =
          Function.update v.status id st := by
        rw [hv.status]
        exact status_update _ _ _
      refine ⟨rfl, hstatus.symm, ?_, ?_, ?_⟩
      · exact hv.running.trans (filter_notMem_cons _ _ _)
      · exact hv.queued.trans (filter_notMem_cons _ _ _)
      · have hrest : (ids.filter fun i =>
            decide (Function.update v.status id st i = .waitingForStreamingReq)) =
            ids.filter fun i => decide (v.status i = .waitingForStreamingReq) :=
          List.filter_congr fun i hi => by rw [Function.update_of_ne (hother i hi)]
        have hcount := hv.counted
        rw [← hv.status, List.filter_cons] at hcount
        show s.queues.numStreaming = v.numStreaming - _ - ((ids.filter fun i => decide
          ((fun i => ((s.update id (withStatus st)).objs i).status) i = _)).length : ℕ)
        rw [hstatus, hrest, hcount]
        by_cases hs : v.status id = .waitingForStreamingReq
        · simp only [hs, decide_true, if_true, List.length_cons]
          omega
        · simp [hs]

/-- The queue a request leaves is known from its status. -/
theorem coe_removeFromQueue (p : SchedulingPolicy) (s : Scheduler H) {q : List ReqId}
    {c : ReqId → Prop} [DecidablePred c] (hq : ∀ id ∈ q, c id) :
    ((if (ids.filter fun id => decide (c id)) = [] then q
      else s.removeFromQueue p q (ids.filter fun id => decide (c id)) : List ReqId) :
        Multiset ReqId) = (q : Multiset ReqId).filter (· ∉ ids) := by
  have hsame : q.filter (fun id => decide (id ∉ ids.filter fun id => decide (c id))) =
      q.filter fun id => decide (id ∉ ids) :=
    List.filter_congr fun id hid => by simp [hq id hid]
  split
  · next hnil =>
    rw [hnil] at hsame
    rw [filter_coe, ← hsame]
    simp
  · rw [filter_coe, ← hsame]
    exact coe_eq_coe.2 (removeFromQueue_perm _ _ _ _)

/-- Taking requests out of the queues. -/
theorem dequeued_dequeue (hx : s.queues.Exclusive) (ids : List ReqId) :
    Dequeued (s.dequeue cfg ids) ids s.queues := by
  have hrun (i : ReqId) (hi : i ∈ s.running) : (s.objs i).status = .running :=
    Exclusive.status_of_running hx hi
  have hqueue (i : ReqId) (hi : i ∈ s.waiting ∨ i ∈ s.skippedWaiting) :
      (s.objs i).status ≠ .running :=
    Exclusive.status_of_queued hx (mem_add.2 hi)
  refine ⟨rfl, rfl, ?_, ?_, rfl⟩
  · show ((removeAll s.running _ : List ReqId) : Multiset ReqId) = _
    rw [removeAll_eq_filter (nodup_add.1 hx.once).1]
    show _ = Multiset.filter _ (s.running : Multiset ReqId)
    rw [filter_coe]
    exact congrArg _ (List.filter_congr fun i hi => by simp [hrun i hi])
  · show ((_ : List ReqId) : Multiset ReqId) + ((_ : List ReqId) : Multiset ReqId) =
      Multiset.filter _ (s.waiting + s.skippedWaiting : Multiset ReqId)
    rw [filter_add, ← coe_removeFromQueue cfg.policy s fun i hi => hqueue i (.inl hi),
      ← coe_removeFromQueue cfg.policy s fun i hi => hqueue i (.inr hi)]
    rfl

/-- **`finish_requests` finishes requests one by one.** -/
theorem steps_of_finishRequests {done : List ReqId} (hx : s.queues.Exclusive)
    (h : s.finishRequests cfg ids st delays = .ok (done, s')) : Steps lossy s.queues s'.queues := by
  simp only [finishRequests, bind_eq_ok, assert_eq_ok] at h
  obtain ⟨-, hst, s₁, hall, h⟩ := h
  cases h
  refine steps_of_finishAll hst ((List.nodup_dedup _).filter _) ?_ (dequeued_dequeue hx _) hall
  intro id hid
  have hvalid : id ∈ s.requests ∧ (s.objs id).isFinished = false := by
    simpa using (List.mem_filter.1 hid).2
  exact hvalid

/-! ## The entry points that do not take an output -/

theorem step_of_preemptRequest {drop : Bool}
    {rest : List ReqId} (hrun : (s.running : Multiset ReqId) = id ::ₘ rest)
    (h : preemptRequest cfg { s with running := rest } id drop = .ok s') :
    Step lossy s.queues s'.queues := by
  obtain ⟨-, kv, e, w, -, -, hw, rfl⟩ := preemptRequest_eq_ok h
  have hmem : id ∈ s.queues.running := by
    show id ∈ (s.running : Multiset ReqId)
    simp [hrun]
  have hstep : Step lossy s.queues _ := .preempt hmem
  convert hstep using 1
  ext1
  · rfl
  · show (rest : Multiset ReqId) = (s.running : Multiset ReqId).erase id
    rw [hrun, erase_cons_head]
  · show (w + s.skippedWaiting : Multiset ReqId) = id ::ₘ (s.waiting + s.skippedWaiting)
    rw [coe_eq_coe.2 hw, ← cons_coe, cons_add]
  · exact status_update _ _ _
  · rfl

theorem steps_of_preemptAll (hrun : s.running = ids.reverse) (h : preemptAll cfg ids s = .ok s') :
    Steps lossy s.queues s'.queues := by
  induction ids generalizing s with
  | nil =>
    cases h
    exact .refl
  | cons id ids ih =>
    obtain ⟨s₁, hone, h⟩ := bind_eq_ok.1 h
    rw [List.reverse_cons] at hrun
    have hrest : s.running.dropLast = ids.reverse := by rw [hrun, List.dropLast_concat]
    rw [hrest] at hone
    have hcoe : (s.running : Multiset ReqId) = id ::ₘ (ids.reverse : List ReqId) := by
      rw [hrun, cons_coe]
      exact coe_eq_coe.2 (List.perm_append_singleton _ _)
    have hstep : Step lossy s.queues s₁.queues := step_of_preemptRequest hcoe hone
    have hrun₁ : s₁.running = ids.reverse := by
      obtain ⟨-, kv, e, w, -, -, -, rfl⟩ := preemptRequest_eq_ok hone
      rfl
    exact .head hstep (ih hrun₁ h)

theorem steps_of_resetPrefixCache {resetRunning ok : Bool} {connector : Option Bool}
    (h : s.resetPrefixCache cfg resetRunning connector = .ok (ok, s')) :
    Steps lossy s.queues s'.queues := by
  simp only [resetPrefixCache, bind_eq_ok, preemptForReset] at h
  obtain ⟨s₁, hpre, h⟩ := h
  split at h
  · cases h
  cases h
  split at hpre
  · have hsteps : Steps lossy s.queues s₁.queues :=
      steps_of_preemptAll (List.reverse_reverse _).symm hpre
    exact hsteps
  · cases hpre
    exact .refl

theorem queues_updateDraftTokenIds (drafts : List (ReqId × List Token)) (s : Scheduler H) :
    (s.updateDraftTokenIds drafts).queues = s.queues := by
  rw [updateDraftTokenIds]
  induction drafts generalizing s with
  | nil => rfl
  | cons d ds ih =>
    rw [List.foldl_cons, ih, updateDraft]
    split
    · ext1
      · rfl
      · rfl
      · rfl
      · exact status_update_self rfl
      · rfl
    · rfl

/-- A request that is put in a queue. -/
theorem queues_enqueueWaitingRequest (s : Scheduler H) (id : ReqId) :
    (s.enqueueWaitingRequest cfg id).queues =
      { s.queues with queued := id ::ₘ s.queues.queued } := by
  cases hb : (s.objs id).status.isBlockedWaiting with
  | true =>
    obtain ⟨k, hk, heq⟩ := @enqueueWaitingRequest_of_blocked _ cfg s id hb
    rw [heq]
    ext1
    · rfl
    · rfl
    · show (s.waiting + k : Multiset ReqId) = id ::ₘ (s.waiting + s.skippedWaiting)
      rw [coe_eq_coe.2 hk, ← cons_coe, add_cons]
    · rfl
    · rfl
  | false =>
    obtain ⟨w, hw, heq⟩ := @enqueueWaitingRequest_of_ready _ cfg s id hb
    rw [heq]
    ext1
    · rfl
    · rfl
    · show (w + s.skippedWaiting : Multiset ReqId) = id ::ₘ (s.waiting + s.skippedWaiting)
      rw [coe_eq_coe.2 hw, ← cons_coe, cons_add]
    · rfl
    · rfl

/-- A request that changes and keeps its status does not change the queues. -/
theorem queues_update_of_status {f : Request H → Request H}
    (h : (f (s.objs id)).status = (s.objs id).status) : (s.update id f).queues = s.queues := by
  ext1
  · rfl
  · rfl
  · rfl
  · exact status_update_self h
  · rfl

theorem queues_update (s : Scheduler H) (id : ReqId) (f : Request H → Request H) :
    (s.update id f).queues = s.queues.setStatus id (f (s.objs id)).status := by
  ext1
  · rfl
  · rfl
  · rfl
  · exact status_update _ _ _
  · rfl

/-- A new request is known and queued. -/
theorem queues_addNew (s : Scheduler H) (id : ReqId) (r : Request H) :
    ({ s.setReq id r |>.enqueueWaitingRequest cfg id with
        requests := (s.setReq id r |>.enqueueWaitingRequest cfg id).requests ++ [id] } :
          Scheduler H).queues =
      { s.queues.setStatus id r.status with
        requests := s.requests ++ [id]
        queued := id ::ₘ s.queues.queued } := by
  have hq := @queues_enqueueWaitingRequest _ cfg (s.setReq id r) id
  have hset : (s.setReq id r).queues = s.queues.setStatus id r.status := queues_update _ _ _
  generalize enqueueWaitingRequest cfg (s.setReq id r) id = s₁ at hq ⊢
  show { s₁.queues with requests := s₁.queues.requests ++ [id] } = _
  rw [hq, hset]
  rfl

/-- The status of a new request. -/
theorem Request.create_status {hasher : Request H → List H} {q : RequestParams}
    (h : create hasher q = .ok r) :
    r.status = .waiting ∨ r.status = .waitingForStructuredOutputGrammar := by
  rw [create] at h
  split at h
  · cases h
  cases h
  simp only [updateBlockHashes, ofParams]
  split <;> simp

/-- **`add_request` adds a request, resumes a session or finishes it.** -/
theorem steps_of_addRequest (hx : s.queues.Exclusive)
    (hr : r.status = .waiting ∨ r.status = .waitingForStructuredOutputGrammar)
    (h : s.addRequest cfg delays id r = .ok s') : Steps lossy s.queues s'.queues := by
  rw [addRequest] at h
  split at h
  swap
  · next hnew =>
    cases h
    have hstatus : (if r.resumable then { r with streamingQueue := some [] } else r).status =
        r.status := by split <;> rfl
    rw [queues_addNew, hstatus]
    refine .single (.add hnew ?_ ?_ ?_)
    all_goals rcases hr with h | h <;> simp [h, RequestStatus.isFinished]
  next hknown =>
  split at h
  · obtain ⟨q, -, h⟩ := bind_eq_ok.1 h
    cases h
    rw [queues_update_of_status rfl]
  next hst =>
  have hst : (s.objs id).status = .waitingForStreamingReq := not_not.1 hst
  split at h
  · next u _ =>
    simp only [updateRequestAsSession, bind_eq_ok, hst, if_true] at h
    obtain ⟨prompt, -, h⟩ := h
    cases h
    have hstep : Step lossy s.queues _ := .resume hknown hst
    refine .single ?_
    convert hstep using 1
    ext1
    · rfl
    · rfl
    · rfl
    · exact status_update _ _ _
    · rfl
  · obtain ⟨⟨done, s₁⟩, hfin, h⟩ := bind_eq_ok.1 h
    cases h
    exact steps_of_finishRequests hx hfin

/-! ## Outputs -/

/-- The queues while an output is processed: the requests that stopped are taken out at
the end. -/
def Draining.queues (x : Draining H) : QueueView :=
  { x.s.queues with
    running := x.s.queues.running.filter (· ∉ x.stoppedRunning)
    queued := x.s.queues.queued.filter (· ∉ x.stoppedPreempted) }

/-- A stop that ends a session, rather than making it wait for its next input. -/
def Ends (r : Request H) : Prop := r.resumable = false ∨ ∃ q, r.streamingQueue = some (none :: q)

/-- An output stops a session that is not running only if it ends it, and if the session is
not counted as waiting for input. -/
def KeepsSession (cfg : SchedulerConfig H) (m : ModelRunnerOutput) (id : ReqId) (stale : Bool)
    (r : Request H) : Prop :=
  r.status = .running ∨ ∀ kept stopped r', Takes cfg m id stale r kept stopped r' →
    (stopped = true ∨ Rejects m id kept r') →
      r.status ≠ .waitingForStreamingReq ∧ (Rejects m id kept r' ∨ Ends r)

variable {m : ModelRunnerOutput} {stale : Bool} {r' : Request H} {kept : List Token}

theorem Takes.status (h : Takes cfg m id stale r kept false r') : r'.status = r.status := by
  cases h with
  | sampled some_tokens appended =>
    obtain ⟨-, -, -, hashes, st, rfl, hgo, -⟩ := updateWithOutput_eq_ok appended
    rw [settle]
    split <;> exact hgo rfl
  | nothing => rfl

/-- An output does not change what decides whether a stop ends a session. -/
theorem Takes.ends_iff {stopped : Bool} (h : Takes cfg m id stale r kept stopped r') :
    Ends r' ↔ Ends r := by
  cases h with
  | sampled some_tokens appended =>
    obtain ⟨-, -, -, hashes, st, rfl, -, -⟩ := updateWithOutput_eq_ok appended
    rw [settle]
    split <;> rfl
  | unsampled => rfl
  | nothing => rfl

theorem queues_outputTo (s : Scheduler H) (id : ReqId) (r : Request H) (e : EncoderCache)
    (kv : KVCacheManager H) : (s.outputTo id r e kv).queues = s.queues.setStatus id r.status := by
  ext1
  · rfl
  · rfl
  · rfl
  · exact status_update _ _ _
  · rfl

/-- The queues after a session was queued again. -/
def requeuedView (v : QueueView) (id : ReqId) (st : RequestStatus) : QueueView :=
  { v.setStatus id st with
    queued := id ::ₘ v.queued
    numStreaming := v.numStreaming + if st = .waitingForStreamingReq then 1 else 0 }

/-- **A request that stopped is freed or queued again.** -/
theorem Settles.queues (h : Settles cfg s id s') :
    (Ends (s.objs id) ∧ ∃ requests, s'.queues = { s.queues with requests := requests } ∧
      (requests = s.requests ∨ requests = s.requests.filter (· ≠ id))) ∨
    (¬ Ends (s.objs id) ∧ ∃ st, (st = .waiting ∨ st = .waitingForStreamingReq) ∧
      s'.queues = requeuedView s.queues id st) := by
  cases h with
  | @finished queue kv e requests ends freed encoder =>
    refine .inl ⟨?_, requests, ?_, freed.requests_eq⟩
    · exact ends.imp And.left fun ⟨q, hq, _⟩ => ⟨q, hq⟩
    · have hq : (s.update id (withInputs queue)).queues = s.queues :=
        queues_update_of_status rfl
      show { (s.update id (withInputs queue)).queues with requests := requests } = _
      rw [hq]
  | @spliced u q prompt w resumable queue prompt_eq enqueued =>
    refine .inr ⟨?_, .waiting, .inl rfl, ?_⟩
    · simp [Ends, resumable, queue]
    ext1
    · rfl
    · rfl
    · show (w + s.skippedWaiting : Multiset ReqId) = id ::ₘ (s.waiting + s.skippedWaiting)
      rw [coe_eq_coe.2 enqueued, ← cons_coe, cons_add]
    · exact status_update _ _ _
    · simp [requeuedView, Scheduler.queues]
  | @waits k resumable queue enqueued =>
    refine .inr ⟨?_, .waitingForStreamingReq, .inr rfl, ?_⟩
    · rintro (hres | ⟨q, hq⟩)
      · simp [resumable] at hres
      · simp [hq] at queue
    ext1
    · rfl
    · rfl
    · show (s.waiting + k : Multiset ReqId) = id ::ₘ (s.waiting + s.skippedWaiting)
      rw [coe_eq_coe.2 enqueued, ← cons_coe, add_cons]
    · exact status_update _ _ _
    · simp [requeuedView, Scheduler.queues]

theorem filter_notMem_addTo (q : Multiset ReqId) (id : ReqId) (ids : List ReqId) :
    q.filter (· ∉ addTo ids id) = (q.filter (· ∉ ids)).filter (· ≠ id) := by
  rw [filter_filter]
  refine filter_congr fun i _ => ?_
  simp

/-- The accumulators after a request that had status `st` stopped. -/
def Draining.stop (x : Draining H) (s : Scheduler H) (id : ReqId) (st : RequestStatus)
    (o : EngineCoreOutput) : Draining H where
  s := s
  stoppedRunning := if st = .running then addTo x.stoppedRunning id else x.stoppedRunning
  stoppedPreempted := if st = .running then x.stoppedPreempted else addTo x.stoppedPreempted id
  outputs := x.outputs ++ [o]

section Stop

variable {x : Draining H} {s₂ : Scheduler H} {o : EngineCoreOutput}

theorem queues_stop_running (x : Draining H) (s : Scheduler H) (id : ReqId)
    (o : EngineCoreOutput) : (x.stop s id .running o).queues = { s.queues with
      running := (s.queues.running.filter (· ∉ x.stoppedRunning)).filter (· ≠ id)
      queued := s.queues.queued.filter (· ∉ x.stoppedPreempted) } := by
  simp only [Draining.queues, Draining.stop, if_true, filter_notMem_addTo]

theorem queues_stop_queued (x : Draining H) (s : Scheduler H) (id : ReqId)
    (o : EngineCoreOutput) (hst : st ≠ .running) : (x.stop s id st o).queues = { s.queues with
      running := s.queues.running.filter (· ∉ x.stoppedRunning)
      queued := (s.queues.queued.filter (· ∉ x.stoppedPreempted)).filter (· ≠ id) } := by
  simp only [Draining.queues, Draining.stop, if_neg hst, filter_notMem_addTo]

/-- A running request that stops is finished or paused. -/
theorem steps_of_stop_running (hx : x.queues.Exclusive) (known : id ∈ x.s.requests)
    (fresh : id ∉ x.stoppedPreempted) (hrun : x.queues.status id = .running)
    (hst : st.isFinished = true) (hs₂ : s₂.queues = x.s.queues.setStatus id st)
    (settled : Settles cfg s₂ id s) : Steps lossy x.queues (x.stop s id .running o).queues := by
  have hmem : id ∈ x.queues.running := (hx.running_iff id known).2 hrun
  have hr : s₂.requests = x.s.requests := congrArg QueueView.requests hs₂
  rw [queues_stop_running]
  obtain ⟨-, requests, hs, hreq⟩ | ⟨-, st', hst', hs⟩ := settled.queues
  · have hview : Steps lossy x.queues (finishedView x.queues id st requests) :=
      steps_finishedView known (by rw [hrun]; rfl) hst (by rwa [hr] at hreq)
    convert hview using 1
    rw [hs, hs₂]
    ext1
    · rfl
    · rfl
    · exact (filter_ne_of_notMem (hx.not_queued hmem)).symm
    · rfl
    · have hne : x.queues.status id ≠ .waitingForStreamingReq := by simp [hrun]
      exact (finishedView_numStreaming hne).symm
  · have hstep : Step lossy x.queues _ := .pause hmem hst'
    refine .single ?_
    convert hstep using 1
    rw [hs, hs₂]
    ext1
    · rfl
    · exact ((nodup_add.1 hx.once).1.erase_eq_filter id).symm
    · show (id ::ₘ x.s.queues.queued).filter (· ∉ x.stoppedPreempted) = id ::ₘ
        x.s.queues.queued.filter (· ∉ x.stoppedPreempted)
      exact filter_cons_of_pos (p := fun i => i ∉ x.stoppedPreempted) _ fresh
    · exact Function.update_idem _ _ _
    · rfl

/-- A queued request that stops leaves its queue; only if it ends is it not lost. -/
theorem steps_of_stop_queued (hx : x.queues.Exclusive) (known : id ∈ x.s.requests)
    (unfinished : (x.queues.status id).isFinished = false) (hrun : x.queues.status id ≠ .running)
    (hst : st.isFinished = true) (hs₂ : s₂.queues = x.s.queues.setStatus id st)
    (settled : Settles cfg s₂ id s)
    (keeps : ¬ lossy → x.queues.status id ≠ .waitingForStreamingReq ∧ Ends (s₂.objs id)) :
    Steps lossy x.queues (x.stop s id (x.queues.status id) o).queues := by
  have hmem : id ∉ x.queues.running := fun h => hrun ((hx.running_iff id known).1 h)
  have hr : s₂.requests = x.s.requests := congrArg QueueView.requests hs₂
  have hnot : st ≠ .running := by
    rintro rfl
    cases hst
  rw [queues_stop_queued x s id o hrun]
  obtain ⟨hends, requests, hs, hreq⟩ | ⟨hends, st', hst', hs⟩ := settled.queues
  · rw [hr] at hreq
    by_cases hstream : x.queues.status id = .waitingForStreamingReq
    · -- the request is finished, but it stays counted
      have hlossy : lossy := not_not.1 fun h => (keeps h).1 hstream
      have hlose : Step lossy x.queues _ :=
        @Step.lose _ x.queues id st x.queues.numStreaming hlossy known hmem hnot
      rw [hs, hs₂]
      rcases hreq with rfl | rfl
      · exact .single hlose
      · refine .tail (.single hlose) (.forget ?_)
        simpa using hst
    · have hview : Steps lossy x.queues (finishedView x.queues id st requests) :=
        steps_finishedView known unfinished hst hreq
      convert hview using 1
      rw [hs, hs₂]
      ext1
      · rfl
      · exact (filter_ne_of_notMem hmem).symm
      · rfl
      · rfl
      · exact (finishedView_numStreaming hstream).symm
  · -- the request is queued again and then removed
    have hlossy : lossy := not_not.1 fun h => hends (keeps h).2
    have hne : st' ≠ .running := by rcases hst' with rfl | rfl <;> simp
    have hlose : Step lossy x.queues _ := @Step.lose _ x.queues id st'
      (x.queues.numStreaming + if st' = .waitingForStreamingReq then 1 else 0)
      hlossy known hmem hne
    refine .single ?_
    convert hlose using 1
    rw [hs, hs₂]
    ext1
    · rfl
    · rfl
    · show ((id ::ₘ x.s.queues.queued).filter (· ∉ x.stoppedPreempted)).filter (· ≠ id) =
        (x.s.queues.queued.filter (· ∉ x.stoppedPreempted)).filter (· ≠ id)
      rw [filter_comm, filter_cons_of_neg _ (by simp), filter_comm]
    · exact Function.update_idem _ _ _
    · rfl

end Stop

theorem queues_drained (x : Draining H) (id : ReqId) (n : ℕ) :
    (drained x id n).queues = x.queues := by
  have hq : (x.s.update id (drain n)).queues = x.s.queues := queues_update_of_status rfl
  simp only [Draining.queues, drained, hq]

variable [DecidableEq H] {out : SchedulerOutput} {failed : List ReqId} {x x' : Draining H}

variable {es : List (ReqId × ℕ)} {o : Option KVConnectorOutput}

/-- **An output that is delivered** keeps, finishes or pauses a request, or loses it. -/
theorem steps_of_delivered (hx : x.queues.Exclusive) (known : id ∈ x.s.requests)
    (fresh : id ∉ x.stoppedRunning ∧ id ∉ x.stoppedPreempted)
    (hr : r.status = (x.s.objs id).status) (unfinished : r.isFinished = false)
    (keeps : ¬ lossy → KeepsSession cfg m id stale r)
    (h : Delivered cfg m x id stale r x') : Steps lossy x.queues x'.queues := by
  cases h with
  | @goesOn e kv kept r' freed taken cached accepted =>
    have hst : (if kept ≠ [] ∨ m.poolerOutput id = true then reported r' else r').status =
        x.s.queues.status id := by
      have htaken : r'.status = (x.s.objs id).status := taken.status.trans hr
      split <;> exact htaken
    have hq : (x.s.outputTo id (if kept ≠ [] ∨ m.poolerOutput id = true then reported r' else r')
        e kv).queues = x.s.queues := by
      rw [queues_outputTo, hst, setStatus_self]
    simp only [Draining.queues, hq]
    exact .refl
  | @stops e kv kept stopped r' r'' s freed taken cached stop settled =>
    have hfin : r''.isFinished = true := by
      obtain ⟨-, rfl⟩ | ⟨rfl, -, rfl⟩ := stop
      · rfl
      · exact taken.isFinished
    have hs₂ := queues_outputTo x.s id (reported r'') e kv
    by_cases hrun : r.status = .running
    · have hstop : Steps lossy x.queues (x.stop s id .running ⟨id, kept, some r''.status⟩).queues :=
        steps_of_stop_running hx known fresh.2 (hr.symm.trans hrun) hfin hs₂ settled
      rw [← hrun] at hstop
      exact hstop
    · have hends : Rejects m id kept r' ∨ Ends r →
          Ends ((x.s.outputTo id (reported r'') e kv).objs id) := by
        rw [outputTo_objs]
        obtain ⟨-, rfl⟩ | ⟨-, hacc, rfl⟩ := stop
        · exact fun _ => .inl rfl
        · exact fun h => taken.ends_iff.2 (h.resolve_left hacc)
      have hstopped : stopped = true ∨ Rejects m id kept r' :=
        stop.elim (fun h => .inr h.1) fun h => .inl h.1
      have hstop : Steps lossy x.queues
          (x.stop s id (x.queues.status id) ⟨id, kept, some r''.status⟩).queues := by
        refine steps_of_stop_queued hx known ?_ ?_ hfin hs₂ settled fun hl => ?_
        · show (x.s.objs id).status.isFinished = false
          rw [← hr]
          exact unfinished
        · show (x.s.objs id).status ≠ .running
          rw [← hr]
          exact hrun
        · have hkeep := (keeps hl).resolve_left hrun kept stopped r' taken hstopped
          rw [hr] at hkeep
          exact ⟨hkeep.1, hends hkeep.2⟩
      have hst : x.queues.status id = r.status := hr.symm
      rw [hst] at hstop
      exact hstop

/-- What an output must meet for a scheduled request, in the state in which outputs are
delivered. -/
def EntryKeeps (cfg : SchedulerConfig H) (out : SchedulerOutput) (m : ModelRunnerOutput)
    (failed : List ReqId) (s : Scheduler H) (id : ReqId) (n : ℕ) : Prop :=
  id ∈ s.requests → ¬ Skips failed id (s.objs id) → KeepsSession cfg m id (isStale (s.objs id))
      (rejectDrafts cfg (out.numSpec id) (m.sampledTokenIds id).length (isStale (s.objs id))
        (drain n (s.objs id)))

theorem steps_of_processed {n : ℕ} (hx : x.queues.Exclusive)
    (fresh : id ∉ x.stoppedRunning ∧ id ∉ x.stoppedPreempted)
    (keeps : ¬ lossy → EntryKeeps cfg out m failed x.s id n)
    (h : Processed cfg out m failed x id n x') : Steps lossy x.queues x'.queues := by
  cases h with
  | unknown gone => exact .refl
  | skipped => rw [queues_drained]
  | delivered known nonneg takes result =>
    rw [← queues_drained x id n] at hx ⊢
    refine steps_of_delivered hx known fresh ?_ ?_ (fun hl => keeps hl known takes) result
    · rw [rejectDrafts_status]
      simp [drained, drain]
    · have hunfin : (x.s.objs id).isFinished = false := by
        simpa using fun hf => takes (.inr (.inl hf))
      rw [isFinished, rejectDrafts_status]
      exact hunfin

/-- **The loop over the requests of an output.** -/
theorem steps_of_processAll (hx : x.queues.Exclusive) (hes : (es.map Prod.fst).Nodup)
    (fresh : ∀ e ∈ es, e.1 ∉ x.stoppedRunning ∧ e.1 ∉ x.stoppedPreempted)
    (same : ∀ e ∈ es, x.s.objs e.1 = s.objs e.1) (sub : ∀ i ∈ x.s.requests, i ∈ s.requests)
    (keeps : ¬ lossy → ∀ e ∈ es, EntryKeeps cfg out m failed s e.1 e.2)
    (h : processAll cfg out m failed es x = .ok x') : Steps lossy x.queues x'.queues := by
  induction es generalizing x with
  | nil =>
    cases h
    exact .refl
  | cons e es ih =>
    obtain ⟨id, n⟩ := e
    obtain ⟨x₁, hone, h⟩ := bind_eq_ok.1 h
    obtain ⟨-, hproc⟩ := processOne_eq_ok hone
    rw [List.map_cons, List.nodup_cons] at hes
    have hframe := hproc.frame
    have hother (e : ReqId × ℕ) (he : e ∈ es) : e.1 ≠ id := fun heq =>
      hes.1 (List.mem_map.2 ⟨e, he, heq⟩)
    have hsteps : Steps lossy x.queues x₁.queues := by
      refine steps_of_processed hx (fresh _ List.mem_cons_self) (fun hl hknown => ?_) hproc
      have hkeep := keeps hl _ List.mem_cons_self (sub id hknown)
      rwa [← same _ List.mem_cons_self] at hkeep
    refine hsteps.trans (ih (hx.steps hsteps) hes.2 ?_ ?_ ?_ ?_ h)
    · exact fun e he => hframe.stopped _ (hother e he) (fresh e (List.mem_cons_of_mem _ he))
    · exact fun e he =>
        (hframe.objs _ (hother e he)).trans (same e (List.mem_cons_of_mem _ he))
    · exact fun i hi => sub i (hframe.requests i hi)
    · exact fun hl e he => keeps hl e (List.mem_cons_of_mem _ he)

theorem processAll_running
    (h : processAll cfg out m failed es x = .ok x') : x'.s.running = x.s.running := by
  induction es generalizing x with
  | nil =>
    cases h
    rfl
  | cons e es ih =>
    obtain ⟨x₁, hone, h⟩ := bind_eq_ok.1 h
    exact (ih h).trans (processOne_eq_ok hone).2.frame.running

section

omit [DecidableEq H]

/-- At the end the requests that stopped leave their queues. -/
theorem queues_removeStopped (hrun : x.s.running.Nodup) :
    (removeStopped cfg x).queues = x.queues := by
  have hqueue (q : List ReqId) : ((if x.stoppedPreempted = [] then q
      else x.s.removeFromQueue cfg.policy q x.stoppedPreempted : List ReqId) : Multiset ReqId) =
      (q : Multiset ReqId).filter (· ∉ x.stoppedPreempted) := by
    split
    · next hnil => simp [hnil]
    · rw [filter_coe]
      exact coe_eq_coe.2 (removeFromQueue_perm _ _ _ _)
  ext1
  · rfl
  · show ((removeAll x.s.running x.stoppedRunning : List ReqId) : Multiset ReqId) = _
    rw [removeAll_eq_filter hrun]
    rfl
  · show ((_ : List ReqId) : Multiset ReqId) + ((_ : List ReqId) : Multiset ReqId) =
      Multiset.filter _ (x.s.waiting + x.s.skippedWaiting : Multiset ReqId)
    rw [filter_add, ← hqueue, ← hqueue]
    rfl
  · rfl
  · rfl

theorem steps_of_freeBlocks (h : s.freeBlocks id = .ok s') : Steps lossy s.queues s'.queues := by
  simp only [freeBlocks, freeRequestBlocks, bind_eq_ok, assert_eq_ok] at h
  obtain ⟨-, hfin, s₁, ⟨kv, -, hs₁⟩, h⟩ := h
  cases hs₁
  cases h
  have hforget : Step lossy s.queues _ := .forget hfin
  exact .single hforget

/-- Steps of an operation are steps of its iteration. -/
theorem steps_of_forEach {f : Scheduler H → ReqId → Except Fault (Scheduler H)}
    (hf : ∀ {s s' id}, f s id = .ok s' → Steps lossy s.queues s'.queues)
    (h : forEach f ids s = .ok s') : Steps lossy s.queues s'.queues := by
  induction ids generalizing s with
  | nil =>
    cases h
    exact .refl
  | cons id ids ih =>
    obtain ⟨s₁, hone, h⟩ := bind_eq_ok.1 h
    exact (hf hone).trans (ih h)

theorem steps_of_updateFromKvXferFinished
    (h : s.updateFromKvXferFinished o = .ok s') : Steps lossy s.queues s'.queues := by
  unfold updateFromKvXferFinished at h
  split at h
  · cases h
    exact .refl
  obtain ⟨s₁, hrecv, hsend⟩ := bind_eq_ok.1 h
  refine (steps_of_forEach ?_ hrecv).trans (steps_of_forEach ?_ hsend)
  · intro s s' id h
    obtain ⟨-, -, h⟩ := bind_eq_ok.1 h
    split at h
    · cases h
      exact .refl
    · exact steps_of_freeBlocks h
  · intro s s' id h
    obtain ⟨-, -, h⟩ := bind_eq_ok.1 h
    exact steps_of_freeBlocks h

theorem steps_of_finishFailed {errors : List EngineCoreOutput} (hx : s.queues.Exclusive)
    (h : s.finishFailed cfg failed delays = .ok (errors, s')) : Steps lossy s.queues s'.queues := by
  simp only [finishFailed] at h
  generalize (s.grammarCompileErrorReqs ++ if cfg.recomputeKvLoadFailures = true then []
    else failed) = ids at h
  split at h
  · cases h
    exact .refl
  · obtain ⟨⟨done, s₁⟩, hfin, h⟩ := bind_eq_ok.1 h
    cases h
    have hsteps : Steps lossy s.queues s₁.queues :=
      @steps_of_finishRequests _ cfg lossy
        { s with grammarCompileErrorReqs := [] } s₁ _ _ _ _ hx hfin
    exact hsteps

end

/-- What the outputs of a step must meet so that no session is lost. -/
def OutputKeeps (cfg : SchedulerConfig H) (out : SchedulerOutput) (m : ModelRunnerOutput)
    (s : Scheduler H) : Prop :=
  ∀ failed s₁, handleKvOutput cfg out.numScheduledTokens m.kvConnectorOutput s =
    .ok (failed, s₁) → ∀ e ∈ out.numScheduledTokens.entries, EntryKeeps cfg out m failed s₁ e.1 e.2

theorem queues_of_handleKvOutput {scheduled : Dict ReqId ℕ}
    (h : handleKvOutput cfg scheduled o s = .ok (failed, s')) : s'.queues = s.queues := by
  obtain ⟨objs, kv, failedIds, hobjs, rfl⟩ := handleKvOutput_eq_ok h
  ext1
  · rfl
  · rfl
  · rfl
  · funext id
    obtain ⟨c, hc⟩ := hobjs id
    show (objs id).status = (s.objs id).status
    rw [hc]
  · rfl

omit [DecidableEq H] in
theorem queues_noteProcessed (s : Scheduler H) : (s.noteProcessed out).queues = s.queues := by
  rw [noteProcessed]
  split <;> rfl

/-- **`update_from_output`.** -/
theorem steps_of_updateFromOutput {outputs : List EngineCoreOutput}
    (hx : s.queues.Exclusive) (keeps : ¬ lossy → OutputKeeps cfg out m (s.noteProcessed out))
    (h : s.updateFromOutput cfg out m = .ok (outputs, s')) : Steps lossy s.queues s'.queues := by
  simp only [updateFromOutput, bind_eq_ok] at h
  obtain ⟨⟨failed, s₁⟩, hkv, x, hall, ⟨errors, s₂⟩, hfail, s₃, hxfer, h⟩ := h
  cases h
  have hq₁ : s₁.queues = s.queues :=
    (queues_of_handleKvOutput hkv).trans (queues_noteProcessed s)
  have hq₀ : (⟨s₁, [], [], []⟩ : Draining H).queues = s.queues := by
    simp [Draining.queues, hq₁]
  have hloop : Steps lossy s.queues x.queues := by
    rw [← hq₀] at hx ⊢
    exact steps_of_processAll hx out.numScheduledTokens.nodup (fun e _ => by simp)
      (fun e _ => rfl) (fun i hi => hi) (fun hl => keeps hl failed s₁ hkv) hall
  have hrun : x.s.running.Nodup := by
    have hsame : x.s.running = s₁.running := processAll_running hall
    have hnodup : s₁.queues.running.Nodup := by
      rw [hq₁]
      exact (nodup_add.1 hx.once).1
    rw [hsame]
    exact hnodup
  have hstopped : (removeStopped cfg x).queues = x.queues := queues_removeStopped hrun
  have hfailed : Steps lossy x.queues s₂.queues :=
    hstopped ▸ steps_of_finishFailed (hstopped.symm ▸ hx.steps hloop) hfail
  exact hloop.trans (hfailed.trans (steps_of_updateFromKvXferFinished hxfer))

/-- What a call must meet so that no session is lost. -/
def Keeps (cfg : SchedulerConfig H) (s : Scheduler H) : Call → Prop
  | .updateFromOutput out m => OutputKeeps cfg out m (s.noteProcessed out)
  | _ => True

/-- **Every call is a sequence of steps**, none of which loses a request if the call keeps
the sessions. -/
theorem steps_of_call {c : Call} (hx : s.queues.Exclusive)
    (h : s.call cfg c = .ok s') : Steps (¬ Keeps cfg s c) s.queues s'.queues := by
  cases c with
  | addRequest id q d =>
    obtain ⟨r, hr, h⟩ := bind_eq_ok.1 h
    exact steps_of_addRequest hx (Request.create_status hr) h
  | finishRequests ids st d =>
    obtain ⟨⟨done, s₁⟩, hfin, h⟩ := bind_eq_ok.1 h
    cases h
    exact steps_of_finishRequests hx hfin
  | finishAllRequests st d =>
    obtain ⟨⟨done, s₁⟩, hfin, h⟩ := bind_eq_ok.1 h
    cases h
    exact steps_of_finishRequests hx hfin
  | schedule env =>
    obtain ⟨⟨out, s₁⟩, hsched, h⟩ := bind_eq_ok.1 h
    cases h
    exact steps_of_schedule (nodup_add.1 hx.once).1 hsched
  | updateFromOutput out m =>
    obtain ⟨⟨outputs, s₁⟩, hup, h⟩ := bind_eq_ok.1 h
    cases h
    exact steps_of_updateFromOutput hx not_not.1 hup
  | updateDraftTokenIds drafts =>
    cases h
    rw [queues_updateDraftTokenIds]
  | resetPrefixCache b c =>
    obtain ⟨⟨ok, s₁⟩, hreset, h⟩ := bind_eq_ok.1 h
    cases h
    exact steps_of_resetPrefixCache hreset
  | setPauseState p =>
    cases h
    exact .refl

end Scheduler

open Scheduler

/-! ## Runs -/

variable {H : Type} [DecidableEq H] {cfg : SchedulerConfig H}

/-- **No request ever stands in two places.** -/
theorem Reachable.exclusive {P : Scheduler H → Call → Prop} {s : Scheduler H}
    (h : Reachable cfg P s) : s.queues.Exclusive := by
  induction h with
  | init kv encoder numSpecTokens objs => exact exclusive_of_nil rfl rfl rfl
  | call before meets called ih => exact ih.steps (steps_of_call ih called)

theorem Reachable.partitioned {s : Scheduler H} (h : Reachable cfg (Scheduler.Keeps cfg) s) :
    s.queues.Partitioned := by
  induction h with
  | init kv encoder numSpecTokens objs =>
    refine ⟨exclusive_of_nil rfl rfl rfl, ?_, rfl⟩
    intro id hid
    cases hid
  | call before meets called ih =>
    have hsteps := steps_of_call ih.toExclusive called
    simp only [meets, not_true_eq_false] at hsteps
    exact ih.steps hsteps

/-- **Every unfinished request stands in exactly one queue**, among the running ones exactly
when it is running, and the sessions that wait for input are counted, in every run whose
outputs do not stop a session that is not running. -/
theorem Reachable.queue_partition {s : Scheduler H} (h : Reachable cfg (Scheduler.Keeps cfg) s) :
    (∀ id ∈ s.requests, (s.objs id).isFinished = false →
      (s.running ++ s.waiting ++ s.skippedWaiting).count id = 1 ∧
      (id ∈ s.running ↔ (s.objs id).status = .running)) ∧ s.numWaitingForStreamingInput =
      ((s.waiting ++ s.skippedWaiting).filter fun id =>
        decide ((s.objs id).status = .waitingForStreamingReq)).length := by
  have hp := h.partitioned
  have hcoe : s.queues.running + s.queues.queued =
      ((s.running ++ s.waiting ++ s.skippedWaiting : List ReqId) : Multiset ReqId) := by
    rw [← coe_add, ← coe_add, add_assoc]
    rfl
  refine ⟨fun id hid hfin => ⟨?_, hp.running_iff id hid⟩, ?_⟩
  · have hmem := hp.placed id hid hfin
    have hcount := count_eq_one_of_mem hp.once hmem
    rwa [hcoe, coe_count] at hcount
  · have hcounted := hp.counted
    have hq : s.queues.queued = ((s.waiting ++ s.skippedWaiting : List ReqId) : Multiset ReqId) :=
      coe_add _ _
    rw [streaming, hq, filter_coe, coe_card] at hcounted
    exact hcounted

/-! ### A session that is kept, and one that is lost -/

/-- The result of a step in which every scheduled request is running. -/
def System.OutputsRunning (y : System H) : Event → Prop
  | .output m => m.kvConnectorOutput.isNone = true ∧
      ∀ i ∈ y.inFlight.head?, ∀ id ∈ i.out.numScheduledTokens.keys, (y.s.objs id).status = .running
  | _ => True

instance (y : System H) (e : Event) : Decidable (y.OutputsRunning e) :=
  match e with
  | .output _ => inferInstanceAs (Decidable (_ ∧ _))
  | .addRequest .. | .finishRequests .. | .finishAllRequests .. | .schedule _
  | .updateDraftTokenIds _ | .resetPrefixCache .. | .setPauseState _ => isTrue trivial

/-- Results for running requests lose no session. -/
theorem System.keeps_of_outputsRunning {y : System H} (h : System.Reaches cfg OutputsRunning y) :
    Reachable cfg (Scheduler.Keeps cfg) y.s := by
  induction h with
  | init kv encoder numSpecTokens objs => exact .init kv encoder numSpecTokens objs
  | @step y y' e before meets stepped ih =>
    obtain ⟨c, hcall, hout⟩ := System.call_of_step stepped
    refine .call ih ?_ hcall
    cases c with
    | updateFromOutput out m =>
      obtain ⟨rfl, i, hi, rfl⟩ := hout out m rfl
      intro failed s₁ hkv e he _ _
      have hnone : m.kvConnectorOutput = none := Option.isNone_iff_eq_none.1 meets.1
      rw [hnone] at hkv
      cases hkv
      have hobjs : (y.s.noteProcessed i.out).objs = y.s.objs := by
        rw [noteProcessed]
        split <;> rfl
      have hrun := meets.2 i hi e.1 (List.mem_map_of_mem he)
      refine .inl ?_
      rw [rejectDrafts_status, hobjs]
      exact hrun
    | _ => trivial

namespace Small

/-- A session whose first step stops it; it then gets its next input. -/
def keptSession : List Event :=
  [.addRequest 0 { params with resumable := true } fun _ => false, .schedule env,
    .output (sampled [9]), .addRequest 0 { params with resumable := true } fun _ => false]

/-- A session that is stopped by two steps that were in flight together. -/
def lostSession : List Event :=
  [.addRequest 0 { params with resumable := true } fun _ => false, .schedule env, .schedule env,
    .output (sampled [9]), .output (sampled [9])]

end Small

open KVarN.Sched.Small

theorem queue_partition_keptSession :
    Reachable config (Scheduler.Keeps config) (after keptSession).s ∧
      (after keptSession).s.requests = [0] ∧
      ((after keptSession).s.running ++ (after keptSession).s.waiting ++
        (after keptSession).s.skippedWaiting).count 0 = 1 := by
  have hreach : Reachable config (Scheduler.Keeps config)
      (after keptSession).s :=
    System.keeps_of_outputsRunning (reaches_after (by decide +kernel) (by decide +kernel))
  refine ⟨hreach, by decide +kernel, ?_⟩
  exact ((Reachable.queue_partition hreach).1 0 (by decide +kernel) (by decide +kernel)).1

theorem session_lost : System.run config lostSession start = .ok (after lostSession) ∧
      0 ∈ (after lostSession).s.requests ∧
      ((after lostSession).s.objs 0).status = .waitingForStreamingReq ∧
      (after lostSession).s.running = [] ∧ (after lostSession).s.waiting = [] ∧
      (after lostSession).s.skippedWaiting = [] ∧
      (after lostSession).s.numWaitingForStreamingInput = 2 :=
  ⟨eq_ok_getD _ (by decide +kernel), by decide +kernel⟩

end KVarN.Sched
