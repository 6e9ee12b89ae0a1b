import KVarN.Sched.Issue
import KVarN.Sched.Update

/-!
# The queues of the scheduler

Every unfinished request stands in exactly one place: among the running requests, or
in one of the two waiting queues. `QueueView` is the abstract machine of the queues:
who is known, who runs, who waits, with which status, and how many sessions are
counted as waiting for input. Its steps are what the scheduler can do to a request;
`lose` is the one step that takes a request out of the queues without finishing it.

The entry points of the scheduler refine this machine, and the step `lose` is taken
only for an output that stops a session which is not running.

## Main definitions

* `QueueView`, `QueueView.Step` — the abstract machine.
* `QueueView.Exclusive`, `QueueView.Partitioned` — its invariants.
* `Scheduler.queues`, `Pass.queues` — the view of a scheduler and of a pass.
-/

namespace KVarN.Sched

open KVarN.Core Relation Scheduler Multiset

/-- The queues as multisets, with the statuses of the requests. -/
@[ext]
structure QueueView where
  requests : List ReqId
  running : Multiset ReqId
  queued : Multiset ReqId
  status : ReqId → RequestStatus
  numStreaming : ℤ

namespace QueueView

def setStatus (v : QueueView) (id : ReqId) (st : RequestStatus) : QueueView :=
  { v with status := Function.update v.status id st }

/-- The queued sessions that wait for input. -/
def streaming (v : QueueView) : Multiset ReqId :=
  v.queued.filter fun id => v.status id = .waitingForStreamingReq

/-- What the entry points do to the queues. The step `lose` needs `lossy`. -/
inductive Step (lossy : Prop) (v : QueueView) : QueueView → Prop
  | preempt {id : ReqId} (running : id ∈ v.running) :
      Step lossy v { v.setStatus id .preempted with
        running := v.running.erase id
        queued := id ::ₘ v.queued }
  | restatus {id : ReqId} {st : RequestStatus} (queued : id ∈ v.queued)
      (before : v.status id ≠ .waitingForStreamingReq) (not_running : st ≠ .running)
      (not_streaming : st ≠ .waitingForStreamingReq) (unfinished : st.isFinished = false) :
      Step lossy v (v.setStatus id st)
  | start {id : ReqId} (queued : id ∈ v.queued)
      (before : v.status id ≠ .waitingForStreamingReq) :
      Step lossy v { v.setStatus id .running with
        running := id ::ₘ v.running
        queued := v.queued.erase id }
  | add {id : ReqId} {st : RequestStatus} (new : id ∉ v.requests) (not_running : st ≠ .running)
      (not_streaming : st ≠ .waitingForStreamingReq) (unfinished : st.isFinished = false) :
      Step lossy v { v.setStatus id st with
        requests := v.requests ++ [id]
        queued := id ::ₘ v.queued }
  | resume {id : ReqId} (known : id ∈ v.requests)
      (before : v.status id = .waitingForStreamingReq) :
      Step lossy v { v.setStatus id .waiting with numStreaming := v.numStreaming - 1 }
  | pause {id : ReqId} {st : RequestStatus} (running : id ∈ v.running)
      (after : st = .waiting ∨ st = .waitingForStreamingReq) :
      Step lossy v { v.setStatus id st with
        running := v.running.erase id
        queued := id ::ₘ v.queued
        numStreaming := v.numStreaming + if st = .waitingForStreamingReq then 1 else 0 }
  | finish {id : ReqId} {st : RequestStatus} (known : id ∈ v.requests)
      (unfinished : (v.status id).isFinished = false) (finished : st.isFinished = true) :
      Step lossy v { v.setStatus id st with
        running := v.running.filter (· ≠ id)
        queued := v.queued.filter (· ≠ id)
        numStreaming := v.numStreaming - if v.status id = .waitingForStreamingReq then 1 else 0 }
  | forget {id : ReqId} (finished : (v.status id).isFinished = true) :
      Step lossy v { v with requests := v.requests.filter (· ≠ id) }
  | lose {id : ReqId} {st : RequestStatus} {n : ℤ} (loses : lossy) (known : id ∈ v.requests)
      (not_running : id ∉ v.running) (after : st ≠ .running) :
      Step lossy v { v.setStatus id st with queued := v.queued.filter (· ≠ id), numStreaming := n }

/-- Nobody stands in two places, and those who run have the status for it. -/
structure Exclusive (v : QueueView) : Prop where
  once : (v.running + v.queued).Nodup
  known : ∀ id ∈ v.running + v.queued, id ∈ v.requests ∧ (v.status id).isFinished = false
  running_iff : ∀ id ∈ v.requests, id ∈ v.running ↔ v.status id = .running

/-- Every unfinished request stands somewhere, and the sessions that wait for input are
counted. -/
structure Partitioned (v : QueueView) : Prop extends Exclusive v where
  placed : ∀ id ∈ v.requests, (v.status id).isFinished = false → id ∈ v.running + v.queued
  counted : v.numStreaming = v.streaming.card

variable {v v' : QueueView} {id : ReqId}

theorem exclusive_of_nil (hreq : v.requests = []) (hrun : v.running = 0)
    (hqueue : v.queued = 0) : v.Exclusive := by
  refine ⟨?_, ?_, ?_⟩ <;> simp [hreq, hrun, hqueue]

theorem Exclusive.not_queued (h : v.Exclusive) (hid : id ∈ v.running) : id ∉ v.queued :=
  (disjoint_left.1 (nodup_add.1 h.once).2.2) hid

theorem Exclusive.not_running (h : v.Exclusive)
    (hid : id ∈ v.queued) : id ∉ v.running := fun hr => h.not_queued hr hid

theorem Exclusive.status_of_running (hx : v.Exclusive)
    (hid : id ∈ v.running) : v.status id = .running :=
  (hx.running_iff id (hx.known id (mem_add.2 (.inl hid))).1).1 hid

theorem Exclusive.status_of_queued (hx : v.Exclusive)
    (hid : id ∈ v.queued) : v.status id ≠ .running := fun hst =>
  hx.not_running hid
    ((hx.running_iff id (hx.known id (mem_add.2 (.inr hid))).1).2 hst)

/-- Moving a request from one place to another. -/
theorem erase_add_cons {r q : Multiset ReqId} (h : id ∈ r) : r.erase id + id ::ₘ q = r + q := by
  rw [add_cons, ← cons_add, cons_erase h]

theorem cons_add_erase {r q : Multiset ReqId} (h : id ∈ q) : id ::ₘ r + q.erase id = r + q := by
  rw [cons_add, ← add_cons, cons_erase h]

section

variable (v) (id) (i : ReqId) (st : RequestStatus)

@[simp] theorem setStatus_requests : (v.setStatus id st).requests = v.requests := rfl
@[simp] theorem setStatus_running : (v.setStatus id st).running = v.running := rfl
@[simp] theorem setStatus_queued : (v.setStatus id st).queued = v.queued := rfl
@[simp] theorem setStatus_status :
    (v.setStatus id st).status i = if i = id then st else v.status i := by
  simp [setStatus, Function.update_apply]

end

/-- A request that stays unfinished gets a status and moves. -/
theorem Exclusive.move {r q : Multiset ReqId} {st : RequestStatus} {n : ℤ} (h : v.Exclusive)
    (hplaces : r + q = v.running + v.queued)
    (hrun : ∀ i ∈ v.requests, i ∈ r ↔ if i = id then st = .running else i ∈ v.running)
    (unfinished : st.isFinished = false) :
    Exclusive { v.setStatus id st with running := r, queued := q, numStreaming := n } := by
  refine ⟨by simpa only [hplaces] using h.once, fun i hi => ?_, fun i hi => ?_⟩
  · rw [hplaces] at hi
    refine ⟨(h.known i hi).1, ?_⟩
    show ((v.setStatus id st).status i).isFinished = false
    rw [setStatus_status]
    split
    · exact unfinished
    · exact (h.known i hi).2
  · show i ∈ r ↔ (v.setStatus id st).status i = .running
    rw [hrun i hi, setStatus_status]
    split
    · rfl
    · exact h.running_iff i hi

/-- **No step makes a request stand in two places.** -/
theorem Exclusive.step {lossy : Prop} (h : v.Exclusive) (hs : Step lossy v v') : v'.Exclusive := by
  have hr : v.running.Nodup := (nodup_add.1 h.once).1
  cases hs with
  | preempt running =>
    refine h.move (erase_add_cons running) (fun i _ => ?_) rfl
    rw [hr.mem_erase_iff]
    split <;> simp_all
  | restatus queued before not_running not_streaming unfinished =>
    refine h.move rfl (fun i _ => ?_) unfinished
    split
    · next he =>
      subst he
      simp [h.not_running queued, not_running]
    · rfl
  | start queued before =>
    refine h.move (cons_add_erase queued) (fun i _ => ?_) rfl
    rw [mem_cons]
    split <;> simp_all
  | @add id st new not_running not_streaming unfinished =>
    have hnew : id ∉ v.running + v.queued := fun hi => new (h.known id hi).1
    refine ⟨?_, ?_, ?_⟩
    · simp only [add_cons, setStatus_running]
      exact nodup_cons.2 ⟨hnew, h.once⟩
    · simp only [add_cons, setStatus_running, mem_cons, setStatus_status,
        List.mem_append, List.mem_singleton]
      rintro i (rfl | hi)
      · simp [unfinished]
      · have hne : i ≠ id := fun e => hnew (e ▸ hi)
        simp [hne, h.known i hi]
    · intro i hi
      simp only [List.mem_append, List.mem_singleton] at hi
      rw [setStatus_status]
      split
      · next he =>
        subst he
        simp only [setStatus_running, not_running, iff_false]
        exact fun hm => hnew (mem_add.2 (.inl hm))
      · next hne => exact h.running_iff i (hi.resolve_right hne)
  | resume known before =>
    refine h.move rfl (fun i hi => ?_) rfl
    split
    · next he =>
      subst he
      simp [h.running_iff i hi, before]
    · rfl
  | pause running after =>
    refine h.move (erase_add_cons running) (fun i _ => ?_) ?_
    · rw [hr.mem_erase_iff]
      rcases after with rfl | rfl <;> split <;> simp_all
    · rcases after with rfl | rfl <;> rfl
  | @finish id st known unfinished finished =>
    refine ⟨?_, ?_, ?_⟩
    · simpa only [filter_add] using h.once.filter _
    · simp only [← filter_add, mem_filter, setStatus_status, setStatus_requests]
      rintro i ⟨hi, hne⟩
      simp [hne, h.known i hi]
    · intro i hi
      simp only [mem_filter, setStatus_status, h.running_iff i hi]
      split
      · next he =>
        subst he
        simp only [ne_eq, not_true_eq_false, and_false, false_iff]
        rintro rfl
        cases finished
      · next hne => simp [hne]
  | @forget id finished =>
    refine ⟨h.once, ?_, ?_⟩
    · intro i hi
      have hne : i ≠ id := by
        rintro rfl
        rw [(h.known i hi).2] at finished
        cases finished
      simp [hne, h.known i hi]
    · intro i hi
      exact h.running_iff i (List.mem_of_mem_filter hi)
  | @lose id st n loses known not_running after =>
    refine ⟨?_, ?_, ?_⟩
    · exact nodup_of_le (add_le_add le_rfl (filter_le _ _)) h.once
    · simp only [mem_add, setStatus_running, mem_filter, setStatus_status, setStatus_requests]
      intro i hi
      have hne : i ≠ id := by
        rintro rfl
        exact hi.elim not_running fun hm => hm.2 rfl
      have hi' : i ∈ v.running + v.queued := mem_add.2 (hi.imp_right And.left)
      simp [hne, h.known i hi']
    · intro i hi
      show i ∈ v.running ↔ (v.setStatus id st).status i = .running
      rw [setStatus_status]
      split
      · next he =>
        subst he
        simp [not_running, after]
      · exact h.running_iff i hi

/-- A status that is not counted before nor after leaves the count alone. -/
theorem filter_setStatus (v : QueueView) (q : Multiset ReqId) {st : RequestStatus}
    (h : id ∈ q → st ≠ .waitingForStreamingReq ∧ v.status id ≠ .waitingForStreamingReq) :
    q.filter (fun i => (v.setStatus id st).status i = .waitingForStreamingReq) =
      q.filter fun i => v.status i = .waitingForStreamingReq := by
  refine filter_congr fun i hi => ?_
  rw [setStatus_status]
  split
  · next he =>
    subst he
    simp [h hi]
  · rfl

/-- A status that is not counted takes its request out of the count. -/
theorem filter_setStatus_without (v : QueueView) (q : Multiset ReqId)
    {st : RequestStatus} (hst : st ≠ .waitingForStreamingReq) :
    q.filter (fun i => (v.setStatus id st).status i = .waitingForStreamingReq) =
      (q.filter fun i => v.status i = .waitingForStreamingReq).filter (· ≠ id) := by
  rw [filter_filter]
  refine filter_congr fun i _ => ?_
  rw [setStatus_status]
  split <;> simp_all

/-- A session that waits for input stands in a queue. -/
theorem Partitioned.queued_of_streaming (h : v.Partitioned)
    (known : id ∈ v.requests) (hst : v.status id = .waitingForStreamingReq) : id ∈ v.queued := by
  refine (mem_add.1 (h.placed id known (by rw [hst]; rfl))).resolve_left fun hr => ?_
  rw [h.running_iff id known, hst] at hr
  cases hr

/-- Without a request, the sessions that wait for input are one fewer if it was one. -/
theorem Partitioned.card_streaming_without (h : v.Partitioned) (known : id ∈ v.requests) :
    ((v.streaming.filter (· ≠ id)).card : ℤ) =
      v.streaming.card - if v.status id = .waitingForStreamingReq then 1 else 0 := by
  have hq : v.streaming.Nodup := (nodup_add.1 h.once).2.1.filter _
  rw [← hq.erase_eq_filter]
  split
  · next hst =>
    have hm : id ∈ v.streaming :=
      mem_filter.2 ⟨h.queued_of_streaming known hst, hst⟩
    have := card_pos_iff_exists_mem.2 ⟨id, hm⟩
    rw [card_erase_of_mem hm, Nat.pred_eq_sub_one]
    omega
  · next hst =>
    have hm : id ∉ v.streaming := fun hm => hst (mem_filter.1 hm).2
    rw [erase_of_notMem hm, sub_zero]

/-- A request that moves keeps the others in their places. -/
theorem Partitioned.placed_move (h : v.Partitioned) {r q : Multiset ReqId} {st : RequestStatus}
    {i : ReqId} (hplaces : r + q = v.running + v.queued) (hid : id ∈ v.running + v.queued)
    (hi : i ∈ v.requests) (hf : ((v.setStatus id st).status i).isFinished = false) : i ∈ r + q := by
  rw [setStatus_status] at hf
  rw [hplaces]
  split at hf
  · next he => exact he ▸ hid
  · exact h.placed i hi hf

/-- **Every step but `lose` keeps every unfinished request in its place.** -/
theorem Partitioned.step (h : v.Partitioned) (hs : Step False v v') : v'.Partitioned := by
  refine { toExclusive := h.toExclusive.step hs, placed := ?_, counted := ?_ }
  · intro i hi hf
    cases hs with
    | preempt running | pause running =>
      exact h.placed_move (erase_add_cons running) (mem_add.2 (.inl running)) hi hf
    | restatus queued => exact h.placed_move rfl (mem_add.2 (.inr queued)) hi hf
    | start queued =>
      exact h.placed_move (cons_add_erase queued) (mem_add.2 (.inr queued)) hi hf
    | add =>
      simp only [add_cons, mem_cons, setStatus_status] at hf ⊢
      split at hf
      · next he => exact .inl he
      · next hne => exact .inr (h.placed i ((List.mem_append.1 hi).resolve_right (by simpa)) hf)
    | resume known before =>
      have queued := h.queued_of_streaming known before
      exact h.placed_move rfl (mem_add.2 (.inr queued)) hi hf
    | finish known unfinished finished =>
      simp only [← filter_add, mem_filter, setStatus_status] at hf ⊢
      split at hf
      · rw [finished] at hf
        cases hf
      · next hne => exact ⟨h.placed i hi hf, hne⟩
    | forget => exact h.placed i (List.mem_of_mem_filter hi) hf
    | lose loses => exact loses.elim
  · have counted := h.counted
    unfold streaming at counted ⊢
    cases hs with
    | preempt running =>
      rw [filter_cons_of_neg _ (by simp),
        filter_setStatus v _ fun hm => absurd hm (h.not_queued running)]
      exact counted
    | restatus queued before not_running not_streaming =>
      rw [setStatus_queued, filter_setStatus v _ fun _ => ⟨not_streaming, before⟩]
      exact counted
    | @start id queued before =>
      have hne : ¬ v.status id = .waitingForStreamingReq := before
      rw [← cons_erase queued, filter_cons_of_neg (p := fun i => v.status i = _) _ hne] at counted
      rw [filter_setStatus v _ fun _ => ⟨by simp, before⟩]
      exact counted
    | @add id st new not_running not_streaming =>
      have hq : id ∉ v.queued := fun hm => new (h.known id (mem_add.2 (.inr hm))).1
      rw [filter_cons_of_neg _ (by simpa using not_streaming),
        filter_setStatus v _ fun hm => absurd hm hq]
      exact counted
    | @resume id known before =>
      have hcard := h.card_streaming_without known
      rw [if_pos before, ← h.counted] at hcard
      rw [filter_setStatus_without v _ (by simp)]
      exact hcard.symm
    | @pause id st running after =>
      have hrest := @filter_setStatus id v v.queued st fun hm =>
        absurd hm (h.not_queued running)
      split
      · next hst =>
        rw [filter_cons_of_pos _ (by simpa using hst), hrest, card_cons, counted]
        simp
      · next hst =>
        rw [filter_cons_of_neg _ (by simpa using hst), hrest, counted]
        simp
    | @finish id st known unfinished finished =>
      have hcard := h.card_streaming_without known
      have hst : st ≠ .waitingForStreamingReq := by
        rintro rfl
        cases finished
      rw [← h.counted] at hcard
      have hsame : ((v.queued.filter (· ≠ id)).filter fun i =>
          v.status i = .waitingForStreamingReq).filter (· ≠ id) = v.streaming.filter (· ≠ id) := by
        simp only [streaming, filter_filter]
        exact filter_congr fun i _ => by tauto
      rw [filter_setStatus_without v _ hst, hsame]
      exact hcard.symm
    | forget => exact counted
    | lose loses => exact loses.elim

abbrev Steps (lossy : Prop) : QueueView → QueueView → Prop := ReflTransGen (Step lossy)

theorem Exclusive.steps {lossy : Prop} (h : v.Exclusive)
    (hs : Steps lossy v v') : v'.Exclusive := by
  induction hs with
  | refl => exact h
  | tail _ hstep ih => exact ih.step hstep

theorem Partitioned.steps (h : v.Partitioned) (hs : Steps False v v') : v'.Partitioned := by
  induction hs with
  | refl => exact h
  | tail _ hstep ih => exact ih.step hstep

end QueueView

open QueueView

variable {H : Type}

def Scheduler.queues (s : Scheduler H) : QueueView where
  requests := s.requests
  running := s.running
  queued := s.waiting + s.skippedWaiting
  status id := (s.objs id).status
  numStreaming := s.numWaitingForStreamingInput

/-- The queues during a pass; the requests that were set aside are queued. -/
def Pass.queues (p : Pass H) : QueueView :=
  { p.s.queues with queued := p.s.queues.queued + (p.stepSkippedWaiting : Multiset ReqId) }

/-! ## The first loop -/

section Pass

variable {cfg : SchedulerConfig H} {env : ScheduleEnv} {lossy : Prop}
  {p p' : Pass H} {v id : ReqId} {s : Scheduler H} {skipped : Bool}

theorem Pass.mem_running_of_victim (h : p.victim cfg = .ok v) : v ∈ p.s.running := by
  cases hp : cfg.policy with
  | fcfs =>
    rw [dropLast_of_victim_fcfs hp h]
    simp
  | priority =>
    simp only [victim, hp, orRaise_eq_ok] at h
    exact mem_of_lowestPriority h

theorem Pass.coe_running_preemptVictim (hv : p.victim cfg = .ok v)
    (h : p.preemptVictim cfg v = .ok p') :
    (p'.s.running : Multiset ReqId) = (p.s.running : Multiset ReqId).erase v := by
  rw [preemptVictim_running h]
  cases hp : cfg.policy with
  | priority => simp
  | fcfs =>
    have hlast := dropLast_of_victim_fcfs hp hv
    conv_rhs => rw [hlast]
    simp only [reduceCtorEq, if_false]
    rw [← coe_add, add_comm, coe_singleton, singleton_add, erase_cons_head]

/-- The statuses after one request has changed. -/
theorem status_update (f : ReqId → Request H) (id : ReqId) (r : Request H) :
    (fun i => (Function.update f id r i).status) =
      Function.update (fun i => (f i).status) id r.status := by
  funext i
  rcases eq_or_ne i id with rfl | hne
  · simp
  · simp [hne]

theorem Pass.queues_preemptVictim (hv : p.victim cfg = .ok v)
    (h : p.preemptVictim cfg v = .ok p') : Step lossy p.queues p'.queues := by
  have hrun := coe_running_preemptVictim hv h
  have hmem : v ∈ p.queues.running := mem_running_of_victim hv
  have hstep : Step lossy p.queues _ := .preempt hmem
  obtain ⟨p₁, s, hr, hs, rfl⟩ := preemptVictim_eq_ok h
  obtain ⟨-, kv, e, w, -, -, hw, rfl⟩ := preemptRequest_eq_ok hs
  have hw : (w : Multiset ReqId) = v ::ₘ (p.s.waiting : Multiset ReqId) :=
    coe_eq_coe.2 hw
  convert hstep using 1
  ext1
  · rfl
  · exact hrun
  · have haside := rescindVictim_stepSkippedWaiting hr
    show (w + p.s.skippedWaiting + p₁.stepSkippedWaiting : Multiset ReqId) = v ::ₘ
      (p.s.waiting + p.s.skippedWaiting + p.stepSkippedWaiting)
    rw [hw, haside, cons_add, cons_add]
    rfl
  · exact status_update _ _ _
  · rfl

theorem Pass.steps_of_preempting [DecidableEq H] {n : ℕ}
    (h : Pass.Preempting cfg id n p p') : Steps lossy p.queues p'.queues := by
  induction h with
  | done => exact .refl
  | next full chosen other preempted dropped rest ih =>
    have hstep : Step lossy _ _ := queues_preemptVictim chosen preempted
    exact .head hstep ih

theorem Pass.steps_of_allocated [DecidableEq H] {n : ℕ}
    {blocks : Option (List (List BlockId))} (h : Pass.Allocated cfg id n p blocks p') :
    Steps lossy p.queues p'.queues := by
  cases h with
  | fits rounds fit =>
    have hsteps : Steps lossy _ _ := steps_of_preempting rounds
    exact hsteps
  | gaveUp rounds full chosen preempted dropped =>
    have hstep : Step lossy _ _ := queues_preemptVictim chosen preempted
    exact (steps_of_preempting rounds).tail hstep

/-- A change of a request that keeps its status does not show in the queues. -/
theorem status_update_self {f : ReqId → Request H} {r : Request H} (h : r.status = (f id).status) :
    (fun i => (Function.update f id r i).status) = fun i => (f i).status := by
  rw [status_update, h]
  exact Function.update_eq_self _ _

theorem Pass.queues_commitRunning {plan : EncoderPlan}
    {blocks : List (List BlockId)} (h : p.commitRunning cfg id plan blocks = .ok p') :
    p'.queues = p.queues := by
  obtain ⟨e, -, rfl⟩ := commitRunning_eq_ok h
  ext1
  · rfl
  · rfl
  · rfl
  · exact status_update_self rfl
  · rfl

/-- **A round of the first loop preempts, and does nothing else to the queues.** -/
theorem Pass.steps_of_runningRound [DecidableEq H] {deferPrefills : Bool}
    (h : Pass.RunningRound cfg env deferPrefills p p') : Steps lossy p.queues p'.queues := by
  cases h with
  | idle => exact .refl
  | schedule running fresh budget slots due planned some_tokens allocated committed =>
    have hsteps : Steps lossy _ _ := steps_of_allocated allocated
    rw [queues_commitRunning committed]
    exact hsteps
  | giveUp running fresh planned some_tokens allocated =>
    have hsteps : Steps lossy _ _ := steps_of_allocated allocated
    exact hsteps

/-! ## The second loop -/

/-- The queues after a promotion. -/
theorem Pass.queues_setSched_promotedTo (p : Pass H) (id : ReqId) (st : RequestStatus) (c : ℤ)
    (kv : KVCacheManager H) (failed finished grammar : List ReqId) :
    (p.setSched (promotedTo p.s id st c kv failed finished grammar)).queues =
      p.queues.setStatus id st := by
  ext1
  · rfl
  · rfl
  · rfl
  · exact status_update _ _ _
  · rfl

theorem QueueView.setStatus_self (v : QueueView) (id : ReqId) :
    v.setStatus id (v.status id) = v := by
  simp [setStatus]

/-- **A promotion changes the status of a queued request.** -/
theorem Pass.steps_of_promote [DecidableEq H]
    {ready : Bool} (queued : id ∈ p.queues.queued) (h : promote cfg env p.s id = .ok (ready, s)) :
    Steps lossy p.queues (p.setSched s).queues := by
  obtain ⟨st, c, kv, failed, finished, grammar, rfl, hst, -⟩ := promote_eq_ok h
  rw [queues_setSched_promotedTo]
  rcases hst with rfl | ⟨hfrom, hto⟩
  · have hself := QueueView.setStatus_self p.queues id
    exact hself.symm ▸ ReflTransGen.refl
  · refine .single (.restatus queued ?_ ?_ ?_ ?_)
    · show (p.s.objs id).status ≠ _
      rcases hfrom with h | h <;> simp [h]
    all_goals rcases hto with rfl | rfl <;> simp [RequestStatus.isFinished]

/-- The first element of the queue a pass considers. -/
def Pass.IsHead (p : Pass H) (skipped : Bool) (id : ReqId) : Prop :=
  (if skipped then p.s.skippedWaiting else p.s.waiting).head? = some id

theorem Pass.IsHead.queued (h : p.IsHead skipped id) : id ∈ p.queues.queued := by
  have hm := List.mem_of_mem_head? h
  cases skipped <;> simp_all [queues, Scheduler.queues]

theorem Pass.coe_of_popHead {w k : List ReqId}
    (h : (id :: (w ++ k)).Perm (p.s.waiting ++ p.s.skippedWaiting)) :
    (p.s.waiting + p.s.skippedWaiting : Multiset ReqId) = id ::ₘ (w + k : Multiset ReqId) := by
  have hperm := coe_eq_coe.2 h
  rw [← cons_coe, ← coe_add, ← coe_add] at hperm
  exact hperm.symm

theorem Pass.queues_skipHead
    (head : p.IsHead skipped id) (h : p.skipHead cfg skipped = .ok p') : p'.queues = p.queues := by
  obtain ⟨w, k, aside, rfl, hperm, haside⟩ := skipHead_eq_ok head h
  have hcoe := coe_of_popHead hperm
  have haside := coe_eq_coe.2 haside
  ext1
  · rfl
  · rfl
  · show (w + k + aside : Multiset ReqId) = p.s.waiting + p.s.skippedWaiting + _
    rw [hcoe, haside, ← cons_coe, add_cons, cons_add]
  · rfl
  · rfl

/-- **Taking the head of a queue** admits it, or sets it aside for a load. -/
theorem Pass.step_of_takeHead {a : Admission}
    (head : p.IsHead skipped id) (ready : (p.s.objs id).status.isBlockedWaiting = false)
    (h : p.takeHead cfg skipped a = .ok p') : Step lossy p.queues p'.queues := by
  have hst : p.queues.status id ≠ .waitingForStreamingReq := by
    intro he
    have he : (p.s.objs id).status = .waitingForStreamingReq := he
    rw [he] at ready
    cases ready
  simp only [takeHead, bind_eq_ok] at h
  obtain ⟨⟨i, p₁⟩, hpop, h⟩ := h
  obtain ⟨rfl, w, k, rfl, hperm⟩ := popHead_eq_ok head hpop
  have hcoe := coe_of_popHead hperm
  split at h
  · cases h
    have hstep : Step lossy p.queues (p.queues.setStatus i .waitingForRemoteKvs) :=
      .restatus head.queued hst (by simp) (by simp) rfl
    obtain ⟨skipZero, aside, heq, haside⟩ :=
      startLoad_eq cfg (p.setSched (withQueues p.s w k)) i a.hit
    rw [heq]
    convert hstep using 1
    ext1
    · rfl
    · rfl
    · have haside := coe_eq_coe.2 haside
      show (w + k + aside : Multiset ReqId) = p.s.waiting + p.s.skippedWaiting + _
      rw [hcoe, haside, ← cons_coe, add_cons, cons_add]
      rfl
    · exact status_update _ _ _
    · rfl
  · have hstep : Step lossy p.queues _ := .start head.queued hst
    obtain ⟨-, e, -, rfl⟩ := admitRequest_eq_ok h
    convert hstep using 1
    ext1
    · rfl
    · show ((p.s.running ++ [i] : List ReqId) : Multiset ReqId) =
          i ::ₘ (p.s.running : Multiset ReqId)
      rw [cons_coe]
      exact coe_eq_coe.2 (List.perm_append_singleton _ _)
    · show (w + k + p.stepSkippedWaiting : Multiset ReqId) =
        (p.s.waiting + p.s.skippedWaiting + p.stepSkippedWaiting : Multiset ReqId).erase i
      rw [hcoe, cons_add, erase_cons_head]
    · exact status_update _ _ _
    · rfl

theorem Pass.queues_abandon (h : p.abandon cfg id = .ok p') : p'.queues = p.queues := by
  rw [abandon] at h
  split at h
  · simp only [freeEncoder, bind_eq_ok] at h
    obtain ⟨s, ⟨e, -, hs⟩, h⟩ := h
    cases hs
    cases h
    rfl
  · cases h
    rfl

/-- The state in which a promoted request is considered. -/
theorem Pass.steps_of_ready [DecidableEq H] (head : p.peek cfg = some (skipped, id))
    (ready : promote cfg env p.s id = .ok (true, s)) :
    Steps lossy p.queues (p.setSched s).queues ∧ (p.setSched s).IsHead skipped id ∧
      (s.objs id).status.isBlockedWaiting = false := by
  have head : p.IsHead skipped id := peek_eq_some head
  refine ⟨steps_of_promote head.queued ready, ?_⟩
  obtain ⟨st, c, kv, failed, finished, grammar, rfl, -, hst, -⟩ := promote_eq_ok ready
  exact ⟨head, by simpa [promotedTo, restate] using hst rfl⟩

/-- The state in which the admission of a request is planned. -/
theorem Pass.steps_of_looked [DecidableEq H]
    {s' : Scheduler H} {hit : Option Hit} (head : p.peek cfg = some (skipped, id))
    (ready : promote cfg env p.s id = .ok (true, s))
    (looked : getHit cfg env s id = .ok (s', hit)) :
    Steps lossy p.queues (p.setSched s').queues ∧ (p.setSched s').IsHead skipped id ∧
      (s'.objs id).status.isBlockedWaiting = false := by
  have hready : Steps lossy p.queues (p.setSched s).queues ∧ _ ∧ _ := steps_of_ready head ready
  obtain ⟨hsteps, hhead, hst⟩ := hready
  obtain ⟨⟨b, rfl, -⟩, -⟩ := getHit_eq_ok looked
  have hsame : (p.setSched (setBoundary s id b)).queues = (p.setSched s).queues := by
    ext1
    · rfl
    · rfl
    · rfl
    · exact status_update_self rfl
    · rfl
  refine ⟨hsame ▸ hsteps, hhead, ?_⟩
  simpa [setBoundary] using hst

/-- **A round of the second loop.** -/
theorem Pass.steps_of_waitingRound [DecidableEq H] {deferPrefills : Bool} {p p' : Pass H}
    (h : Pass.WaitingRound cfg env deferPrefills p p') : Steps lossy p.queues p'.queues := by
  cases h with
  | @blocked skipped id s p' head kept skip =>
    have head : p.IsHead skipped id := peek_eq_some head
    have hpro : Steps lossy _ _ := steps_of_promote head.queued kept
    obtain ⟨st, c, kv, failed, finished, grammar, rfl, -⟩ := promote_eq_ok kept
    have hhead : (p.setSched (promotedTo p.s id st c kv failed finished grammar)).IsHead
      skipped id := head
    rw [queues_skipHead hhead skip]
    exact hpro
  | passedOver head ready passed skip =>
    obtain ⟨hsteps, hhead, -⟩ := steps_of_ready head ready
    rw [queues_skipHead hhead skip]
    exact hsteps
  | unknownHit head ready looked skip =>
    obtain ⟨hsteps, hhead, -⟩ := steps_of_looked head ready looked
    rw [queues_skipHead hhead skip]
    exact hsteps
  | stop head ready looked planned =>
    obtain ⟨hsteps, -, -⟩ := steps_of_looked head ready looked
    obtain ⟨⟨e, rfl⟩, -⟩ := planHit_eq_ok planned
    exact hsteps
  | abandon head ready looked planned full freed =>
    obtain ⟨hsteps, -, -⟩ := steps_of_looked head ready looked
    obtain ⟨⟨e, rfl⟩, -⟩ := planHit_eq_ok planned
    rw [queues_abandon freed]
    exact hsteps
  | @take skipped id s s' hit a reserved blocks kv p₁ p' head ready considered looked budget
    slots room
      planned fit taken =>
    obtain ⟨hsteps, hhead, hst⟩ := steps_of_looked head ready looked
    obtain ⟨⟨e, rfl⟩, -⟩ := planHit_eq_ok planned
    have hhead : (((p.setSched s').setEncoder e).setKV kv).IsHead skipped id := hhead
    have hstep : Step lossy _ _ := step_of_takeHead hhead hst taken
    exact hsteps.tail hstep

/-- The requests that were set aside stay queued. -/
theorem Pass.queues_requeue (cfg : SchedulerConfig H) (p : Pass H) (d : Bool) :
    (p.requeue cfg d).queues = p.queues := by
  have hperm := coe_eq_coe.2
    (prependAll_perm cfg.policy p.s p.s.skippedWaiting p.stepSkippedWaiting)
  ext1
  · rfl
  · rfl
  · show (p.s.waiting + prependAll cfg.policy p.s p.s.skippedWaiting
      p.stepSkippedWaiting + ([] : List ReqId) : Multiset ReqId) = _
    rw [hperm, ← coe_add]
    simp only [coe_nil, add_zero]
    show _ = (p.s.waiting + p.s.skippedWaiting + p.stepSkippedWaiting : Multiset ReqId)
    rw [add_assoc, add_comm (p.stepSkippedWaiting : Multiset ReqId)]
  · rfl
  · rfl

/-- Issuing a step changes no status. -/
theorem Scheduler.afterSchedule_status (out : SchedulerOutput) (kv : KVState H) (c n : ℕ)
    (id : ReqId) (r : Request H) : (afterSchedule cfg out kv c id n r).status = r.status := by
  rw [afterSchedule]
  split
  · rw [expect]
    split <;> rfl
  · rfl

/-- **A call of `schedule` takes only steps that keep every request in its place.** -/
theorem Scheduler.steps_of_schedule [DecidableEq H] {s' : Scheduler H} {out : SchedulerOutput}
    (hs : s.running.Nodup) (h : s.schedule cfg env = .ok (out, s')) :
    Steps lossy s.queues s'.queues := by
  obtain ⟨p, hrounds, hfin⟩ := schedule_eq_ok hs h
  have hstart : (Pass.start cfg s).queues = s.queues := by
    simp [Pass.queues, queues, Pass.start]
  have hpass : Steps lossy s.queues p.queues := by
    refine hrounds.invariant (P := fun p => Steps lossy s.queues p.queues) ?_ ?_ ?_ ?_ ?_
    · exact hstart ▸ ReflTransGen.refl
    · exact fun hp hr => hp.trans (Pass.steps_of_runningRound hr)
    · exact fun l hp => hp
    · exact fun hp hr => hp.trans (Pass.steps_of_waitingRound hr)
    · exact fun d hp => (Pass.queues_requeue cfg _ d).symm ▸ hp
  have haside := hrounds.stepSkippedWaiting_eq
  obtain ⟨d, numSpec, inflight, placeholders, -, -, -, rfl, -, rfl⟩ := Pass.finish_eq_ok hfin
  convert hpass using 1
  ext1
  · rfl
  · rfl
  · simp [Pass.queues, queues, haside, Pass.issued]
  · funext id
    simp only [queues, updateBy]
    split
    · rfl
    · exact afterSchedule_status _ _ _ _ _ _
  · rfl

end Pass

end KVarN.Sched
