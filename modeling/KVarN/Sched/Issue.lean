import KVarN.Sched.Admission

/-!
# Issuing a step

At the end of a pass the output is put together and every scheduled request advances.
This module says what that does to the requests, and lifts facts about rounds to the
whole of `schedule`.

## Main results

* `Scheduler.updateAfterSchedule_eq_ok`, `Pass.finish_eq_ok` — the state after a step
  was issued.
* `Scheduler.schedule_eq_ok` — a call is a pass reached by rounds, and its end.
-/

namespace KVarN.Sched

open KVarN.Lib KVarN.Core Relation Scheduler

variable {H : Type} {cfg : SchedulerConfig H} {env : ScheduleEnv}

/-- Change every request by its entry in a dictionary. -/
def updateBy (d : Dict ReqId ℕ) (f : ReqId → ℕ → Request H → Request H)
    (objs : ReqId → Request H) : ReqId → Request H := fun id =>
  match d.get? id with
  | none => objs id
  | some n => f id n (objs id)

theorem updateBy_of_notMem {d : Dict ReqId ℕ} {f : ReqId → ℕ → Request H → Request H}
    {objs : ReqId → Request H} {id : ReqId} (h : id ∉ d) : updateBy d f objs id = objs id := by
  simp [updateBy, Dict.get?_eq_none_iff.2 h]

variable (f : ReqId → ℕ → Request H → Request H) (es : List (ReqId × ℕ))

/-- Updates of different requests, one after the other. -/
theorem foldl_update (s : Scheduler H) : es.foldl (fun s e => s.update e.1 (f e.1 e.2)) s =
    { s with objs := (es.foldl (fun s e => s.update e.1 (f e.1 e.2)) s).objs } := by
  induction es generalizing s with
  | nil => rfl
  | cons e es ih =>
    rw [List.foldl_cons, ih]
    rfl

theorem foldl_update_objs (hes : (es.map Prod.fst).Nodup) (s : Scheduler H) :
    (es.foldl (fun s e => s.update e.1 (f e.1 e.2)) s).objs = updateBy ⟨es, hes⟩ f s.objs := by
  induction es generalizing s with
  | nil => rfl
  | cons e es ih =>
    obtain ⟨k, n⟩ := e
    rw [List.map_cons, List.nodup_cons] at hes
    rw [List.foldl_cons, ih hes.2]
    funext id
    rcases eq_or_ne id k with rfl | hne
    · have hk : id ∉ (⟨es, hes.2⟩ : Dict ReqId ℕ) := hes.1
      rw [updateBy_of_notMem hk]
      simp [updateBy, Dict.get?]
    · simp [updateBy, Dict.get?, update, hne, hne.symm]

/-- **The scheduled requests advance, each by its own tokens.** -/
theorem Scheduler.advanceAll_eq (out : SchedulerOutput) (s : Scheduler H) :
    s.advanceAll cfg out = { s with
      objs := updateBy out.numScheduledTokens
        (fun id n => afterSchedule cfg out s.kv s.currentStep id n) s.objs } := by
  rw [advanceAll, foldl_update, foldl_update_objs _ _ out.numScheduledTokens.nodup]

variable {out : SchedulerOutput} {s s' : Scheduler H} {p : Pass H}

theorem Scheduler.updateAfterSchedule_eq_ok (h : s.updateAfterSchedule cfg out = .ok s') :
    (∀ id ∈ out.numScheduledTokens, id ∈ s.requests) ∧ ∃ inflight placeholders, s' = { s with
        objs := updateBy out.numScheduledTokens
          (fun id n => afterSchedule cfg out s.kv s.currentStep id n) s.objs
        inflightPrefills := inflight
        finishedReqIds := []
        resetPreemptedReqIds := []
        numSpecTokenPlaceholders := placeholders } := by
  rw [updateAfterSchedule] at h
  split at h
  · next hk =>
    rw [advanceAll_eq] at h
    cases h
    exact ⟨hk, _, _, rfl⟩
  · cases h

/-- **The end of a pass.** -/
theorem Pass.finish_eq_ok (h : p.finish cfg = .ok (out, s)) : ∃ d numSpec inflight placeholders,
      p.checkBudgets cfg = .ok () ∧ p.drainKV cfg = .ok d ∧
      p.numSpecTokensToSchedule cfg = .ok numSpec ∧ out = p.output cfg d numSpec ∧
      (∀ id ∈ p.numScheduledTokens, id ∈ p.s.requests) ∧
      s = { p.issued cfg d with
        objs := updateBy p.numScheduledTokens
          (fun id n => afterSchedule cfg out (p.issued cfg d).kv p.s.currentStep id n)
          p.s.objs
        inflightPrefills := inflight
        finishedReqIds := []
        resetPreemptedReqIds := []
        numSpecTokenPlaceholders := placeholders } := by
  simp only [finish, bind_eq_ok] at h
  obtain ⟨⟨⟩, hb, d, hd, numSpec, hn, s₁, hs, h⟩ := h
  cases h
  obtain ⟨hk, inflight, placeholders, rfl⟩ := updateAfterSchedule_eq_ok hs
  exact ⟨d, numSpec, inflight, placeholders, hb, hd, hn, rfl, hk, rfl⟩

/-- **A call of `schedule`**: rounds, and the end of the pass. -/
theorem Scheduler.schedule_eq_ok [DecidableEq H]
    (hs : s.running.Nodup) (h : s.schedule cfg env = .ok (out, s')) :
    ∃ p, Pass.Rounds cfg env s p ∧ p.finish cfg = .ok (out, s') := by
  obtain ⟨p, hp, h⟩ := bind_eq_ok.1 h
  exact ⟨p, rounds_of_schedulePass hs hp, h⟩

/-! ## Induction over a pass -/

theorem Pass.collectLoras_eq_ok {p' : Pass H} (h : p.collectLoras cfg = .ok p') :
    ∃ l, p' = { p with scheduledLoras := l } := by
  rw [collectLoras] at h
  split at h
  · cases h
    exact ⟨_, rfl⟩
  · obtain ⟨-, -, h⟩ := bind_eq_ok.1 h
    cases h
    exact ⟨_, rfl⟩

/-- An invariant of the rounds of a loop. -/
theorem invariant_of_reflTransGen {α : Type} {r : α → α → Prop} {P : α → Prop} {a b : α}
    (h : ReflTransGen r a b) (init : P a) (step : ∀ {x y}, P x → r x y → P y) : P b := by
  induction h with
  | refl => exact init
  | tail _ hr ih => exact step ih hr

/-- **An invariant of the rounds holds at the end of the loops.** -/
theorem Pass.Rounds.invariant [DecidableEq H]
    {P : Pass H → Prop} (h : Pass.Rounds cfg env s p) (init : P (start cfg s))
    (running : ∀ {d p p'}, P p → Pass.RunningRound cfg env d p p' → P p')
    (loras : ∀ {p} l, P p → P { p with scheduledLoras := l })
    (waiting : ∀ {d p p'}, P p → Pass.WaitingRound cfg env d p p' → P p')
    (requeue : ∀ {p} d, P p → P (p.requeue cfg d)) : P p := by
  cases h with
  | ran hrun hlora closed =>
    obtain ⟨l, rfl⟩ := collectLoras_eq_ok hlora
    exact loras l (invariant_of_reflTransGen hrun init running)
  | admitted hrun hlora none_preempted unpaused hwait =>
    obtain ⟨l, rfl⟩ := collectLoras_eq_ok hlora
    have hran := loras l (invariant_of_reflTransGen hrun init running)
    exact requeue _ (invariant_of_reflTransGen hwait hran waiting)

section Rules

variable [DecidableEq H] {P : Pass H → Prop} {id : ReqId} {n : ℕ} {p' : Pass H}
  (setKV : ∀ {p : Pass H} (kv), P p → P (p.setKV kv))
  (preempt : ∀ {p p' : Pass H} {v}, P p → p.victim cfg = .ok v →
    p.preemptVictim cfg v = .ok p' → v ∉ p'.numScheduledTokens → P p')

include setKV preempt

/-- What holds after each preemption holds after all of them. -/
theorem Pass.Preempting.invariant (h : Pass.Preempting cfg id n p p') (hp : P p) :
    P p' := by
  induction h with
  | done => exact hp
  | next full chosen other preempted dropped rest ih =>
    exact ih (preempt (setKV _ hp) chosen preempted dropped)

theorem Pass.Allocated.invariant {blocks : Option (List (List BlockId))}
    (h : Pass.Allocated cfg id n p blocks p') (hp : P p) : P p' := by
  cases h with
  | fits rounds fit => exact setKV _ (rounds.invariant setKV preempt hp)
  | gaveUp rounds full chosen preempted dropped =>
    exact preempt (setKV _ (rounds.invariant setKV preempt hp)) chosen preempted dropped

/-- **An invariant of the first loop**, for one that does not read the caches. -/
theorem Pass.RunningRound.invariant {deferPrefills : Bool}
    (h : Pass.RunningRound cfg env deferPrefills p p') (hp : P p)
    (setEncoder : ∀ {p : Pass H} (e), P p → P (p.setEncoder e))
    (commit : ∀ {p p' : Pass H} {id plan blocks}, P p →
      p.commitRunning cfg id plan blocks = .ok p' → P p') : P p' := by
  cases h with
  | idle => exact setEncoder _ hp
  | schedule running fresh budget slots due planned some_tokens allocated committed =>
    exact commit (allocated.invariant setKV preempt (setEncoder _ hp)) committed
  | giveUp running fresh planned some_tokens allocated =>
    exact allocated.invariant setKV preempt (setEncoder _ hp)

end Rules

/-! ## Requests that are set aside -/

variable {p' : Pass H}

theorem Pass.rescindVictim_stepSkippedWaiting {v : ReqId}
    (h : p.rescindVictim cfg v = .ok p') : p'.stepSkippedWaiting = p.stepSkippedWaiting := by
  obtain ⟨-, -, h⟩ | ⟨-, rfl⟩ := rescindVictim_eq_ok h
  · obtain ⟨n, -, h⟩ := bind_eq_ok.1 h
    cases h
    rfl
  · rfl

/-- The first loop sets nobody aside. -/
theorem Pass.RunningRound.stepSkippedWaiting_eq [DecidableEq H] {deferPrefills : Bool}
    (h : Pass.RunningRound cfg env deferPrefills p p') :
    p'.stepSkippedWaiting = p.stepSkippedWaiting := by
  refine h.invariant (P := fun p' => p'.stepSkippedWaiting = p.stepSkippedWaiting)
    (fun _ hp => hp) ?_ rfl (fun _ hp => hp) ?_
  · intro p₁ p₂ v hp _ hv _
    obtain ⟨p₃, s, hr, -, rfl⟩ := preemptVictim_eq_ok hv
    have hr := rescindVictim_stepSkippedWaiting hr
    exact hr.trans hp
  · intro p₁ p₂ id plan blocks hp hc
    obtain ⟨e, -, rfl⟩ := commitRunning_eq_ok hc
    exact hp

/-- **At the end of the loops nobody is set aside.** -/
theorem Pass.Rounds.stepSkippedWaiting_eq [DecidableEq H]
    (h : Pass.Rounds cfg env s p) : p.stepSkippedWaiting = [] := by
  cases h with
  | @ran p p₁ hrun hlora closed =>
    obtain ⟨l, rfl⟩ := collectLoras_eq_ok hlora
    have hskip : p.stepSkippedWaiting = [] := invariant_of_reflTransGen
      (P := fun p => p.stepSkippedWaiting = []) hrun rfl fun hp hr =>
        hr.stepSkippedWaiting_eq.trans hp
    exact hskip
  | admitted => rfl

end KVarN.Sched
