import KVarN.Sched.Update

/-!
# The scheduler and its steps in flight

The engine calls the scheduler and keeps the outputs it has issued until the workers'
results come back, in the order in which they were issued. `System` is the scheduler
with these outputs; an event is a call from outside, a new step, or the result of the
oldest step in flight.

With each output the state in which it was issued is remembered. No code reads it: it
says which preemptions a step has seen.

## Main definitions

* `Reachable` — the schedulers that calls reach, in any order.
* `System`, `Event`, `System.step`, `System.Reaches` — runs with first-in-first-out outputs.
* `Small` — a configuration to run the model on.
-/

namespace KVarN.Sched

open KVarN.Lib KVarN.Core

variable {H : Type} [DecidableEq H] {cfg : SchedulerConfig H}

/-- The schedulers that calls reach, from one without requests, when each call meets `P`. -/
inductive Reachable (cfg : SchedulerConfig H) (P : Scheduler H → Call → Prop) :
    Scheduler H → Prop
  | init (kv : KVState H) (encoder : EncoderCache) (numSpecTokens : ℕ)
      (objs : ReqId → Request H) : Reachable cfg P (.init kv encoder numSpecTokens objs)
  | call {s s' : Scheduler H} {c : Call} (before : Reachable cfg P s) (meets : P s c)
      (called : s.call cfg c = .ok s') : Reachable cfg P s'

/-- A step that was issued, with the state in which it was. -/
structure Issued (H : Type) where
  out : SchedulerOutput
  state : Scheduler H

/-- The scheduler and the steps in flight, the oldest first. -/
structure System (H : Type) where
  s : Scheduler H
  inFlight : List (Issued H)

/-- What happens to the system. -/
inductive Event
  | addRequest (id : ReqId) (q : RequestParams) (delaysFree : ReqId → Bool)
  | finishRequests (ids : List ReqId) (status : RequestStatus) (delaysFree : ReqId → Bool)
  | finishAllRequests (status : RequestStatus) (delaysFree : ReqId → Bool)
  | schedule (env : ScheduleEnv)
  /-- The result of the oldest step in flight. -/
  | output (m : ModelRunnerOutput)
  | updateDraftTokenIds (drafts : List (ReqId × List Token))
  | resetPrefixCache (resetRunning : Bool) (connectorResets : Option Bool)
  | setPauseState (p : PauseState)

namespace System

/-- A call that neither issues nor completes a step. -/
def client (cfg : SchedulerConfig H) (y : System H) (c : Call) : Except Fault (System H) := do
  let s ← y.s.call cfg c
  pure { y with s := s }

def step (cfg : SchedulerConfig H) (y : System H) : Event → Except Fault (System H)
  | .addRequest id q d => y.client cfg (.addRequest id q d)
  | .finishRequests ids st d => y.client cfg (.finishRequests ids st d)
  | .finishAllRequests st d => y.client cfg (.finishAllRequests st d)
  | .schedule env => do
      let (out, s) ← y.s.schedule cfg env
      pure ⟨s, y.inFlight ++ [⟨out, s⟩]⟩
  | .output m =>
    match y.inFlight with
    | [] => .error .indexError
    | i :: rest => do
        let (_, s) ← y.s.updateFromOutput cfg i.out m
        pure ⟨s, rest⟩
  | .updateDraftTokenIds ds => y.client cfg (.updateDraftTokenIds ds)
  | .resetPrefixCache b c => y.client cfg (.resetPrefixCache b c)
  | .setPauseState p => y.client cfg (.setPauseState p)

def run (cfg : SchedulerConfig H) : List Event → System H → Except Fault (System H)
  | [], y => .ok y
  | e :: es, y => do
      let y ← y.step cfg e
      run cfg es y

/-- The systems that events reach when each of them meets `P`. -/
inductive Reaches (cfg : SchedulerConfig H) (P : System H → Event → Prop) : System H → Prop
  | init (kv : KVState H) (encoder : EncoderCache) (numSpecTokens : ℕ)
      (objs : ReqId → Request H) : Reaches cfg P ⟨.init kv encoder numSpecTokens objs, []⟩
  | step {y y' : System H} {e : Event} (before : Reaches cfg P y) (meets : P y e)
      (stepped : y.step cfg e = .ok y') : Reaches cfg P y'

/-- Every event of a run meets `P` in the state in which it happens. -/
def Meets (cfg : SchedulerConfig H) (P : System H → Event → Prop) : List Event → System H → Prop
  | [], _ => True
  | e :: es, y => P y e ∧ match y.step cfg e with
      | .ok y' => Meets cfg P es y'
      | .error _ => True

instance decidableMeets (cfg : SchedulerConfig H) (P : System H → Event → Prop)
    [∀ y e, Decidable (P y e)] : ∀ (es : List Event) (y : System H), Decidable (Meets cfg P es y)
  | [], _ => isTrue trivial
  | e :: es, y =>
    haveI : Decidable (match y.step cfg e with
        | .ok y' => Meets cfg P es y'
        | .error _ => True) :=
      match y.step cfg e with
      | .ok y' => decidableMeets cfg P es y'
      | .error _ => isTrue trivial
    inferInstanceAs (Decidable (_ ∧ _))

variable {P : System H → Event → Prop} {y y' : System H}

theorem Reaches.run {es : List Event}
    (h : Reaches cfg P y) (meets : Meets cfg P es y) (hrun : System.run cfg es y = .ok y') :
    Reaches cfg P y' := by
  induction es generalizing y with
  | nil =>
    cases hrun
    exact h
  | cons e es ih =>
    obtain ⟨y₁, hstep, hrun⟩ := bind_eq_ok.1 hrun
    have hmeets := meets.2
    rw [hstep] at hmeets
    exact ih (.step h meets.1 hstep) hmeets hrun

theorem client_eq_ok {c : Call} (h : y.client cfg c = .ok y') :
    y.s.call cfg c = .ok y'.s ∧ y'.inFlight = y.inFlight := by
  obtain ⟨s, hs, h⟩ := bind_eq_ok.1 h
  cases h
  exact ⟨hs, rfl⟩

theorem step_schedule_eq_ok {env : ScheduleEnv} (h : y.step cfg (.schedule env) = .ok y') :
    ∃ out, y.s.schedule cfg env = .ok (out, y'.s) ∧ y'.inFlight = y.inFlight ++ [⟨out, y'.s⟩] := by
  obtain ⟨⟨out, s⟩, hs, h⟩ := bind_eq_ok.1 h
  cases h
  exact ⟨out, hs, rfl⟩

theorem step_output_eq_ok {m : ModelRunnerOutput} (h : y.step cfg (.output m) = .ok y') :
    ∃ i outputs, y.inFlight = i :: y'.inFlight ∧
      y.s.updateFromOutput cfg i.out m = .ok (outputs, y'.s) := by
  rw [step] at h
  split at h
  · cases h
  next i rest heq =>
  obtain ⟨⟨outputs, s⟩, hs, h⟩ := bind_eq_ok.1 h
  cases h
  exact ⟨i, outputs, heq, hs⟩

/-- **An event is a call**; a result is that of the oldest step in flight. -/
theorem call_of_step {e : Event} (h : y.step cfg e = .ok y') :
    ∃ c, y.s.call cfg c = .ok y'.s ∧ ∀ out m, c = .updateFromOutput out m →
      e = .output m ∧ ∃ i ∈ y.inFlight.head?, out = i.out := by
  have hclient {c : Call} (h : y.client cfg c = .ok y') := (client_eq_ok h).1
  cases e with
  | schedule env =>
    obtain ⟨out, hs, -⟩ := step_schedule_eq_ok h
    exact ⟨.schedule env, bind_eq_ok.2 ⟨(out, y'.s), hs, rfl⟩, by simp⟩
  | output m =>
    obtain ⟨i, outputs, hi, hs⟩ := step_output_eq_ok h
    refine ⟨.updateFromOutput i.out m, bind_eq_ok.2 ⟨(outputs, y'.s), hs, rfl⟩, ?_⟩
    rintro out m' ⟨⟩
    exact ⟨rfl, i, by simp [hi], rfl⟩
  | addRequest id q d => exact ⟨_, hclient h, by simp⟩
  | finishRequests ids st d => exact ⟨_, hclient h, by simp⟩
  | finishAllRequests st d => exact ⟨_, hclient h, by simp⟩
  | updateDraftTokenIds ds => exact ⟨_, hclient h, by simp⟩
  | resetPrefixCache b c => exact ⟨_, hclient h, by simp⟩
  | setPauseState p => exact ⟨_, hclient h, by simp⟩

/-- A run of the system is a run of the scheduler. -/
theorem Reaches.reachable (h : Reaches cfg P y) : Reachable cfg (fun _ _ => True) y.s := by
  induction h with
  | init kv encoder numSpecTokens objs => exact .init kv encoder numSpecTokens objs
  | step before meets stepped ih =>
    obtain ⟨c, hcall, -⟩ := call_of_step stepped
    exact .call ih trivial hcall

end System

/-! ## A small configuration -/

namespace Small

def kvConfig : KVCacheConfig := .small false 4 4

def group : Group := .small kvConfig (by decide) .fullAttention 0 false

/-- An asynchronous first-come-first-served scheduler. -/
def config : SchedulerConfig ℕ where
  policy := .fcfs
  asyncScheduling := true
  maxNumRunningReqs := 4
  maxNumScheduledTokens := 16
  maxNumBatchedTokens := 16
  maxModelLen := 64
  longPrefillTokenThreshold := 0
  enableChunkedPrefill := true
  schedulerReserveFullIsl := false
  draftSlots := 0
  numSampledTokensPerStep := 1
  numSpecTokens := 0
  numLookaheadTokens := 0
  numPrefillLookahead := 0
  dynamicSdLookup := none
  useEagle := false
  useV2ModelRunner := false
  ppSize := 1
  cacheBlockSize := 4
  blockSize := 4
  needMambaBlockAlignedSplit := false
  mambaPartialCacheHit := false
  isEncoderOnly := false
  encoder := ⟨false, false, false⟩
  maxNumEncoderInputTokens := 0
  maxLoras := none
  hasConnector := false
  isKvProducer := false
  supportsDivergentLocalHybridHits := false
  recomputeKvLoadFailures := true
  requiresKvDelivery := false
  needsKvCacheZeroing := false
  kv := kvConfig
  hasher := fun _ => []

/-- Three prompt tokens; token 9 ends the output. -/
def params : RequestParams where
  priority := 0
  arrivalTime := 0
  samplingParams := some ⟨0, some 9, [], none⟩
  pooling := false
  maxTokens := 8
  useStructuredOutput := false
  promptTokenIds := some [1, 2, 3]
  numPromptEmbeds := 0
  mmFeatures := []
  skipReadingPrefixCache := false
  resumable := false
  loraId := none

/-- Grammars are ready, connectors have nothing. -/
def env : ScheduleEnv where
  throttlePrefills := false
  grammar := fun _ => .ready
  matchedTokens := fun _ _ => (some 0, false)
  encoderAvailable := fun _ _ => true
  encoderRemote := fun _ => false

/-- The result of a step that samples the given tokens for every request. -/
def sampled (tokens : List Token) : ModelRunnerOutput where
  sampledTokenIds := fun _ => tokens
  poolerOutput := fun _ => false
  grammarRejects := fun _ _ => false
  kvConnectorOutput := none
  delaysFree := fun _ => false

def start : System ℕ where
  s := .init (.init kvConfig 10 [group] false) (.init 10) 0 fun _ => .ofParams params
  inFlight := []

def after (events : List Event) : System ℕ :=
  (System.run config events start).toOption.getD start

def startOf (cfg : SchedulerConfig ℕ) : System ℕ where
  s := .init (.init cfg.kv 10 [group] false) (.init 10) cfg.numSpecTokens fun _ => .ofParams params
  inFlight := []

/-- The state after some events in another configuration. -/
def afterOf (cfg : SchedulerConfig ℕ) (events : List Event) : System ℕ :=
  (System.run cfg events (startOf cfg)).toOption.getD (startOf cfg)

variable {P : System ℕ → Event → Prop} {events : List Event}

theorem reaches_afterOf {cfg : SchedulerConfig ℕ}
    (ok : (System.run cfg events (startOf cfg)).isOk = true)
    (meets : System.Meets cfg P events (startOf cfg)) : System.Reaches cfg P (afterOf cfg events) :=
  System.Reaches.run (.init _ _ _ _) meets (eq_ok_getD _ ok)

theorem reaches_after (ok : (System.run config events start).isOk = true)
    (meets : System.Meets config P events start) : System.Reaches config P (after events) :=
  System.Reaches.run (.init _ _ _ _) meets (eq_ok_getD _ ok)

end Small

end KVarN.Sched
