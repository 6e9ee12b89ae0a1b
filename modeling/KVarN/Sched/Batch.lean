import KVarN.Sched.Fate
import KVarN.Sched.Partition
import Mathlib.Algebra.BigOperators.Group.List.Basic

/-!
# What a batch contains

The budgets of a pass are what is left of the configured limits, also when a request
that was scheduled is preempted in the same pass. At the end of the pass the tokens of
the batch therefore keep the limits, every scheduled request has a token, and the draft
tokens of a request are those of its tokens that are not known yet.

The last statement needs that nothing is cut from a request after it was padded to a
decode with drafts.

## Main definitions

* `Pass.Budgeted` — the budgets are what is left of the limits.
* `Request.knownIn` — the tokens of a request that a step computes and that are no drafts.

## Main results

* `Reachable.schedule_wellFormed` — the shape of every batch.
* `Reachable.schedule_goesOn` — every step goes on where the requests stand.
-/

namespace KVarN.Sched

open KVarN.Lib KVarN.Core Scheduler Dict

section Batch

variable {H : Type} {cfg : SchedulerConfig H} {env : ScheduleEnv}

/-! ## Budgets -/

namespace Pass

/-- The tokens of a batch, each request with `extra` slots besides its own. -/
def load (d : Dict ReqId ℕ) (extra : ℕ) : ℕ := (d.values.map (· + extra)).sum

theorem load_set {d : Dict ReqId ℕ} {id : ReqId} (h : id ∉ d) (n extra : ℕ) :
    load (d.set id n) extra = load d extra + (n + extra) := by
  simp [load, values_set_of_notMem h]

theorem load_pop {d : Dict ReqId ℕ} {id : ReqId} {n : ℕ} (h : d.get? id = some n) (extra : ℕ) :
    load (d.pop id) extra + (n + extra) = load d extra := by
  have hperm := ((values_perm_pop h).map (· + extra)).sum_eq
  rw [load, load, hperm, List.map_cons, List.sum_cons, add_comm]

/-- The budgets are what is left of the limits. -/
structure Budgeted (cfg : SchedulerConfig H) (p : Pass H) : Prop where
  tokens : p.tokenBudget + load p.numScheduledTokens 0 ≤ cfg.maxNumScheduledTokens
  input : p.inputBudget + load p.numScheduledTokens cfg.draftSlots = cfg.maxNumBatchedTokens

variable {p p' : Pass H}

theorem Budgeted.start (s : Scheduler H) : Budgeted cfg (Pass.start cfg s) := by
  refine ⟨?_, ?_⟩
  · show (if s.pauseState = .pausedAll then 0 else (cfg.maxNumScheduledTokens : ℤ)) +
      load empty 0 ≤ _
    simp only [load, values_empty, List.map_nil, List.sum_nil]
    split <;> omega
  · simp [Pass.start, load]

/-- A preemption gives back what its victim was given. -/
theorem Budgeted.preemptVictim {v : ReqId} (h : Budgeted cfg p)
    (hp : p.preemptVictim cfg v = .ok p') : Budgeted cfg p' := by
  obtain ⟨p₁, s, hr, -, rfl⟩ := preemptVictim_eq_ok hp
  obtain ⟨-, -, hr⟩ | ⟨-, rfl⟩ := rescindVictim_eq_ok hr
  · simp only [rescind, bind_eq_ok, orRaise_eq_ok] at hr
    obtain ⟨n, hn, hr⟩ := hr
    cases hr
    have htokens := h.tokens
    have hinput := h.input
    have hpop := load_pop hn
    refine ⟨?_, ?_⟩
    · have := hpop 0
      simp only [dropRunning] at this ⊢
      omega
    · have := hpop cfg.draftSlots
      simp only [dropRunning] at this ⊢
      omega
  · exact ⟨h.tokens, h.input⟩

/-- A request that was not scheduled before takes its tokens out of the budgets. -/
theorem Budgeted.grant {id : ReqId} {n : ℕ} (h : Budgeted cfg p) (fresh : id ∉ p.numScheduledTokens)
    (tokens : p'.numScheduledTokens = p.numScheduledTokens.set id n)
    (tokenBudget : p'.tokenBudget = p.tokenBudget - n)
    (inputBudget : p'.inputBudget = p.inputBudget - (n + cfg.draftSlots)) : Budgeted cfg p' := by
  have htokens := h.tokens
  have hinput := h.input
  refine ⟨?_, ?_⟩
  · rw [tokens, tokenBudget, load_set fresh]
    omega
  · rw [tokens, inputBudget, load_set fresh]
    omega

variable [DecidableEq H]

theorem Budgeted.allocated {id : ReqId} {n : ℕ} {blocks : Option (List (List BlockId))}
    (h : Budgeted cfg p) (ha : Allocated cfg id n p blocks p') : Budgeted cfg p' :=
  ha.invariant (fun _ hp => ⟨hp.tokens, hp.input⟩) (fun hp _ hpre _ => hp.preemptVictim hpre) h

variable {deferPrefills : Bool} {s : Scheduler H}

theorem Budgeted.runningRound (h : Budgeted cfg p)
    (hr : RunningRound cfg env deferPrefills p p') : Budgeted cfg p' := by
  have hencoder (e : EncoderCache) : Budgeted cfg (p.setEncoder e) := ⟨h.tokens, h.input⟩
  cases hr with
  | idle => exact hencoder _
  | giveUp running fresh planned some_tokens allocated => exact (hencoder _).allocated allocated
  | schedule running fresh budget slots due planned some_tokens allocated committed =>
    have hp₁ := (hencoder _).allocated allocated
    cases allocated with
    | fits rounds fit =>
      obtain ⟨-, htokens, -⟩ := rounds.keeps
      have hfresh := get?_eq_none_iff.1 (htokens.trans (get?_eq_none_iff.2 fresh))
      obtain ⟨e, -, rfl⟩ := commitRunning_eq_ok committed
      exact hp₁.grant hfresh rfl rfl rfl

theorem Budgeted.waitingRound (h : Budgeted cfg p)
    (hp : Tracked cfg s deferPrefills p) (hr : WaitingRound cfg env deferPrefills p p') :
    Budgeted cfg p' := by
  obtain ⟨id, hid, hc⟩ := considered_of_waitingRound hr
  cases hc with
  | kept status computed boundary frame objs =>
    refine ⟨?_, ?_⟩
    · rw [frame.tokens, frame.tokenBudget]
      exact h.tokens
    · rw [frame.tokens, frame.inputBudget]
      exact h.input
  | started delivered admits computed objs grants =>
    have hfresh : id ∉ p.numScheduledTokens := fun hk =>
      hp.exclusive.not_running hid (hp.scheduled id hk)
    exact h.grant hfresh grants.tokens grants.tokenBudget grants.inputBudget

theorem Rounds.budgeted (h : Rounds cfg env s p) (hx : s.queues.Exclusive) : Budgeted cfg p :=
  (h.tracked_and hx rfl (.start s) (fun _ hp hr => hp.runningRound hr)
    (fun _ hp => ⟨hp.tokens, hp.input⟩) (fun hq hp hr => hp.waitingRound hq hr)
    fun hp => ⟨hp.tokens, hp.input⟩).2

end Pass

/-! ## Draft tokens -/

/-- The known tokens among the `n` tokens that end at position `stop`: those of the request
and, while it runs, the ones that steps in flight will append. -/
def Request.knownIn (r : Request H) (stop : ℤ) (n : ℕ) : ℤ :=
  max 0 (min n (r.numTokens + (if r.status = .running then r.numOutputPlaceholders else 0)
    - (stop - n)))

/-- Nothing is cut from a request after its drafts were chosen. -/
structure Request.DraftsWhole (cfg : SchedulerConfig H) (r : Request H) : Prop where
  posed : r.WellPosed cfg
  ahead : r.status = .running → r.numComputedTokens ≤ r.numTokens + r.numOutputPlaceholders
  pads : r.status ≠ .running → r.PadsWhole cfg

variable {r r' : Request H} {n step : ℕ} {drafts : List Token} {defer : Bool} {preempting : Prop}
  {tokens : Option ℕ}

theorem Request.length_draftsIn (hn : (n : ℤ) ≤ r.asked) (h : r.draftsIn n = some drafts) :
    (drafts.length : ℤ) =
      n - (r.numTokens + r.numOutputPlaceholders - r.numComputedTokens) ∧ 0 < drafts.length := by
  rw [draftsIn] at h
  split at h
  · next hk =>
    cases h
    rw [asked, numTokensWithSpec] at hn
    rw [numTokens] at hk ⊢
    rw [List.length_take]
    omega
  · cases h

theorem Scheduler.afterSchedule_numComputedTokens (out : SchedulerOutput) (kv : KVState H)
    (c n : ℕ) (id : ReqId) (r : Request H) :
    (afterSchedule cfg out kv c id n r).numComputedTokens = r.numComputedTokens + n := by
  rw [afterSchedule]
  split
  · rw [expect]
    split <;> rfl
  · rfl

theorem Fate.tokens_pos {drafts : Option (List Token)}
    (h : Fate cfg step defer preempting r tokens drafts r') (ht : tokens = some n) : 0 < n := by
  cases h with
  | untouched idle | preempted idle | considered idle => simp [idle] at ht
  | scheduled granted pos =>
    rw [granted] at ht
    cases ht
    exact pos
  | admitted granted queued delivered admits =>
    rw [granted] at ht
    cases ht
    exact_mod_cast admits.pos

/-- **The draft tokens of a request are those of its tokens that are not known yet.** -/
theorem Fate.length_drafts
    (h : Fate cfg step defer preempting r tokens (some drafts) r') (hr : r.DraftsWhole cfg) :
    ∃ n, tokens = some n ∧ (drafts.length : ℤ) = n - r.knownIn (r'.numComputedTokens + n) n := by
  cases h with
  | untouched idle no_drafts => cases no_drafts
  | preempted idle no_drafts => cases no_drafts
  | considered idle no_drafts => cases no_drafts
  | @scheduled n granted pos running due asked fits taken cleared =>
    refine ⟨n, granted, ?_⟩
    obtain ⟨hlen, hpos⟩ := Request.length_draftsIn (asked hr.posed) taken.symm
    have hahead := hr.ahead running
    have hcomputed : r'.numComputedTokens = r.numComputedTokens := by
      rw [cleared]
      rfl
    rw [Request.knownIn, if_pos running, hcomputed]
    omega
  | @admitted n b c pad granted queued delivered admits padded kept rechecked =>
    refine ⟨n, granted, ?_⟩
    have hpad : pad = true := by
      cases pad with
      | true => rfl
      | false => cases padded
    obtain ⟨hone, -, hwhole⟩ := admits.padded hpad
    have hn := hwhole hr.posed (hr.pads queued)
    rw [if_pos hpad] at padded
    cases padded
    have hcomputed : r'.numComputedTokens = c := by
      rw [rechecked]
      rfl
    rw [Request.knownIn, if_neg queued, hcomputed, List.length_replicate]
    omega

/-- **The shape of every batch.** It keeps the limits, every scheduled request has a token,
and the drafts of a request from which nothing is cut are those of its scheduled tokens
that are not known yet. -/
theorem Reachable.schedule_wellFormed [DecidableEq H] {P : Scheduler H → Call → Prop}
    {s s' : Scheduler H} {out : SchedulerOutput} (hs : Reachable cfg P s)
    (h : s.schedule cfg env = .ok (out, s')) :
    out.totalNumScheduledTokens ≤ cfg.maxNumScheduledTokens ∧
    (out.numScheduledTokens.values.map (· + cfg.draftSlots)).sum ≤ cfg.maxNumBatchedTokens ∧
    (∀ id n, out.numScheduledTokens.get? id = some n → 0 < n) ∧
    ∀ id drafts, out.scheduledSpecDecodeTokens.get? id = some drafts →
      (s.objs id).DraftsWhole cfg → ∃ n, out.numScheduledTokens.get? id = some n ∧
        (drafts.length : ℤ) = n - (s.objs id).knownIn (s'.objs id).numComputedTokens n := by
  have hx := hs.exclusive
  have hfate := schedule_fate hx h
  obtain ⟨p, hrounds, hfin⟩ :=
    schedule_eq_ok (Multiset.coe_nodup.1 (Multiset.nodup_add.1 hx.once).1) h
  have hbudget := hrounds.budgeted hx
  obtain ⟨d, numSpec, inflight, placeholders, hcheck, -, -, hout, -, -⟩ := Pass.finish_eq_ok hfin
  have htokens : out.numScheduledTokens = p.numScheduledTokens := by
    rw [hout]
    rfl
  simp only [Pass.checkBudgets, assert_eq_ok] at hcheck
  refine ⟨?_, ?_, fun id n hn => ?_, fun id drafts hdrafts hr => ?_⟩
  · rw [SchedulerOutput.totalNumScheduledTokens, htokens]
    exact hcheck.1
  · have hinput := hbudget.input
    rw [Pass.load] at hinput
    rw [htokens]
    omega
  · obtain ⟨-, r, hr, -⟩ := hfate id
    rw [hn] at hr
    exact hr.tokens_pos rfl
  · obtain ⟨-, r, hfate, hobjs⟩ := hfate id
    rw [hdrafts] at hfate
    obtain ⟨n, hn, hlen⟩ := hfate.length_drafts hr
    rw [hn] at hobjs
    exact ⟨n, hn, by rw [hobjs, afterSchedule_numComputedTokens]; exact hlen⟩

/-! ## Positions -/

/-- A request that is given tokens is computed from its computed tokens on, or from a cached start
if it has none and waits; one that is not keeps them, or is preempted. -/
def Request.GoesOn (r : Request H) (tokens : Option ℕ) (r' : Request H) : Prop :=
  (∃ n c, tokens = some n ∧ 0 < n ∧ r'.numComputedTokens = c + n ∧ (c = r.numComputedTokens ∨
    r.status ≠ .running ∧ r.numComputedTokens = 0 ∧ 0 ≤ c)) ∨
  tokens = none ∧ (r'.numComputedTokens = r.numComputedTokens ∨
    r.status = .running ∧ r'.status = .preempted ∧ r'.numComputedTokens = 0)

/-- **Every step goes on where the requests stand**, in runs without a connector. -/
theorem Reachable.schedule_goesOn [DecidableEq H] {P : Scheduler H → Call → Prop}
    {s s' : Scheduler H} {out : SchedulerOutput} (hs : Reachable cfg P s)
    (hcfg : cfg.hasConnector = false) (h : s.schedule cfg env = .ok (out, s')) (id : ReqId) :
    (s.objs id).GoesOn (out.numScheduledTokens.get? id) (s'.objs id) := by
  obtain ⟨-, r, hfate, hobjs⟩ := schedule_fate hs.exclusive h id
  generalize out.numScheduledTokens.get? id = tokens at hfate hobjs ⊢
  cases hfate with
  | scheduled granted pos running due asked fits taken cleared =>
    subst granted cleared
    exact .inl ⟨_, _, rfl, pos, by rw [hobjs, afterSchedule_numComputedTokens]; rfl, .inl rfl⟩
  | admitted granted queued delivered admits padded kept rechecked =>
    subst granted rechecked
    obtain ⟨hle, hc⟩ := kept hcfg
    refine .inl ⟨_, _, rfl, by exact_mod_cast admits.pos,
      by rw [hobjs, afterSchedule_numComputedTokens], ?_⟩
    by_cases hzero : (s.objs id).numComputedTokens = 0
    · exact .inr ⟨queued, hzero, hzero ▸ hle⟩
    · exact .inl (hc hzero)
  | untouched idle no_drafts same =>
    subst idle same
    exact .inr ⟨rfl, .inl (by rw [hobjs])⟩
  | preempted idle no_drafts running some_preempted back =>
    subst idle back
    exact .inr ⟨rfl, .inr ⟨running, by rw [hobjs]; rfl, by rw [hobjs]; rfl⟩⟩
  | considered idle no_drafts queued not_running kept boundary rechecked =>
    subst idle rechecked
    exact .inr ⟨rfl, .inl (by rw [hobjs]; exact kept hcfg)⟩

end Batch

/-! ### A padded admission, and one that is cut -/

namespace Small

def drafting : SchedulerConfig ℕ := { config with numSpecTokens := 3 }

/-- Three draft tokens and prefills of at most two tokens. -/
def draftingCut : SchedulerConfig ℕ := { drafting with longPrefillTokenThreshold := 2 }

/-- A request of one token starts, and another one arrives. -/
def oneTokenEach : List Event :=
  [.addRequest 0 { params with promptTokenIds := some [1] } fun _ => false, .schedule env,
    .addRequest 1 { params with promptTokenIds := some [1] } fun _ => false]

/-- What the next batch gives a request after some events: its tokens, its drafts and how
many of its tokens are known. -/
def givenAfter (cfg : SchedulerConfig ℕ) (events : List Event) (id : ReqId) :
    Option (Option ℕ × Option (List Token) × ℤ) :=
  match (afterOf cfg events).s.schedule cfg env with
  | .error _ => none
  | .ok (out, s') => some (out.numScheduledTokens.get? id, out.scheduledSpecDecodeTokens.get? id,
      ((afterOf cfg events).s.objs id).knownIn (s'.objs id).numComputedTokens
        ((out.numScheduledTokens.get? id).getD 0))

end Small

open KVarN.Sched.Small

theorem schedule_wellFormed_padded : givenAfter drafting oneTokenEach 1 =
      some (some 4, some [-1, -1, -1], 1) ∧
    ∃ out s' n, (afterOf drafting oneTokenEach).s.schedule drafting env
        = .ok (out, s') ∧ out.numScheduledTokens.get? 1 = some n ∧
      ((3 : ℕ) : ℤ) = n - ((afterOf drafting oneTokenEach).s.objs 1).knownIn
        (s'.objs 1).numComputedTokens n := by
  have hgiven : givenAfter drafting oneTokenEach 1 =
      some (some 4, some [-1, -1, -1], 1) := by decide +kernel
  refine ⟨hgiven, ?_⟩
  have hreach : System.Reaches drafting (fun _ _ => True)
      (afterOf drafting oneTokenEach) :=
    reaches_afterOf (by decide +kernel) (by decide +kernel)
  have hitems : ((afterOf drafting oneTokenEach).s.objs 1).mmFeatures = [] := by
    decide +kernel
  have hstatus : ((afterOf drafting oneTokenEach).s.objs 1).status = .waiting := by
    decide +kernel
  have hwhole : ((afterOf drafting oneTokenEach).s.objs 1).DraftsWhole
      drafting := by
    refine ⟨⟨?_, by decide⟩, fun hrun => ?_, fun _ => ⟨by decide, fun hneed => ?_, ?_⟩⟩
    · rw [Request.FeaturesSorted, hitems]
      exact .nil
    · rw [hstatus] at hrun
      cases hrun
    · cases hneed
    · rw [hitems]
      exact fun f hf => by cases hf
  rw [givenAfter] at hgiven
  split at hgiven
  · cases hgiven
  next out s' hsched =>
  simp only [Option.some.injEq, Prod.mk.injEq] at hgiven
  obtain ⟨n, hn, hlen⟩ := (Reachable.schedule_wellFormed hreach.reachable hsched).2.2.2 1 _
    hgiven.2.1 hwhole
  exact ⟨out, s', n, hsched, hn, hlen⟩

theorem padding_cut : System.run draftingCut oneTokenEach (startOf draftingCut) =
      .ok (afterOf draftingCut oneTokenEach) ∧ givenAfter draftingCut oneTokenEach 1 =
      some (some 2, some [-1, -1, -1], 1) :=
  ⟨eq_ok_getD _ (by decide +kernel), by decide +kernel⟩

theorem schedule_goesOn_padded : ∃ out s', (afterOf drafting oneTokenEach).s.schedule drafting env
      = .ok (out, s') ∧ ((afterOf drafting oneTokenEach).s.objs 1).GoesOn
        (out.numScheduledTokens.get? 1) (s'.objs 1) := by
  have hreach : System.Reaches drafting (fun _ _ => True) (afterOf drafting oneTokenEach) :=
    reaches_afterOf (by decide +kernel) (by decide +kernel)
  have hok : ((afterOf drafting oneTokenEach).s.schedule drafting env).isOk = true := by
    decide +kernel
  rcases h : (afterOf drafting oneTokenEach).s.schedule drafting env with _ | ⟨out, s'⟩
  · simp [h, Except.isOk, Except.toBool] at hok
  · exact ⟨out, s', rfl, Reachable.schedule_goesOn hreach.reachable rfl h 1⟩

end KVarN.Sched
