import KVarN.Worker.Constraints
import KVarN.Worker.LogitsProcessors

/-!
# The thinking budget of a request

`ThinkingBudgetStateHolder` keeps an entry for each row whose request has a thinking budget.
Entries are created, dropped and moved by `sync_batch`, and changed in place, row by row, when
tokens are sampled. What an entry goes through between two calls of `sync_batch` is arbitrary
here, except that it depends on the request of its row and on the entry.

Next to the holder stand the entries by request: an entry is created for a request that is
added and dropped when the request is removed. The holder refines them, unless `condense` moves
a request without a budget into the row of one with a budget that was removed in the same step:
there is no entry to move then, and the one in the row stays.

## Main definitions

* `ThinkingBudgetStateHolder.syncBatch` — the changes of a step.
* `ThinkingBudgetStateHolder.entriesAfter` — the entries by request.
* `BudgetMeets` — no request is moved onto a stale entry.

## Main results

* `budget_follows_request` — the holder has the entries of the requests in the rows.
* `budget_stays_behind` — a request without a budget gets the entry of another one.
-/

namespace KVarN.Worker

open KVarN.Lib InputBatch Dict RowUpdate
open KVarN.Core (Fault)

/-- An entry of the holder. -/
structure ThinkState where
  inThink : Bool
  inEnd : Bool
  checkCountDown : ℤ
  thinkCount : ℤ
  endCount : ℕ
  promptTokIds : Option (List ℤ)
  outputTokIds : ListObject
  thinkingTokenBudget : ℤ
  prevOutputLength : ℕ
  specTokenIds : List ℤ
  forceIndex : List ℤ
  startThinking : ℤ
  endThinking : ℤ
  inSpecMode : Bool
  bonusTokenForced : Bool
  continueThinking : Bool
  scanOffset : ℕ
  deriving DecidableEq

/-- `_find_last_sequence_index`. -/
def findLastSequenceIndex (targetList tokenIds : List ℤ) : ℤ :=
  if tokenIds = [] then -1
  else
    ((List.range (targetList.length + 1 - tokenIds.length)).reverse.find? fun i =>
      (targetList.drop i).take tokenIds.length = tokenIds).elim (-1) fun i => (i : ℤ)

/-- `ThinkingBudgetStateHolder`; it is there if reasoning is configured. -/
structure ThinkingBudgetStateHolder where
  thinkStartTokenIds : List ℤ
  thinkEndTokenIds : List ℤ
  state : Dict ℕ ThinkState

namespace ThinkingBudgetStateHolder

/-- `_init_state_entry`, with the output list that `sync_batch` sets right after it. -/
def initStateEntry (thinkStartTokenIds thinkEndTokenIds : List ℤ)
    (promptTokIds : Option (List ℤ)) (budget : ℕ) (outputTokIds : ListObject) : ThinkState :=
  let prompt := promptTokIds.getD []
  let lastStart := promptTokIds.elim (-1) (findLastSequenceIndex · thinkStartTokenIds)
  let lastEnd := promptTokIds.elim (-1) (findLastSequenceIndex · thinkEndTokenIds)
  let inThink : Bool := lastEnd < lastStart
  let thinkCount : ℤ :=
    if inThink then prompt.length - (lastStart + thinkStartTokenIds.length) else 0
  { inThink := inThink
    inEnd := inThink ∧ budget - thinkCount ≤ 0
    checkCountDown := budget - thinkCount
    thinkCount := thinkCount
    endCount := 0
    promptTokIds := promptTokIds
    outputTokIds := outputTokIds
    thinkingTokenBudget := budget
    prevOutputLength := 0
    specTokenIds := []
    forceIndex := []
    startThinking := if inThink then prompt.length - thinkCount - 1 else -1
    endThinking := -1
    inSpecMode := false
    bonusTokenForced := false
    continueThinking := inThink
    scanOffset := 0 }

/-- The entry of a request, if it has a budget. -/
def newEntry (thinkStartTokenIds thinkEndTokenIds : List ℤ) (a : AddedRequest) :
    Option ThinkState :=
  a.params.thinkingTokenBudget.map fun budget =>
    initStateEntry thinkStartTokenIds thinkEndTokenIds a.promptTokIds budget a.outputTokIds

/-- `sync_batch`, a row that was moved: an entry that is not there is not moved. -/
def moveState (d : Dict ℕ ThinkState) : RowMove → Dict ℕ ThinkState
  | .oneWay i₁ i₂ => setEntry (d.pop i₁) i₂ (d.get? i₁)
  | .swap i₁ i₂ => setEntry (setEntry ((d.pop i₁).pop i₂) i₂ (d.get? i₁)) i₁ ((d.pop i₁).get? i₂)

/-- `sync_batch`: removals, additions, moves. -/
def syncBatch (h : ThinkingBudgetStateHolder) : Option BatchUpdate → ThinkingBudgetStateHolder
  | none => h
  | some u =>
    let state := u.removed.foldl pop h.state
    let state :=
      u.added.foldl (addEntry (newEntry h.thinkStartTokenIds h.thinkEndTokenIds)) state
    { h with state := u.moved.foldl moveState state }

/-- `update_state` and `apply_to_logits` change entries in place: the one of a row by what was
sampled for the request in the row. -/
def updateState (h : ThinkingBudgetStateHolder) (b : InputBatch)
    (think : ReqId → ThinkState → ThinkState) : ThinkingBudgetStateHolder :=
  { h with state := h.state.mapValues fun i e => (b.idAt i).elim e fun id => think id e }

/-- Steps of a batch with its holder. Before each step tokens are sampled. -/
def run (cfg : BatchConfig) : List ((ReqId → ThinkState → ThinkState) × BatchStep) →
    InputBatch → ThinkingBudgetStateHolder → Except Fault (InputBatch × ThinkingBudgetStateHolder)
  | [], b, h => .ok (b, h)
  | (think, s) :: steps, b, h => do
      let h := h.updateState b think
      let (u, b) ← b.step cfg s
      run cfg steps b (h.syncBatch u)

/-! ## The entries by request -/

variable {cfg : BatchConfig} {T : Tenants} {b : InputBatch} {h : ThinkingBudgetStateHolder}
  {S : ReqId → Option ThinkState} {s : BatchStep}

/-- The entries by request after a sequence of steps: created when a request is added, dropped
when it is removed, and changed by what was sampled for it. -/
def entriesAfter (new : AddedRequest → Option ThinkState) :
    List ((ReqId → ThinkState → ThinkState) × BatchStep) → (ReqId → Option ThinkState) →
    ReqId → Option ThinkState
  | [], S => S
  | (think, s) :: steps, S =>
    entriesAfter new steps (s.ops.foldl (nextValues none new) fun id => (S id).map (think id))

/-- The budget of a request of the batch. -/
def budgetOf (T : Tenants) (id : ReqId) : Option ℕ :=
  ((T id).bind fun t => addedOf t.request).bind fun a => a.params.thinkingTokenBudget

/-- The requests with an entry are those with a budget. -/
def Tracks (T : Tenants) (S : ReqId → Option ThinkState) : Prop :=
  ∀ id, S id = none ↔ budgetOf T id = none

theorem newEntry_eq_none {start stop : List ℤ} {a : AddedRequest} :
    newEntry start stop a = none ↔ a.params.thinkingTokenBudget = none :=
  Option.map_eq_none_iff

/-- Operations keep track of the budgets. -/
theorem Tracks.foldl {new : AddedRequest → Option ThinkState} (hT : Tracks T S)
    (hnew : ∀ a, new a = none ↔ a.params.thinkingTokenBudget = none) (ops : List BatchOp) :
    Tracks (ops.foldl nextTenants T) (ops.foldl (nextValues none new) S) := by
  induction ops generalizing T S with
  | nil => exact hT
  | cons op ops ih =>
    refine ih fun id => ?_
    have hid := hT id
    rw [budgetOf] at hid ⊢
    cases op with
    | add r =>
      simp only [nextValues, nextTenants, Function.update_apply]
      split_ifs
      · rw [Option.bind_some]
        rcases addedOf r with _ | a
        · simp
        · exact hnew a
      · exact hid
    | remove id' =>
      simp only [nextValues, nextTenants, Function.update_apply]
      split_ifs
      · simp
      · exact hid
    | spec id' tokens =>
      simp only [nextValues, nextTenants, Function.update_apply]
      split_ifs with heq
      · rw [hid, heq]
        rcases T id' with _ | t <;> rfl
      · exact hid
    | condense => exact hid
    | swap i j => exact hid

/-! ## The holder -/

theorem get?_moveState {d : Dict ℕ ThinkState} {m : RowMove} (hm : m.Proper) :
    (moveState d m).get? = m.applySparse d.get? := by
  cases m with
  | oneWay a b =>
    have hab : a ≠ b := hm
    funext k
    simp only [moveState, RowMove.applySparse, get?_setEntry, get?_pop]
    by_cases hnone : d.get? a = none
    · by_cases hkb : k = b
      · simp [hnone, hkb, hab.symm]
      · by_cases hka : k = a <;> simp [hnone, hkb, hka, hab]
    · obtain ⟨e, he⟩ := Option.ne_none_iff_exists'.1 hnone
      by_cases hkb : k = b
      · simp [RowMove.apply, he, hkb, hab.symm]
      · by_cases hka : k = a <;> simp [RowMove.apply, he, hkb, hka, hab]
  | swap a b => exact get?_moveEntry (m := .swap a b) trivial

/-- **The changes of a step** are those of a sparse table. -/
theorem get?_syncBatch {u : Option BatchUpdate} (hu : ∀ u' ∈ u, ∀ m ∈ u'.moved, m.Proper) :
    (h.syncBatch u).state.get? = replayUpdate (newEntry h.thinkStartTokenIds h.thinkEndTokenIds)
      sync u h.state.get? := by
  rcases u with _ | ⟨n, removed, added, moved⟩
  · rfl
  have hmoves : ∀ {moved : List RowMove} {d : Dict ℕ ThinkState}, (∀ m ∈ moved, m.Proper) →
      (moved.foldl moveState d).get? = syncMoves moved d.get? := by
    intro moved d hmoved
    induction moved generalizing d with
    | nil => rfl
    | cons m moved ih =>
      rw [List.foldl_cons, ih fun q hq => hmoved q (List.mem_cons_of_mem m hq),
        get?_moveState (hmoved m List.mem_cons_self)]
      rfl
  simp only [syncBatch, replayUpdate, Option.elim, sync, rowUpdate]
  rw [hmoves (hu _ rfl), get?_foldl_addEntry, get?_foldl_pop]

theorem config_syncBatch (u : Option BatchUpdate) :
    (h.syncBatch u).thinkStartTokenIds = h.thinkStartTokenIds ∧
      (h.syncBatch u).thinkEndTokenIds = h.thinkEndTokenIds := by
  rcases u with _ | u <;> exact ⟨rfl, rfl⟩

/-- **Sampling** changes the entries by request. -/
theorem get?_updateState (think : ReqId → ThinkState → ThinkState)
    (hrows : h.state.get? = b.rowValues none S) :
    (h.updateState b think).state.get? = b.rowValues none fun id => (S id).map (think id) := by
  funext i
  rw [updateState, get?_mapValues, hrows, rowValues, rowValues]
  rcases b.idAt i with _ | id <;> rfl

/-- A request that is moved has a budget, or the request that was in the row before the step had
none. -/
def NoStale (T : Tenants) (b : InputBatch) (s : BatchStep) (c : InputBatch) (last empty : ℕ) :
    Prop :=
  ∀ id ∈ c.idAt last, budgetOf (s.early.foldl nextTenants T) id ≠ none ∨
    ∀ id₀ ∈ b.idAt empty, budgetOf T id₀ = none

instance (T : Tenants) (b : InputBatch) (s : BatchStep) (c : InputBatch) (last empty : ℕ) :
    Decidable (NoStale T b s c last empty) :=
  inferInstanceAs (Decidable (∀ id ∈ c.idAt last, _))

/-- An operation of a step does not move a request onto a stale entry. -/
def OpMeets (cfg : BatchConfig) (T : Tenants) (b : InputBatch) (s : BatchStep) (c : InputBatch) :
    BatchOp → Prop
  | .condense => CondenseMeets cfg (NoStale T b s) c
  | op => c.Meets cfg op

theorem OpMeets.meets {c : InputBatch} {op : BatchOp} (hop : OpMeets cfg T b s c op) :
    c.Meets cfg op := by
  cases op with
  | condense => exact trivial
  | add r => exact hop
  | remove id => exact hop
  | spec id tokens => exact hop
  | swap i j => exact hop

instance (T : Tenants) (b : InputBatch) (s : BatchStep) (c : InputBatch) (op : BatchOp) :
    Decidable (OpMeets cfg T b s c op) :=
  match op with
  | .condense => inferInstanceAs (Decidable (CondenseAll cfg (NoStale T b s) _ _ _))
  | .add r => inferInstanceAs (Decidable (c.Meets cfg (.add r)))
  | .remove id => inferInstanceAs (Decidable (c.Meets cfg (.remove id)))
  | .spec id tokens => inferInstanceAs (Decidable (c.Meets cfg (.spec id tokens)))
  | .swap i j => inferInstanceAs (Decidable (c.Meets cfg (.swap i j)))

/-- **No request is moved onto a stale entry** in a sequence of steps. -/
def BudgetMeets (cfg : BatchConfig) : List BatchStep → Tenants → InputBatch → Prop
  | [], _, _ => True
  | s :: steps, T, b => AllMeet cfg (OpMeets cfg T b s) s.ops b ∧
      ∀ r ∈ (b.step cfg s).toOption, BudgetMeets cfg steps (s.ops.foldl nextTenants T) r.2

instance decidableBudgetMeets (cfg : BatchConfig) : (steps : List BatchStep) → (T : Tenants) →
    (b : InputBatch) → Decidable (BudgetMeets cfg steps T b)
  | [], _, _ => inferInstanceAs (Decidable True)
  | s :: steps, T, b =>
    let _ := decidableBudgetMeets cfg steps (s.ops.foldl nextTenants T)
    inferInstanceAs (Decidable (_ ∧ ∀ r ∈ (b.step cfg s).toOption, _))

section

variable (hsampling : cfg.isPoolingModel = false) (hT : Tracks T S)
  (hrows : h.state.get? = b.rowValues none S) (hs : b.Seated cfg T) (hpacked : b.Packed)
  (hfresh : b.batchUpdateBuilder = {})

include hsampling hT hrows hs hpacked hfresh

/-- **A step** keeps the entries with their requests. -/
theorem Tracks.step (hmeet : AllMeet cfg (OpMeets cfg T b s) s.ops b) :
    ∃ u b', b.step cfg s = .ok (u, b') ∧ b'.Seated cfg (s.ops.foldl nextTenants T) ∧
      b'.Packed ∧ b'.batchUpdateBuilder = {} ∧
      (h.syncBatch u).state.get? = b'.rowValues none (s.ops.foldl
        (nextValues none (newEntry h.thinkStartTokenIds h.thinkEndTokenIds)) S) := by
  have hearly : Tracks (s.early.foldl nextTenants T) (s.early.foldl
      (nextValues none (newEntry h.thinkStartTokenIds h.thinkEndTokenIds)) S) :=
    hT.foldl (fun _ => newEntry_eq_none) s.early
  obtain ⟨u, b', hstep, hs', hpacked', hfresh', hreplay, hu⟩ := hs.step_replays (V := S)
    replays_sync hsampling hpacked hfresh
    (P := OpMeets cfg T b s) (fun c op hop => hop.meets)
    (fun c hop => CondenseAll.mono hop fun c last empty hq id hid => by
      rcases hq id hid with hbudget | hnone
      · exact Or.inl (mt (hearly id).1 hbudget)
      · refine Or.inr ?_
        rw [rowValues]
        rcases hat : b.idAt empty with _ | id₀
        · rfl
        · exact (hT id₀).2 (hnone id₀ hat))
    hmeet
  refine ⟨u, b', hstep, hs', hpacked', hfresh', ?_⟩
  rw [get?_syncBatch fun u' hu' => (hu u' hu').1, hrows, hreplay]

/-- **A sequence of steps** keeps the entries with their requests. -/
theorem Tracks.run {steps : List ((ReqId → ThinkState → ThinkState) × BatchStep)}
    (hmeet : BudgetMeets cfg (steps.map Prod.snd) T b) :
    ∃ b' h' S', ThinkingBudgetStateHolder.run cfg steps b h = .ok (b', h') ∧
      S' = entriesAfter (newEntry h.thinkStartTokenIds h.thinkEndTokenIds) steps S ∧
      Tracks (tenantsAfter (steps.map Prod.snd) T) S' ∧
      b'.Seated cfg (tenantsAfter (steps.map Prod.snd) T) ∧ b'.Packed ∧
      h'.state.get? = b'.rowValues none S' := by
  induction steps generalizing T S b h with
  | nil => exact ⟨b, h, S, rfl, rfl, hT, hs, hpacked, hrows⟩
  | cons st steps ih =>
    obtain ⟨think, s⟩ := st
    have hthink : Tracks T fun id => (S id).map (think id) := by
      intro id
      rw [← hT id, Option.map_eq_none_iff]
    obtain ⟨u, b₁, hstep, hs₁, hpacked₁, hfresh₁, hrows₁⟩ := hthink.step
      (h := h.updateState b think) hsampling (get?_updateState think hrows) hs hpacked hfresh
      hmeet.1
    have hT₁ : Tracks (s.ops.foldl nextTenants T) (s.ops.foldl
        (nextValues none (newEntry h.thinkStartTokenIds h.thinkEndTokenIds))
        fun id => (S id).map (think id)) :=
      hthink.foldl (fun _ => newEntry_eq_none) s.ops
    obtain ⟨b', h', S', hrun, hS', hfinal⟩ := ih hT₁ hrows₁ hs₁ hpacked₁ hfresh₁
      (hmeet.2 _ (by rw [hstep]; rfl))
    rw [List.map_cons, tenantsAfter_cons]
    refine ⟨b', h', S', ?_, ?_, hfinal⟩
    · rw [ThinkingBudgetStateHolder.run]
      simp only [hstep, ok_bind]
      exact hrun
    · rw [hS', (config_syncBatch u).1, (config_syncBatch u).2]
      rfl

end

end ThinkingBudgetStateHolder

open ThinkingBudgetStateHolder

/-- **The budget follows its request.** After every sequence of steps in which no request is
moved onto a stale entry, the holder has an entry for a row exactly if the request in the row
has a budget, and it is the one that was created for this request and was changed since by what
was sampled for it. -/
theorem budget_follows_request (cfg : BatchConfig) (hsampling : cfg.isPoolingModel = false)
    (thinkStartTokenIds thinkEndTokenIds : List ℤ)
    (steps : List ((ReqId → ThinkState → ThinkState) × BatchStep))
    (hmeet : BudgetMeets cfg (steps.map Prod.snd) (fun _ => none) (init cfg)) :
    ∃ b h S, run cfg steps (init cfg) ⟨thinkStartTokenIds, thinkEndTokenIds, empty⟩ = .ok (b, h) ∧
      S = entriesAfter (newEntry thinkStartTokenIds thinkEndTokenIds) steps (fun _ => none) ∧
      (∀ i id, b.reqIds[i]? = some (some id) → h.state.get? i = S id ∧ (h.state.get? i = none ↔
          budgetOf (tenantsAfter (steps.map Prod.snd) fun _ => none) id = none)) ∧
      ∀ i, b.numReqs ≤ i → h.state.get? i = none := by
  have hstart : Tracks (fun _ => none) fun _ => none := fun id => ⟨fun _ => rfl, fun _ => rfl⟩
  obtain ⟨b, h, S, hrun, hS, hT, hs, hpacked, hrows⟩ := hstart.run
    (h := ⟨thinkStartTokenIds, thinkEndTokenIds, empty⟩) hsampling rfl (seated_init cfg)
    (fun i hi => absurd hi (Nat.not_lt_zero i)) rfl hmeet
  have hnum := hs.numReqs_of_packed hpacked
  refine ⟨b, h, S, hrun, hS, fun i id hi => ?_, fun i hi => ?_⟩
  · have hvalue : h.state.get? i = S id := by
      rw [hrows, rowValues, getElem?_eq_some_some.1 hi]
      rfl
    exact ⟨hvalue, by rw [hvalue]; exact hT id⟩
  · rw [hrows, rowValues, idAt, List.getD_eq_default _ _ (hnum ▸ hi)]
    rfl

/-- A request with a budget leaves after another one has joined. -/
def firstLeaves (budget : ℕ) (params : SamplingParams) :
    List ((ReqId → ThinkState → ThinkState) × BatchStep) :=
  [(fun _ e => e, ⟨[], [.inl (smallRequest 0 { thinkingTokenBudget := some budget }),
      .inl (smallRequest 1 params)], []⟩),
    (fun _ e => { e with thinkCount := 1 }, ⟨[0], [], []⟩)]

/-- A request with a budget moves into the row of another one with a budget. -/
theorem budget_follows_request_two :
    ∃ b h, run smallConfig (firstLeaves 5 { thinkingTokenBudget := some 7 })
        (init smallConfig) ⟨[8], [9], empty⟩ = .ok (b, h) ∧
      (h.state.get? 0).map ThinkState.thinkingTokenBudget = some 7 ∧ h.state.get? 1 = none := by
  obtain ⟨b, h, S, hrun, rfl, hrows, hrest⟩ := budget_follows_request smallConfig rfl [8] [9]
    (firstLeaves 5 { thinkingTokenBudget := some 7 }) (by decide +kernel)
  have hids : (run smallConfig (firstLeaves 5 { thinkingTokenBudget := some 7 })
      (init smallConfig) ⟨[8], [9], empty⟩).toOption.map
        (fun r => (r.1.reqIds, r.1.numReqs)) = some ([some 1], 1) := by decide +kernel
  rw [hrun] at hids
  obtain ⟨hids, hnum⟩ := Prod.mk.inj (Option.some.inj hids)
  refine ⟨b, h, hrun, ?_, hrest 1 hnum.le⟩
  rw [(hrows 0 1 (by rw [hids]; rfl)).1]
  decide +kernel

/-- **An entry stays behind**: the request with a budget leaves, the one without a budget moves
into its row and has its entry, which forces the end of thinking at once. -/
theorem budget_stays_behind :
    StepsMeet smallConfig (Meets smallConfig) ((firstLeaves 0 {}).map Prod.snd) (init smallConfig) ∧
      (run smallConfig (firstLeaves 0 {}) (init smallConfig) ⟨[2], [9], empty⟩).toOption.map
        (fun r => (r.1.reqIds, (r.2.state.get? 0).map fun e =>
          (e.inEnd, e.thinkingTokenBudget, e.outputTokIds))) =
        some ([some 1], some (true, 0, ⟨0, []⟩)) := by
  decide +kernel

end KVarN.Worker
