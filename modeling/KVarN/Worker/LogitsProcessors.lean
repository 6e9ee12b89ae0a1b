import KVarN.Worker.Replay
import Mathlib.Data.Finset.Card

/-!
# The built-in logits processors

`MinPLogitsProcessor` keeps a dense array of `float32` and the number of rows that are not
zero; `LogitBiasLogitsProcessor` and `MinTokensLogitsProcessor` keep dictionaries by row. All
three are told of a step by its `BatchUpdate` only. They are compared with processors that are
built anew from the requests now in the rows.

An output list is known by its identity, as the processors hold a reference to it; how long the
lists are is read when the metadata are refreshed, and is an input of each step.

## Main definitions

* `MinPLogitsProcessor.updateState`, `processDictUpdates`, `MinTokensLogitsProcessor.updateState`.
* `Processors.rebuilt` — processors built from the rows of a batch.
* `Processors.RunMeets` — what steps have to avoid.

## Main results

* `updateState_replays` of each processor — updates are replayed.
* `processors_replay` — the processors after every sequence of steps.
* `processors_drift` — a tiny `min_p`, and an output list that is cut back.
-/

namespace KVarN.Worker

open KVarN.Lib Function InputBatch Dict RowUpdate RowMove List
open KVarN.Core (Fault)

/-! ## Min-p -/

/-- `MinPLogitsProcessor`. -/
structure MinPLogitsProcessor where
  minPCount : ℤ
  minPCpu : ℕ → ℚ

namespace MinPLogitsProcessor

/-- A new processor. -/
def init : MinPLogitsProcessor := ⟨0, fun _ => 0⟩

variable (s : MinPLogitsProcessor)

/-- `update_state`, a request that was added. The `float32` in the array is compared with
`min_p` rounded to `float32`, but whether `min_p` is zero is asked of the number itself. -/
def addMinP (p : ℕ × AddedRequest) : MinPLogitsProcessor :=
  let minP := p.2.params.minP
  let minPBefore := s.minPCpu p.1
  if minPBefore ≠ float32 minP then
    { minPCpu := update s.minPCpu p.1 (float32 minP)
      minPCount :=
        if minP ≠ 0 ∧ minPBefore = 0 then s.minPCount + 1
        else if minP = 0 ∧ minPBefore ≠ 0 then s.minPCount - 1
        else s.minPCount }
  else s

/-- `update_state`, a row that was removed. -/
def removeMinP (index : ℕ) : MinPLogitsProcessor :=
  if s.minPCpu index ≠ 0 then ⟨s.minPCount - 1, update s.minPCpu index 0⟩ else s

/-- `update_state`, a row that was moved. -/
def moveMinP : RowMove → MinPLogitsProcessor
  | .oneWay a b =>
    let minPA := s.minPCpu a
    let minPB := s.minPCpu b
    let cpu := if minPA ≠ minPB then update s.minPCpu b minPA else s.minPCpu
    { minPCpu := if minPA ≠ 0 then update cpu a 0 else cpu
      minPCount := if minPB ≠ 0 then s.minPCount - 1 else s.minPCount }
  | .swap a b =>
    let minPA := s.minPCpu a
    let minPB := s.minPCpu b
    if minPA ≠ minPB then
      { s with minPCpu := update (update s.minPCpu b minPA) a minPB }
    else s

/-- `update_state`. -/
def updateState : Option BatchUpdate → MinPLogitsProcessor
  | none => s
  | some u =>
    let s := u.added.foldl addMinP s
    if s.minPCount ≠ 0 then u.moved.foldl moveMinP (u.removed.foldl removeMinP s) else s

end MinPLogitsProcessor

open MinPLogitsProcessor

/-- A number counts the rows that are not zero. -/
def Counts (f : ℕ → ℚ) (c : ℤ) : Prop := ∃ s : Finset ℕ, (∀ i, i ∈ s ↔ f i ≠ 0) ∧ c = s.card

theorem Counts.eq_zero {f : ℕ → ℚ} (h : Counts f 0) : f = fun _ => 0 := by
  obtain ⟨s, hs, hcard⟩ := h
  have hempty : s = ∅ := Finset.card_eq_zero.1 (by exact_mod_cast hcard.symm)
  funext i
  by_contra hi
  have hmem := (hs i).2 hi
  rw [hempty] at hmem
  simp at hmem

/-- Writing one row changes the number by what is written and what was there. -/
theorem Counts.update {f : ℕ → ℚ} {c : ℤ} (h : Counts f c) (i : ℕ) (x : ℚ) : Counts (update f i x)
      (c + (if x = 0 then 0 else 1) - if f i = 0 then 0 else 1) := by
  obtain ⟨s, hs, rfl⟩ := h
  refine ⟨if x = 0 then s.erase i else insert i s, fun k => ?_, ?_⟩
  · rw [update_apply]
    by_cases hk : k = i
    · by_cases hx : x = 0 <;> simp [hk, hx]
    · by_cases hx : x = 0 <;> simp [hk, hx, hs]
  · by_cases hx : x = 0 <;> by_cases hf : f i = 0
    · have hi : i ∉ s := fun hmem => (hs i).1 hmem hf
      simp [hx, hf, hi]
    · have hi : i ∈ s := (hs i).2 hf
      have hpos := Finset.card_pos.2 ⟨i, hi⟩
      simp only [hx, hf, if_true, if_false, Finset.card_erase_of_mem hi]
      omega
    · have hi : i ∉ s := fun hmem => (hs i).1 hmem hf
      simp [hx, hf, hi]
    · have hi : i ∈ s := (hs i).2 hf
      simp [hx, hf, hi]

/-- A `min_p` that is not zero is not rounded to zero. -/
def SamplingParams.MinPFits (p : SamplingParams) : Prop := p.minP = 0 ∨ float32 p.minP ≠ 0
  deriving Decidable

theorem SamplingParams.MinPFits.eq_zero_iff {p : SamplingParams} (h : p.MinPFits) :
    p.minP = 0 ↔ float32 p.minP = 0 := by
  constructor
  · intro hzero
    rw [hzero, float32_zero]
  · exact fun hzero => h.resolve_right (not_not.2 hzero)

namespace MinPLogitsProcessor

variable {s : MinPLogitsProcessor}

/-- The count is right. -/
def Counted (s : MinPLogitsProcessor) : Prop := Counts s.minPCpu s.minPCount

theorem addMinP_spec {p : ℕ × AddedRequest} (h : s.Counted) (hfits : p.2.params.MinPFits) :
    (s.addMinP p).minPCpu = update s.minPCpu p.1 (float32 p.2.params.minP) ∧
      (s.addMinP p).Counted := by
  have hcount := h.update p.1 (float32 p.2.params.minP)
  simp only [← hfits.eq_zero_iff] at hcount
  rw [addMinP]
  split_ifs with hsame hup hdown
  · rw [if_neg hup.1, if_pos hup.2, sub_zero] at hcount
    exact ⟨rfl, hcount⟩
  · rw [if_pos hdown.1, if_neg hdown.2, add_zero] at hcount
    exact ⟨rfl, hcount⟩
  · refine ⟨rfl, ?_⟩
    by_cases hzero : p.2.params.minP = 0
    · have hbefore : s.minPCpu p.1 = 0 := by
        by_contra hne
        exact hdown ⟨hzero, hne⟩
      rw [if_pos hzero, if_pos hbefore, add_zero, sub_zero] at hcount
      exact hcount
    · have hbefore : s.minPCpu p.1 ≠ 0 := fun hb => hup ⟨hzero, hb⟩
      rw [if_neg hzero, if_neg hbefore, add_sub_cancel_right] at hcount
      exact hcount
  · rw [not_not] at hsame
    exact ⟨by rw [← hsame, update_eq_self], h⟩

theorem removeMinP_spec {k : ℕ} (h : s.Counted) :
    (s.removeMinP k).minPCpu = update s.minPCpu k 0 ∧ (s.removeMinP k).Counted := by
  rw [removeMinP]
  split_ifs with hzero
  · have hcount := h.update k 0
    simp only [hzero, if_true, if_false, add_zero] at hcount
    exact ⟨rfl, hcount⟩
  · rw [not_not] at hzero
    exact ⟨by rw [← hzero, update_eq_self], h⟩

theorem moveMinP_spec {m : RowMove} (h : s.Counted) (hm : m.Proper) :
    (s.moveMinP m).minPCpu = m.apply 0 s.minPCpu ∧ (s.moveMinP m).Counted := by
  cases m with
  | oneWay a b =>
    have hab : a ≠ b := hm
    have hcpu : (s.moveMinP (.oneWay a b)).minPCpu = (oneWay a b).apply 0 s.minPCpu := by
      funext k
      simp only [moveMinP, apply]
      by_cases hka : k = a
      · subst hka
        by_cases ha : s.minPCpu k = 0
        · by_cases hb : 0 = s.minPCpu b <;> simp [ha, hb, hab]
        · simp [ha]
      · by_cases ha : s.minPCpu a = 0 <;> by_cases hne : s.minPCpu a = s.minPCpu b <;>
          by_cases hkb : k = b <;> simp_all
    refine ⟨hcpu, ?_⟩
    have hcount := (h.update b (s.minPCpu a)).update a 0
    rw [update_of_ne hab] at hcount
    rw [Counted, hcpu]
    simp only [apply, moveMinP]
    convert hcount using 1
    by_cases ha : s.minPCpu a = 0 <;> by_cases hb : s.minPCpu b = 0 <;> simp [ha, hb]
  | swap a b =>
    have hcpu : (s.moveMinP (.swap a b)).minPCpu = (swap a b).apply 0 s.minPCpu := by
      funext k
      simp only [moveMinP, apply, Function.comp_apply]
      by_cases hka : k = a
      · subst hka
        rw [Equiv.swap_apply_left]
        split_ifs with hne
        · simp
        · exact not_not.1 hne
      · by_cases hkb : k = b
        · subst hkb
          rw [Equiv.swap_apply_right]
          split_ifs with hne
          · simp [hka]
          · exact (not_not.1 hne).symm
        · rw [Equiv.swap_apply_of_ne_of_ne hka hkb]
          split_ifs with hne
          · simp [hka, hkb]
          · rfl
    refine ⟨hcpu, ?_⟩
    obtain ⟨rows, hrows, hcard⟩ := h
    refine ⟨rows.map (Equiv.swap a b).toEmbedding, fun k => ?_, ?_⟩
    · rw [hcpu, Finset.mem_map_equiv, Equiv.symm_swap, hrows]
      rfl
    · rw [Finset.card_map, ← hcard, moveMinP]
      split_ifs <;> rfl

theorem foldl_addMinP {added : List (ℕ × AddedRequest)} (h : s.Counted)
    (hadded : ∀ p ∈ added, p.2.params.MinPFits) : (added.foldl addMinP s).minPCpu =
      putAll (added.map fun p => (p.1, float32 p.2.params.minP)) s.minPCpu ∧
      (added.foldl addMinP s).Counted := by
  induction added generalizing s with
  | nil => exact ⟨rfl, h⟩
  | cons p added ih =>
    obtain ⟨hcpu, h₁⟩ := addMinP_spec h (hadded p mem_cons_self)
    obtain ⟨hrest, h₂⟩ := ih h₁ fun q hq => hadded q (mem_cons_of_mem p hq)
    refine ⟨?_, h₂⟩
    rw [foldl_cons, hrest, hcpu]
    rfl

theorem foldl_removeMinP (removed : List ℕ) (h : s.Counted) :
    (removed.foldl removeMinP s).minPCpu = clearAll 0 removed s.minPCpu ∧
      (removed.foldl removeMinP s).Counted := by
  induction removed generalizing s with
  | nil =>
    refine ⟨?_, h⟩
    funext i
    simp [clearAll]
  | cons k removed ih =>
    obtain ⟨hcpu, h₁⟩ := removeMinP_spec (k := k) h
    obtain ⟨hrest, h₂⟩ := ih h₁
    refine ⟨?_, h₂⟩
    rw [foldl_cons, hrest, hcpu, clearAll_cons]

theorem foldl_moveMinP {moved : List RowMove} (h : s.Counted) (hmoved : ∀ m ∈ moved, m.Proper) :
    (moved.foldl moveMinP s).minPCpu = moveAll 0 moved s.minPCpu ∧
      (moved.foldl moveMinP s).Counted := by
  induction moved generalizing s with
  | nil => exact ⟨rfl, h⟩
  | cons m moved ih =>
    obtain ⟨hcpu, h₁⟩ := moveMinP_spec h (hmoved m mem_cons_self)
    obtain ⟨hrest, h₂⟩ := ih h₁ fun q hq => hmoved q (mem_cons_of_mem m hq)
    refine ⟨?_, h₂⟩
    rw [foldl_cons, hrest, hcpu]
    rfl

/-- **Updates are replayed**, and the count stays right. -/
theorem updateState_replays {u : Option BatchUpdate} (h : s.Counted)
    (hu : ∀ u' ∈ u, (∀ m ∈ u'.moved, m.Proper) ∧ ∀ p ∈ u'.added, p.2.params.MinPFits) :
    (s.updateState u).minPCpu = replayUpdate (fun a => float32 a.params.minP)
      (replay 0) u s.minPCpu ∧ (s.updateState u).Counted := by
  rcases u with _ | ⟨n, removed, added, moved⟩
  · exact ⟨rfl, h⟩
  obtain ⟨hmoved, hadded⟩ := hu _ rfl
  obtain ⟨hcpu₁, h₁⟩ := foldl_addMinP h hadded
  simp only [updateState, replayUpdate, Option.elim, replay, rowUpdate]
  rw [← hcpu₁]
  split_ifs with hcount
  · obtain ⟨hcpu₂, h₂⟩ := foldl_removeMinP removed h₁
    obtain ⟨hcpu₃, h₃⟩ := foldl_moveMinP h₂ hmoved
    exact ⟨by rw [hcpu₃, hcpu₂], h₃⟩
  · -- all rows are zero, and so there is nothing to clear or to move
    rw [not_not] at hcount
    have hzero : (added.foldl addMinP s).minPCpu = fun _ => 0 := by
      rw [Counted, hcount] at h₁
      exact h₁.eq_zero
    exact ⟨by rw [hzero, clearAll_const, moveAll_const], h₁⟩

end MinPLogitsProcessor

/-! ## Dictionaries by row -/

section Entries

variable {τ : Type} {newState : AddedRequest → Option τ} {d : Dict ℕ τ}

/-- `process_dict_updates`, a request that was added. -/
def addEntry (newState : AddedRequest → Option τ) (d : Dict ℕ τ) (p : ℕ × AddedRequest) :
    Dict ℕ τ :=
  match newState p.2 with
  | some state => d.set p.1 state
  | none => d.pop p.1

/-- Set an entry if there is one to set. -/
def setEntry (d : Dict ℕ τ) (i : ℕ) : Option τ → Dict ℕ τ
  | some e => d.set i e
  | none => d

/-- `process_dict_updates`, a row that was moved: both entries are popped, and the first one is
set at the second row; in a swap the second one is set at the first row. -/
def moveEntry (d : Dict ℕ τ) : RowMove → Dict ℕ τ
  | .oneWay a b => setEntry ((d.pop a).pop b) b (d.get? a)
  | .swap a b =>
    setEntry (setEntry ((d.pop a).pop b) b (d.get? a)) a ((d.pop a).get? b)

/-- `process_dict_updates`. -/
def processDictUpdates (newState : AddedRequest → Option τ) (d : Dict ℕ τ) :
    Option BatchUpdate → Dict ℕ τ
  | none => d
  | some u =>
    let d := u.added.foldl (addEntry newState) d
    if d.keys ≠ [] then u.moved.foldl moveEntry (u.removed.foldl pop d) else d

theorem get?_addEntry (p : ℕ × AddedRequest) :
    (addEntry newState d p).get? = update d.get? p.1 (newState p.2) := by
  funext k
  rw [addEntry, update_apply]
  rcases hs : newState p.2 with _ | state
  · exact get?_pop d p.1 k
  · exact get?_set d p.1 k state

theorem get?_setEntry (i k : ℕ) (e : Option τ) :
    (setEntry d i e).get? k = if k = i then e.or (d.get? i) else d.get? k := by
  rcases e with _ | e
  · rw [setEntry, Option.none_or]
    split_ifs with hk
    · rw [hk]
    · rfl
  · rw [setEntry, get?_set]
    rfl

theorem get?_moveEntry {m : RowMove} (hm : m.Proper) :
    (moveEntry d m).get? = m.apply none d.get? := by
  funext k
  cases m with
  | oneWay a b =>
    have hab : a ≠ b := hm
    simp only [moveEntry, get?_setEntry, get?_pop, apply, update_apply]
    by_cases hkb : k = b
    · simp [hkb, hab.symm]
    · by_cases hka : k = a <;> simp [hkb, hka, hab]
  | swap a b =>
    simp only [moveEntry, get?_setEntry, get?_pop, apply, Function.comp_apply]
    by_cases hka : k = a
    · subst hka
      by_cases hkb : k = b
      · simp [hkb]
      · simp [hkb, Ne.symm hkb]
    · by_cases hkb : k = b
      · subst hkb
        simp [hka]
      · simp [hka, hkb, Equiv.swap_apply_of_ne_of_ne]

theorem get?_foldl_addEntry (added : List (ℕ × AddedRequest)) :
    (added.foldl (addEntry newState) d).get? =
      putAll (added.map fun p => (p.1, newState p.2)) d.get? := by
  induction added generalizing d with
  | nil => rfl
  | cons p added ih =>
    rw [foldl_cons, ih, get?_addEntry]
    rfl

theorem get?_foldl_pop (removed : List ℕ) :
    (removed.foldl pop d).get? = clearAll none removed d.get? := by
  induction removed generalizing d with
  | nil =>
    funext i
    simp [clearAll]
  | cons k removed ih =>
    have hpop : (d.pop k).get? = update d.get? k none := by
      funext i
      rw [get?_pop, update_apply]
    rw [foldl_cons, ih, hpop, clearAll_cons]

theorem get?_foldl_moveEntry {moved : List RowMove} (hmoved : ∀ m ∈ moved, m.Proper) :
    (moved.foldl moveEntry d).get? = moveAll none moved d.get? := by
  induction moved generalizing d with
  | nil => rfl
  | cons m moved ih =>
    rw [foldl_cons, ih fun q hq => hmoved q (mem_cons_of_mem m hq),
      get?_moveEntry (hmoved m mem_cons_self)]
    rfl

/-- **Updates are replayed** on the entries. -/
theorem processDictUpdates_replays {u : Option BatchUpdate}
    (hu : ∀ u' ∈ u, ∀ m ∈ u'.moved, m.Proper) : (processDictUpdates newState d u).get? =
      replayUpdate newState (replay none) u d.get? := by
  rcases u with _ | ⟨n, removed, added, moved⟩
  · rfl
  simp only [processDictUpdates, replayUpdate, Option.elim, replay, rowUpdate]
  rw [← get?_foldl_addEntry]
  split_ifs with hkeys
  · rw [get?_foldl_moveEntry (hu _ rfl), get?_foldl_pop]
  · rw [not_not] at hkeys
    have hnone : (added.foldl (addEntry newState) d).get? = fun _ => none := by
      funext i
      rw [get?_eq_none_iff, mem_def, hkeys]
      exact not_mem_nil
    rw [hnone, clearAll_const, moveAll_const]

end Entries

/-! ## Logit bias -/

/-- `LogitBiasLogitsProcessor`. -/
structure LogitBiasLogitsProcessor where
  biases : Dict ℕ (List (ℕ × ℚ))

namespace LogitBiasLogitsProcessor

/-- The bias of a request, if it has one that is not empty. -/
def newBias (a : AddedRequest) : Option (List (ℕ × ℚ)) :=
  match a.params.logitBias with
  | some (x :: xs) => some (x :: xs)
  | _ => none

/-- `update_state`. -/
def updateState (s : LogitBiasLogitsProcessor) (u : Option BatchUpdate) :
    LogitBiasLogitsProcessor :=
  ⟨processDictUpdates newBias s.biases u⟩

end LogitBiasLogitsProcessor

/-! ## Min-tokens -/

/-- What is kept for a request that has not produced enough tokens: how many it has to produce,
the identity of its output list, and the tokens that stop it. -/
structure MinTokensEntry where
  minToks : ℕ
  outputTokIds : ℕ
  stopTokIds : Finset ℕ
  deriving DecidableEq

/-- `MinTokensLogitsProcessor`. -/
structure MinTokensLogitsProcessor where
  minToks : Dict ℕ MinTokensEntry

namespace MinTokensLogitsProcessor

variable (lens : ℕ → ℕ) (a : AddedRequest) (s : MinTokensLogitsProcessor) (u : Option BatchUpdate)

/-- `add_request`; the lengths of the output lists are given. -/
def addRequest : Option MinTokensEntry :=
  if a.params.minTokens = 0 ∨ a.params.minTokens ≤ lens a.outputTokIds.ident then none
  else some ⟨a.params.minTokens, a.outputTokIds.ident, a.params.allStopTokenIds⟩

/-- `update_state`: after the update, requests that have attained their minimum are dropped. -/
def updateState : MinTokensLogitsProcessor :=
  let d := processDictUpdates (addRequest lens) s.minToks u
  let toRemove := (d.entries.filter fun e => e.2.minToks ≤ lens e.2.outputTokIds).map Prod.fst
  ⟨toRemove.foldl pop d⟩

/-- The entries that are left are those of requests that have to produce more. -/
theorem get?_updateState (i : ℕ) : (s.updateState lens u).minToks.get? i =
    ((processDictUpdates (addRequest lens) s.minToks u).get? i).filter fun e => lens e.outputTokIds
    < e.minToks := by
  obtain ⟨d, hd⟩ : ∃ d, processDictUpdates (addRequest lens) s.minToks u = d := ⟨_, rfl⟩
  simp only [updateState, hd, get?_foldl_pop, clearAll]
  rcases hget : d.get? i with _ | e
  · exact ite_self _
  · have hmem : i ∈ (d.entries.filter fun e => e.2.minToks ≤ lens e.2.outputTokIds).map Prod.fst ↔
        e.minToks ≤ lens e.outputTokIds := by
      simp only [mem_map, mem_filter, decide_eq_true_eq]
      constructor
      · rintro ⟨⟨i', e'⟩, ⟨he', hle⟩, rfl⟩
        obtain rfl := Option.some.inj (hget.symm.trans (get?_eq_some_iff.2 he'))
        exact hle
      · exact fun hle => ⟨(i, e), ⟨get?_eq_some_iff.1 hget, hle⟩, rfl⟩
    by_cases hle : e.minToks ≤ lens e.outputTokIds
    · rw [if_pos (hmem.2 hle), Option.filter_some, if_neg (by simpa using hle)]
    · rw [if_neg (mt hmem.1 hle), Option.filter_some, if_pos (by simpa using hle)]

/-- A request that was added is asked again with the same lengths. -/
theorem filter_addRequest_self :
    ((addRequest lens a).filter fun e => lens e.outputTokIds < e.minToks) = addRequest lens a := by
  rw [addRequest]
  split_ifs with h
  · rfl
  · obtain ⟨-, hlt⟩ := not_or.1 h
    simpa using hlt

/-- A request whose list is not cut back is asked with the new lengths. -/
theorem filter_addRequest {old lens : ℕ → ℕ} {a : AddedRequest}
    (h : a.params.minTokens ≤ old a.outputTokIds.ident →
      a.params.minTokens ≤ lens a.outputTokIds.ident) :
    ((addRequest old a).filter fun e => lens e.outputTokIds < e.minToks) = addRequest lens a := by
  rw [addRequest, addRequest]
  by_cases hzero : a.params.minTokens = 0
  · simp [hzero]
  · by_cases hle : a.params.minTokens ≤ lens a.outputTokIds.ident
    · rw [if_pos (Or.inr hle)]
      split_ifs
      · rfl
      · simp [hle]
    · rw [if_neg (not_or.2 ⟨hzero, fun hold => hle (h hold)⟩), if_neg (not_or.2 ⟨hzero, hle⟩)]
      simpa using hle

end MinTokensLogitsProcessor

open MinTokensLogitsProcessor

/-! ## The processors next to a batch -/

/-- The built-in processors. -/
structure Processors where
  minP : MinPLogitsProcessor
  logitBias : LogitBiasLogitsProcessor
  minTokens : MinTokensLogitsProcessor

namespace Processors

/-- New processors. -/
def init : Processors := ⟨MinPLogitsProcessor.init, ⟨empty⟩, ⟨empty⟩⟩

/-- `refresh_metadata`: every processor is updated. -/
def updateState (lens : ℕ → ℕ) (p : Processors) (u : Option BatchUpdate) : Processors :=
  ⟨p.minP.updateState u, p.logitBias.updateState u, p.minTokens.updateState lens u⟩

/-- Steps of a batch with its processors; the lengths of the output lists are given for each
step. -/
def run (cfg : BatchConfig) : List (BatchStep × (ℕ → ℕ)) → InputBatch → Processors →
    Except Fault (InputBatch × Processors)
  | [], b, p => .ok (b, p)
  | (s, lens) :: steps, b, p => do
      let (u, b) ← b.step cfg s
      run cfg steps b (p.updateState lens u)

/-- The requests in the rows of a batch, as if they were all added now. -/
def rowsAdded (T : Tenants) (b : InputBatch) : List (ℕ × AddedRequest) :=
  (range b.reqIds.length).filterMap fun i => (b.seat T i).map (Prod.mk i)

/-- Processors that are built from the requests in the rows. -/
def rebuilt (lens : ℕ → ℕ) (T : Tenants) (b : InputBatch) : Processors :=
  init.updateState lens (some ⟨b.numReqs, [], rowsAdded T b, []⟩)

/-- The same state; the order of entries does not matter. -/
structure Same (p q : Processors) : Prop where
  minP : p.minP = q.minP
  biases : ∀ i, p.logitBias.biases.get? i = q.logitBias.biases.get? i
  minToks : ∀ i, p.minTokens.minToks.get? i = q.minTokens.minToks.get? i

/-! ### The invariant -/

variable {cfg : BatchConfig} {T : Tenants} {b : InputBatch} {p q : Processors} {old lens : ℕ → ℕ}
  {s : BatchStep}

open LogitBiasLogitsProcessor

/-- **The processors hold what is set up for the requests in the rows.** -/
structure InSync (lens : ℕ → ℕ) (T : Tenants) (b : InputBatch) (p : Processors) : Prop where
  cpu : p.minP.minPCpu = b.rowValues 0 (valuesOf 0 (fun a => float32 a.params.minP) T)
  counted : p.minP.Counted
  biases : p.logitBias.biases.get? = b.rowValues none (valuesOf none newBias T)
  minToks : p.minTokens.minToks.get? = b.rowValues none (valuesOf none (addRequest lens) T)

/-- The `min_p` of every request of the batch fits. -/
def MinPsFit (T : Tenants) : Prop :=
  ∀ id t, T id = some t → ∀ a ∈ addedOf t.request, a.params.MinPFits

/-- Two processors in the same sync have the same state. -/
theorem InSync.same (hp : p.InSync lens T b) (hq : q.InSync lens T b) : p.Same q := by
  refine ⟨?_, fun i => by rw [hp.biases, hq.biases], fun i => by rw [hp.minToks, hq.minToks]⟩
  obtain ⟨s, hs, hcount⟩ := hp.counted
  obtain ⟨s', hs', hcount'⟩ := hq.counted
  have hcpu : p.minP.minPCpu = q.minP.minPCpu := by rw [hp.cpu, hq.cpu]
  have hset : s = s' := by
    ext i
    rw [hs, hs', hcpu]
  have hcounts : p.minP.minPCount = q.minP.minPCount := by rw [hcount, hcount', hset]
  rcases hp' : p.minP with ⟨c, f⟩
  rcases hq' : q.minP with ⟨c', f'⟩
  rw [hp', hq'] at hcpu hcounts
  rw [show c = c' from hcounts, show f = f' from hcpu]

theorem minPsFit_foldl {ops : List BatchOp} (h : MinPsFit T)
    (hops : ∀ r, BatchOp.add r ∈ ops → ∀ a ∈ addedOf r, a.params.MinPFits) :
    MinPsFit (ops.foldl nextTenants T) := by
  induction ops generalizing T with
  | nil => exact h
  | cons op ops ih =>
    refine ih ?_ fun r hr => hops r (mem_cons_of_mem op hr)
    intro id t ht
    cases op with
    | add r =>
      rcases update_some_eq_some.1 ht with ⟨-, rfl⟩ | ⟨-, ht⟩
      · exact hops r mem_cons_self
      · exact h id t ht
    | remove id' => exact h id t (update_none_eq_some.1 ht).2
    | spec id' tokens =>
      rw [nextTenants, update_apply] at ht
      split_ifs at ht
      · obtain ⟨t', ht', rfl⟩ := Option.map_eq_some_iff.1 ht
        exact h id' t' ht'
      · exact h id t ht
    | condense => exact h id t ht
    | swap i j => exact h id t ht

/-- Building from the rows puts the value of each request into its row. -/
theorem putAll_rowsAdded {τ : Type} (blank : τ) (g : AddedRequest → τ) (T : Tenants)
    (b : InputBatch) : putAll ((rowsAdded T b).map fun p => (p.1, g p.2)) (fun _ => blank) =
      b.rowValues blank (valuesOf blank g T) := by
  have hput : ∀ n i, putAll (((range n).filterMap fun i =>
      (b.seat T i).map (Prod.mk i)).map fun p => (p.1, g p.2)) (fun _ => blank) i =
      if i < n then (b.seat T i).elim blank g else blank := by
    intro n i
    induction n with
    | zero => rfl
    | succ n ih =>
      have hlast : i ≠ n → (i < n + 1 ↔ i < n) := by omega
      rw [range_succ, filterMap_append, map_append]
      rcases hseat : b.seat T n with _ | a
      · simp only [filterMap_cons, filterMap_nil, hseat, Option.map_none, map_nil, append_nil, ih]
        by_cases hi : i = n
        · simp [hi, hseat]
        · simp only [hlast hi]
      · simp only [filterMap_cons, filterMap_nil, hseat, Option.map_some,
          map_cons, map_nil, putAll_concat, update_apply, ih]
        by_cases hi : i = n
        · simp [hi, hseat]
        · simp only [hlast hi, if_neg hi]
  funext i
  rw [rowsAdded, hput, rowValues_valuesOf]
  split_ifs with hi
  · rfl
  · rw [seat, idAt, getD_eq_default _ _ (Nat.not_lt.1 hi)]
    rfl

/-- **Processors that are built from the rows** are in sync. -/
theorem rebuilt_inSync (lens : ℕ → ℕ) (b : InputBatch) (hfits : MinPsFit T) :
    (rebuilt lens T b).InSync lens T b := by
  have hreplay : ∀ {τ : Type} (blank : τ) (g : AddedRequest → τ),
      replayUpdate g (replay blank) (some ⟨b.numReqs, [], rowsAdded T b, []⟩)
        (fun _ => blank) = b.rowValues blank (valuesOf blank g T) := by
    intro τ blank g
    rw [← putAll_rowsAdded]
    simp only [replayUpdate, Option.elim, replay, rowUpdate, moveAll_nil]
    funext i
    simp [clearAll]
  have hnil : ∀ u' ∈ some (BatchUpdate.mk b.numReqs [] (rowsAdded T b) []),
      ∀ m ∈ u'.moved, m.Proper := by
    rintro _ ⟨⟩ m hm
    cases hm
  have hzero : MinPLogitsProcessor.init.Counted := ⟨∅, by simp [MinPLogitsProcessor.init], rfl⟩
  obtain ⟨hcpu, hcounted⟩ := updateState_replays
    (u := some ⟨b.numReqs, [], rowsAdded T b, []⟩) hzero (by
      rintro _ ⟨⟩
      refine ⟨hnil _ rfl, fun p hp => ?_⟩
      obtain ⟨i, -, hi⟩ := mem_filterMap.1 hp
      obtain ⟨a, ha, rfl⟩ := Option.map_eq_some_iff.1 hi
      obtain ⟨id, -, hid⟩ := Option.bind_eq_some_iff.1 ha
      obtain ⟨t, ht, hadded⟩ := Option.bind_eq_some_iff.1 hid
      exact hfits id t ht a hadded)
  refine ⟨hcpu.trans (hreplay 0 _), hcounted, ?_, ?_⟩
  · exact (processDictUpdates_replays hnil).trans (hreplay none newBias)
  · funext i
    refine (get?_updateState lens _ _ i).trans ?_
    rw [processDictUpdates_replays hnil,
      show (init.minTokens.minToks).get? = fun _ => none from rfl,
      hreplay none (addRequest lens), rowValues_valuesOf]
    rcases b.seat T i with _ | a
    · rfl
    · exact filter_addRequest_self lens a

/-! ### Steps -/

/-- The operation adds a request whose `min_p` fits, or none. -/
def MinPFits : BatchOp → Prop
  | .add r => ∀ p ∈ r.samplingParams, p.MinPFits
  | _ => True

/-- The operation adds a request. -/
def Adds (id : ReqId) : BatchOp → Prop
  | .add r => r.reqId = id
  | _ => False

instance (op : BatchOp) : Decidable (MinPFits op) :=
  match op with
  | .add r => inferInstanceAs (Decidable (∀ p ∈ r.samplingParams, p.MinPFits))
  | .remove _ | .spec _ _ | .condense | .swap _ _ => inferInstanceAs (Decidable True)

instance (id : ReqId) (op : BatchOp) : Decidable (Adds id op) :=
  match op with
  | .add r => inferInstanceAs (Decidable (r.reqId = id))
  | .remove _ | .spec _ _ | .condense | .swap _ _ => inferInstanceAs (Decidable False)

/-- No request that stays in the batch has its output list cut back below its `min_tokens`
after it was that long. -/
def NotCutBack (old lens : ℕ → ℕ) (T : Tenants) (b : InputBatch) (s : BatchStep) : Prop :=
  ∀ id ∈ b.reqIdToIndex.keys, (∀ op ∈ s.ops, ¬ Adds id op) →
    ∀ t ∈ s.ops.foldl nextTenants T id, ∀ p ∈ t.request.samplingParams,
      p.minTokens ≤ old t.request.outputTokenIds.ident →
      p.minTokens ≤ lens t.request.outputTokenIds.ident

instance (old lens : ℕ → ℕ) (T : Tenants) (b : InputBatch) (s : BatchStep) :
    Decidable (NotCutBack old lens T b s) :=
  inferInstanceAs (Decidable (∀ id ∈ b.reqIdToIndex.keys, _))

/-- **A step** keeps the processors in sync. -/
theorem InSync.step (hsampling : cfg.isPoolingModel = false) (h : p.InSync old T b)
    (hs : b.Seated cfg T) (hpacked : b.Packed) (hfresh : b.batchUpdateBuilder = {})
    (hmeet : AllMeet cfg (Meets cfg) s.ops b) (hops : ∀ op ∈ s.ops, MinPFits op)
    (hcut : NotCutBack old lens T b s) :
    ∃ u b', b.step cfg s = .ok (u, b') ∧ b'.Seated cfg (s.ops.foldl nextTenants T) ∧
      b'.Packed ∧ b'.batchUpdateBuilder = {} ∧
      (p.updateState lens u).InSync lens (s.ops.foldl nextTenants T) b' := by
  have hreplays : ∀ {τ : Type} (blank : τ) (g : AddedRequest → τ) (V : ReqId → τ),
      ∃ u b', b.step cfg s = .ok (u, b') ∧ b'.Seated cfg (s.ops.foldl nextTenants T) ∧
        b'.Packed ∧ b'.batchUpdateBuilder = {} ∧
        b'.rowValues blank (s.ops.foldl (nextValues blank g) V) =
          replayUpdate g (replay blank) u (b.rowValues blank V) ∧
        ∀ u' ∈ u, (∀ m ∈ u'.moved, m.Proper) ∧
          ∀ p ∈ u'.added, ∃ r, BatchOp.add r ∈ s.ops ∧ addedOf r = some p.2 :=
    fun blank g V => hs.step_replays (replays_replay blank) hsampling hpacked hfresh
      (fun _ _ hm => hm) (fun _ _ => condenseAll_of_forall (fun _ _ _ _ _ => trivial) _ _ _) hmeet
  obtain ⟨u, b', hstep, hs', hpacked', hfresh', hcpu, hu⟩ :=
    hreplays 0 (fun a => float32 a.params.minP) (valuesOf 0 (fun a => float32 a.params.minP) T)
  refine ⟨u, b', hstep, hs', hpacked', hfresh', ?_⟩
  have hrows : ∀ {τ : Type} (blank : τ) (g : AddedRequest → τ) (V : ReqId → τ),
      b'.rowValues blank (s.ops.foldl (nextValues blank g) V) =
        replayUpdate g (replay blank) u (b.rowValues blank V) := by
    intro τ blank g V
    obtain ⟨u₁, b₁, hstep₁, -, -, -, hrows₁, -⟩ := hreplays blank g V
    obtain ⟨rfl, rfl⟩ := Prod.mk.inj (Except.ok.inj (hstep.symm.trans hstep₁))
    exact hrows₁
  have htenants : ∀ {τ : Type} (blank : τ) (g : AddedRequest → τ),
      s.ops.foldl (nextValues blank g) (valuesOf blank g T) =
        valuesOf blank g (s.ops.foldl nextTenants T) := by
    intro τ blank g
    funext id
    exact foldl_nextValues_eq s.ops rfl
  have hproper : ∀ u' ∈ u, ∀ m ∈ u'.moved, m.Proper := fun u' hu' => (hu u' hu').1
  have hadded : ∀ u' ∈ u, ∀ p ∈ u'.added, p.2.params.MinPFits := by
    intro u' hu' q hq
    obtain ⟨r, hr, hra⟩ := (hu u' hu').2 q hq
    obtain ⟨sp, hsp, hqa⟩ := Option.map_eq_some_iff.1 hra
    rw [← hqa]
    exact hops _ hr sp hsp
  obtain ⟨hcpu', hcounted⟩ := updateState_replays h.counted
    fun u' hu' => ⟨hproper u' hu', hadded u' hu'⟩
  refine ⟨?_, hcounted, ?_, ?_⟩
  · refine hcpu'.trans ?_
    rw [h.cpu, ← hrows, htenants]
  · refine (processDictUpdates_replays hproper).trans ?_
    rw [h.biases, ← hrows, htenants]
  · funext i
    refine (get?_updateState lens _ _ i).trans ?_
    rw [processDictUpdates_replays hproper, h.minToks, ← hrows, rowValues, rowValues]
    rcases hid : b'.idAt i with _ | id
    · rfl
    simp only [Option.elim]
    by_cases hadd : ∃ op ∈ s.ops, Adds id op
    · -- added in this step: asked with the lengths of this step
      obtain ⟨op, hop, hid'⟩ := hadd
      cases op with
      | add r =>
        obtain rfl : r.reqId = id := hid'
        rw [foldl_nextValues_of_add (T := T) hop, valuesOf]
        rcases (s.ops.foldl nextTenants T r.reqId).bind fun t => addedOf t.request with _ | a
        · rfl
        · exact filter_addRequest_self lens a
      | remove _ => exact hid'.elim
      | spec _ _ => exact hid'.elim
      | condense => exact hid'.elim
      | swap _ _ => exact hid'.elim
    · have hno : ∀ op ∈ s.ops, ¬ Adds id op := fun op hop hid' => hadd ⟨op, hop, hid'⟩
      have hne : ∀ r, BatchOp.add r ∈ s.ops → r.reqId ≠ id := fun r hr => hno _ hr
      rw [foldl_nextValues_of_forall_ne (T := T) hne rfl, valuesOf, valuesOf]
      rcases ha : (s.ops.foldl nextTenants T id).bind fun t => addedOf t.request with _ | a
      · rfl
      obtain ⟨t, ht, hta⟩ := Option.bind_eq_some_iff.1 ha
      obtain ⟨sp, hsp, rfl⟩ := Option.map_eq_some_iff.1 hta
      refine filter_addRequest (hcut id ?_ hno t ht sp hsp)
      rw [← mem_def, ← not_not (a := id ∈ b.reqIdToIndex), ← get?_eq_none_iff, hs.tenants]
      intro hnone
      rw [foldl_nextTenants_of_forall_ne hne hnone] at ht
      cases ht

/-- What a sequence of steps has to avoid: a `min_p` that is rounded to zero, and output lists
that are cut back. -/
def RunMeets (cfg : BatchConfig) :
    List (BatchStep × (ℕ → ℕ)) → (ℕ → ℕ) → Tenants → InputBatch → Prop
  | [], _, _, _ => True
  | (s, lens) :: steps, old, T, b =>
    (AllMeet cfg (Meets cfg) s.ops b ∧ (∀ op ∈ s.ops, MinPFits op) ∧ NotCutBack old lens T b s) ∧
    ∀ r ∈ (b.step cfg s).toOption, RunMeets cfg steps lens (s.ops.foldl nextTenants T) r.2

instance decidableRunMeets (cfg : BatchConfig) : (steps : List (BatchStep × (ℕ → ℕ))) →
    (old : ℕ → ℕ) → (T : Tenants) → (b : InputBatch) → Decidable (RunMeets cfg steps old T b)
  | [], _, _, _ => inferInstanceAs (Decidable True)
  | (s, lens) :: steps, _, T, b =>
    let _ := decidableRunMeets cfg steps lens (s.ops.foldl nextTenants T)
    inferInstanceAs (Decidable ((_ ∧ _ ∧ _) ∧ ∀ r ∈ (b.step cfg s).toOption, _))

/-- The lengths of the output lists at the last refresh. -/
def lastLens (old : ℕ → ℕ) (steps : List (BatchStep × (ℕ → ℕ))) : ℕ → ℕ :=
  steps.foldl (fun _ s => s.2) old

/-- **A sequence of steps** keeps the processors in sync. -/
theorem InSync.run (hsampling : cfg.isPoolingModel = false) {steps : List (BatchStep × (ℕ → ℕ))}
    (h : p.InSync old T b) (hfits : MinPsFit T) (hs : b.Seated cfg T) (hpacked : b.Packed)
    (hfresh : b.batchUpdateBuilder = {}) (hmeet : RunMeets cfg steps old T b) :
    ∃ b' p', Processors.run cfg steps b p = .ok (b', p') ∧
      b'.Seated cfg (tenantsAfter (steps.map Prod.fst) T) ∧ b'.Packed ∧
      MinPsFit (tenantsAfter (steps.map Prod.fst) T) ∧
      p'.InSync (lastLens old steps) (tenantsAfter (steps.map Prod.fst) T) b' := by
  induction steps generalizing old T b p with
  | nil => exact ⟨b, p, rfl, hs, hpacked, hfits, h⟩
  | cons st steps ih =>
    obtain ⟨s, lens⟩ := st
    obtain ⟨⟨hall, hops, hcut⟩, hrest⟩ := hmeet
    obtain ⟨u, b₁, hstep, hs₁, hpacked₁, hfresh₁, h₁⟩ :=
      h.step hsampling hs hpacked hfresh hall hops hcut
    have hfits₁ : MinPsFit (s.ops.foldl nextTenants T) := by
      refine minPsFit_foldl hfits fun r hr a ha => ?_
      obtain ⟨sp, hsp, rfl⟩ := Option.map_eq_some_iff.1 ha
      exact hops _ hr sp hsp
    obtain ⟨b', p', hrun, hfinal⟩ := ih h₁ hfits₁ hs₁ hpacked₁ hfresh₁
      (hrest _ (by rw [hstep]; rfl))
    rw [map_cons, tenantsAfter_cons]
    refine ⟨b', p', ?_, hfinal⟩
    rw [Processors.run, hstep]
    exact hrun

end Processors

open Processors

open InputBatch Processors in
/-- **The processors agree with processors built from the rows.** After every sequence of steps
in which no `min_p` is rounded to zero and no output list is cut back, the processors that were
told of the updates have the state of processors built from the requests in the rows: the value
of `min_p`, the bias, and an entry for `min_tokens` exactly when the request has produced fewer
tokens. There is no state for other rows, and the count of `min_p` is exact. -/
theorem processors_replay (cfg : BatchConfig) (hsampling : cfg.isPoolingModel = false)
    (steps : List (BatchStep × (ℕ → ℕ)))
    (hmeet : RunMeets cfg steps (fun _ => 0) (fun _ => none) (init cfg)) :
    ∃ b p T lens, run cfg steps (init cfg) init = .ok (b, p) ∧
      T = tenantsAfter (steps.map Prod.fst) (fun _ => none) ∧ lens = lastLens (fun _ => 0) steps ∧
      p.Same (rebuilt lens T b) ∧
      (∀ i id t a, b.reqIds[i]? = some (some id) → T id = some t → addedOf t.request = some a →
        p.minP.minPCpu i = float32 a.params.minP ∧
        p.logitBias.biases.get? i = LogitBiasLogitsProcessor.newBias a ∧
        p.minTokens.minToks.get? i = addRequest lens a) ∧
      (∀ i, b.numReqs ≤ i → p.minP.minPCpu i = 0 ∧ p.logitBias.biases.get? i = none ∧
        p.minTokens.minToks.get? i = none) ∧
      p.minP.minPCount = ((Finset.range b.numReqs).filter fun i =>
        (b.seat T i).elim 0 (fun a => a.params.minP) ≠ 0).card := by
  have hstart : init.InSync (fun _ => 0) (fun _ => none) (init cfg) :=
    ⟨rfl, ⟨∅, by simp [Processors.init, MinPLogitsProcessor.init], rfl⟩, rfl, rfl⟩
  obtain ⟨b, p, hrun, hs, hpacked, hfits, h⟩ := hstart.run hsampling (fun id t ht => by cases ht)
    (seated_init cfg) (fun i hi => absurd hi (Nat.not_lt_zero i)) rfl hmeet
  obtain ⟨T, hT⟩ : ∃ T, tenantsAfter (steps.map Prod.fst) (fun _ => none) = T := ⟨_, rfl⟩
  rw [hT] at hs hfits h
  have hnum := hs.numReqs_of_packed hpacked
  have hvacant : ∀ i, b.numReqs ≤ i → b.idAt i = none :=
    fun i hi => getD_eq_default _ _ (hnum ▸ hi)
  refine ⟨b, p, T, _, hrun, hT.symm, rfl, h.same (rebuilt_inSync _ b hfits),
    fun i id t a hi ht ha => ?_, fun i hi => ?_, ?_⟩
  · have hseat : b.seat T i = some a := by
      rw [seat, getElem?_eq_some_some.1 hi, Option.bind_some, ht, Option.bind_some, ha]
    rw [h.cpu, h.biases, h.minToks]
    simp only [rowValues_valuesOf, hseat, Option.elim, and_self]
  · rw [h.cpu, h.biases, h.minToks]
    simp only [rowValues, hvacant i hi, Option.elim, and_self]
  · obtain ⟨rows, hrows, hcount⟩ := h.counted
    rw [hcount]
    congr 2
    ext i
    rw [hrows, h.cpu, rowValues_valuesOf, Finset.mem_filter, Finset.mem_range]
    rcases hseat : b.seat T i with _ | a
    · simp
    · obtain ⟨id, hid, hat⟩ := Option.bind_eq_some_iff.1 hseat
      obtain ⟨t, ht, ha⟩ := Option.bind_eq_some_iff.1 hat
      have hlt : i < b.numReqs := by
        by_contra hge
        rw [hvacant i (Nat.not_lt.1 hge)] at hid
        cases hid
      simp only [Option.elim, hlt, true_and, Ne, ← (hfits id t ht a ha).eq_zero_iff]

/-- Two requests, of which the first one leaves and the other one moves into its row. -/
def twoRequests : List (BatchStep × (ℕ → ℕ)) :=
  [(⟨[], [.inl (smallRequest 0 { minP := 1 / 2 }),
      .inl (smallRequest 1 { minP := 1 / 4, minTokens := 3 })], []⟩, fun _ => 0),
    (⟨[0], [], []⟩, fun _ => 1)]

/-- The entry and the value of the second request are in the first row. -/
theorem processors_replay_two : ∃ b p, run smallConfig twoRequests (init smallConfig) init =
        .ok (b, p) ∧ p.minP.minPCpu 0 = 1 / 4 ∧ p.minP.minPCpu 1 = 0 ∧
      p.minTokens.minToks.get? 0 = some ⟨3, 1, ∅⟩ := by
  obtain ⟨b, p, T, lens, hrun, rfl, rfl, -, hrows, hrest, -⟩ :=
    processors_replay smallConfig rfl twoRequests (by decide +kernel)
  have hids : (run smallConfig twoRequests (init smallConfig)
      init).toOption.map (fun r => (r.1.reqIds, r.1.numReqs)) =
      some ([some 1], 1) := by decide +kernel
  rw [hrun] at hids
  obtain ⟨hids, hnum⟩ := Prod.mk.inj (Option.some.inj hids)
  obtain ⟨hcpu, -, htoks⟩ := hrows 0 1 ⟨smallRequest 1 { minP := 1 / 4, minTokens := 3 }, []⟩
    ⟨{ minP := 1 / 4, minTokens := 3 }, some [1, 2], ⟨1, []⟩⟩ (by rw [hids]; rfl) rfl rfl
  refine ⟨b, p, hrun, hcpu.trans (by decide +kernel), (hrest 1 hnum.le).1, htoks.trans ?_⟩
  decide +kernel

open InputBatch in
/-- Each of two requests with a `min_p` leaves. -/
def minPSteps : List (BatchStep × (ReqId → ℕ)) :=
  [(⟨[], [.inl (smallRequest 0 { minP := 1 / 2 })], []⟩, fun _ => 0),
    (⟨[0], [.inl (smallRequest 1 { minP := 1 / 10 ^ 50 })], []⟩, fun _ => 0),
    (⟨[1], [], []⟩, fun _ => 0)]

/-- A request with two minimal tokens has two, and then one. -/
def minTokensSteps : List (BatchStep × (ReqId → ℕ)) :=
  [(⟨[], [.inl (smallRequest 0 { minTokens := 2 })], []⟩, fun _ => 0),
    (⟨[], [], []⟩, fun _ => 2), (⟨[], [], []⟩, fun _ => 1)]

/-- **The processors drift.** A `min_p` that `float32` rounds to zero is written over another
one without the count being changed, and the count stays one when no request is left; and a
request whose output list is cut back after it was long enough has no entry any more. -/
theorem processors_drift :
    (StepsMeet smallConfig (Meets smallConfig) (minPSteps.map Prod.fst) (init smallConfig) ∧
      (run smallConfig minPSteps (init smallConfig) init).toOption.map
        (fun r => (r.1.reqIds, r.2.minP.minPCount)) = some ([], 1)) ∧
    StepsMeet smallConfig (Meets smallConfig) (minTokensSteps.map Prod.fst) (init smallConfig) ∧
      (run smallConfig minTokensSteps (init smallConfig) init).toOption.map
        (fun r => (r.1.reqIds, r.2.minTokens.minToks.get? 0, addRequest (fun _ => 1)
            ⟨{ minTokens := 2 }, some [1, 2], ⟨0, []⟩⟩)) =
        some ([some 0], none, some ⟨2, 0, ∅⟩) := by
  decide +kernel

end KVarN.Worker
