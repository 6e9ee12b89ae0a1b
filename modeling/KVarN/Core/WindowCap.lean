import KVarN.Core.ManagerStep
import KVarN.Lib.TiledLoop

/-!
# The admission cap of windowed groups

Sliding-window and chunked-local groups give blocks back once their tokens left the window.
`max_admission_blocks_per_request` is the number of blocks one request is expected to hold at
most: it sizes the pool and caps the demand of an admission. This file compares it with the
blocks a request really holds after any calls of `allocate_slots`.

A request holds the blocks from the first one the window still reads to the last one with a
slot, and the slots include the lookahead tokens of speculative decoding, which the cap does
not count.

## Main definitions

* `KVCacheSpec.maxAdmissionBlocksPerRequest` — the cap.
* `KVCacheSpec.LookaheadFits` — the lookahead tokens fit in what rounding the cap up leaves.
* `PacedCall` — what the calls for one request have in common: bounded tokens in flight, and
  computed tokens that have slots.
* `Windowed` — the table of a request after a call.

## Main results

* `cdiv_le_numSkippedBlocks_add` — the rounding argument.
* `paceHolds_of_run` — the invariant of runs.
* `occupancy_le_maxAdmissionBlocks` — **real usage stays below the cap** if the lookahead
  tokens fit.
-/

namespace KVarN.Core

open KVarN.Lib KVCacheManager KVState KVCacheSpec Manager List Nat

variable {H : Type}

/-! ## The cap -/

/-- `max_admission_blocks_per_request`, for the specs that have it. -/
def KVCacheSpec.maxAdmissionBlocksPerRequest (blockSize maxInFlightTokens maxModelLen : ℕ) :
    KVCacheSpec → Option ℕ
  | .slidingWindow w extra =>
    some (cdiv (min (w - 1 + extra + maxInFlightTokens) maxModelLen) blockSize + 1)
  | .chunkedLocalAttention c =>
    some (cdiv (min (c + maxInFlightTokens) maxModelLen) blockSize)
  | _ => none

/-- When the cap covers `numLookahead` lookahead tokens as well: they fit in what the last
block of the window has left, or the model length cuts them off. A chunk that starts inside a
block reaches so much further into its last one. -/
def KVCacheSpec.LookaheadFits (b maxInFlightTokens maxModelLen numLookahead : ℕ) :
    KVCacheSpec → Prop
  | .slidingWindow w extra =>
    let tokens := w - 1 + extra + maxInFlightTokens
    tokens + numLookahead ≤ cdiv tokens b * b + 1 ∨ maxModelLen ≤ (cdiv tokens b + 1) * b
  | .chunkedLocalAttention c =>
    let tokens := c + maxInFlightTokens
    ∀ n, n * c % b + tokens + numLookahead ≤ cdiv tokens b * b + 1 ∨
      maxModelLen ≤ (n * c / b + cdiv tokens b) * b
  | _ => True

/-- The windows that exist. -/
def KVCacheSpec.IsWindow : KVCacheSpec → Prop
  | .slidingWindow w _ => 0 < w
  | .chunkedLocalAttention c => 0 < c
  | _ => False

theorem le_cdiv_mul (n : ℕ) {b : ℕ} (hb : 0 < b) : n ≤ cdiv n b * b := by
  rw [cdiv, mul_comm]
  exact TiledLoop.le_mul_ceilDiv hb

theorem cdiv_le_of_le_mul {n b k : ℕ} (hb : 0 < b) (h : n ≤ k * b) : cdiv n b ≤ k := by
  rw [cdiv, ← Nat.lt_add_one_iff, Nat.div_lt_iff_lt_mul hb, Nat.add_mul]
  omega

theorem cdiv_mono {n n' : ℕ} (b : ℕ) (h : n ≤ n') : cdiv n b ≤ cdiv n' b :=
  Nat.div_le_div_right (by omega)

namespace Group

/-- The tokens in front of the window. -/
def skippedTokens (g : Group) (n : ℕ) : ℕ :=
  match g.spec with
  | .slidingWindow w extra => n + 1 - (w + extra)
  | .chunkedLocalAttention c => n / c * c
  | _ => 0

variable {g : Group}

section

variable (hw : g.spec.IsWindow)

include hw

theorem numSkippedBlocks_eq (n : ℕ) : g.numSkippedBlocks n = g.skippedTokens n / g.blockSize := by
  have htokens : g.getNumSkippedTokens n = (g.skippedTokens n : ℤ) := by
    cases hspec : g.spec <;> rw [hspec] at hw <;>
      simp only [getNumSkippedTokens, skippedTokens, hspec, KVCacheSpec.IsWindow] at hw ⊢
    omega
  rw [numSkippedBlocks, htokens, ← Int.natCast_ediv, Int.toNat_natCast]

theorem skippedTokens_le (n : ℕ) : g.skippedTokens n ≤ n := by
  cases hspec : g.spec <;> rw [hspec] at hw <;>
    simp only [skippedTokens, hspec, KVCacheSpec.IsWindow] at hw ⊢
  · omega
  · exact div_mul_le_self n _

theorem skippedTokens_mono {n n' : ℕ} (h : n ≤ n') : g.skippedTokens n ≤ g.skippedTokens n' := by
  cases hspec : g.spec <;> rw [hspec] at hw <;>
    simp only [skippedTokens, hspec, KVCacheSpec.IsWindow] at hw ⊢
  · omega
  · exact Nat.mul_le_mul_right _ (Nat.div_le_div_right h)

theorem numSkippedBlocks_mono {n n' : ℕ} (h : n ≤ n') :
    g.numSkippedBlocks n ≤ g.numSkippedBlocks n' := by
  rw [numSkippedBlocks_eq hw, numSkippedBlocks_eq hw]
  exact Nat.div_le_div_right (skippedTokens_mono hw h)

theorem numSkippedBlocks_mul_le (n : ℕ) : g.numSkippedBlocks n * g.blockSize ≤ n := by
  rw [numSkippedBlocks_eq hw]
  exact (div_mul_le_self _ _).trans (skippedTokens_le hw n)

/-- **The rounding argument.** From the first block the window reads to the last one with a
slot there are no more blocks than the cap. -/
theorem cdiv_le_numSkippedBlocks_add {maxInFlight maxLen numLookahead cap : ℕ}
    (hcap : g.spec.maxAdmissionBlocksPerRequest g.blockSize maxInFlight maxLen = some cap)
    (hfits : g.spec.LookaheadFits g.blockSize maxInFlight maxLen numLookahead) (n : ℕ) :
    cdiv (min (n + maxInFlight + numLookahead) maxLen) g.blockSize ≤
      g.numSkippedBlocks n + cap := by
  have hb := g.blockSize_pos
  rw [numSkippedBlocks_eq hw]
  obtain ⟨q, hq⟩ : ∃ q, g.skippedTokens n / g.blockSize = q := ⟨_, rfl⟩
  -- the first block the window reads starts `skippedTokens n % blockSize` tokens early
  have hdiv : q * g.blockSize + g.skippedTokens n % g.blockSize = g.skippedTokens n := by
    rw [← hq, mul_comm]
    exact div_add_mod _ _
  have hmod := mod_lt (g.skippedTokens n) hb
  have hmono := cdiv_mono g.blockSize (min_le_right (n + maxInFlight + numLookahead) maxLen)
  rw [hq]
  cases hspec : g.spec with
  | slidingWindow w extra =>
    simp only [hspec, KVCacheSpec.IsWindow] at hw
    simp only [hspec, KVCacheSpec.maxAdmissionBlocksPerRequest, Option.some.injEq] at hcap
    simp only [hspec, KVCacheSpec.LookaheadFits] at hfits
    simp only [skippedTokens, hspec] at hdiv hmod
    set tokens := w - 1 + extra + maxInFlight with htokens
    rw [← hcap]
    by_cases hlen : maxLen ≤ tokens
    · rw [min_eq_right hlen]
      omega
    · rw [min_eq_left (show tokens ≤ maxLen by omega)]
      refine cdiv_le_of_le_mul hb ?_
      rw [add_mul, add_mul, one_mul]
      rw [add_mul, one_mul] at hfits
      omega
  | chunkedLocalAttention c =>
    simp only [hspec, KVCacheSpec.IsWindow] at hw
    simp only [hspec, KVCacheSpec.maxAdmissionBlocksPerRequest, Option.some.injEq] at hcap
    simp only [hspec, KVCacheSpec.LookaheadFits] at hfits
    simp only [skippedTokens, hspec] at hdiv hq
    set tokens := c + maxInFlight with htokens
    have hchunk : n < n / c * c + c := by
      have hsplit := div_add_mod n c
      have hlt := mod_lt n hw
      rw [mul_comm c] at hsplit
      omega
    rw [← hcap]
    by_cases hlen : maxLen ≤ tokens
    · rw [min_eq_right hlen]
      omega
    · rw [min_eq_left (show tokens ≤ maxLen by omega)]
      refine cdiv_le_of_le_mul hb ?_
      have hn := hfits (n / c)
      rw [hq, add_mul] at hn
      rw [add_mul]
      omega
  | _ => simp [hspec, KVCacheSpec.IsWindow] at hw

end

end Group

open Core.Group

/-! ## The table of a windowed group -/

namespace Group

variable {g : Group} {m m' : Manager H} {p p' : BlockPool H} {r : ReqId}

/-- When the free entries come first, the backward scan clears all of its range. -/
theorem removeLoop_getD {n : ℕ} {bs : List BlockId}
    (h : ∀ i j, i ≤ j → j < n → bs.getD j nullBlock = nullBlock → bs.getD i nullBlock = nullBlock)
    (i : ℕ) :
    (removeLoop 0 n bs).2.getD i nullBlock = if i < n then nullBlock else bs.getD i nullBlock := by
  induction n generalizing bs with
  | zero => rfl
  | succ n ih =>
    rw [removeLoop]
    by_cases hnull : bs.getD n nullBlock = nullBlock
    · rw [if_pos (Or.inr hnull)]
      split
      next hi => exact h i n (by omega) (by omega) hnull
      · rfl
    · rw [if_neg (by simp only [not_lt_zero, false_or]; exact hnull)]
      have hset : ∀ j, j ≠ n → (bs.set n nullBlock).getD j nullBlock = bs.getD j nullBlock := by
        intro j hj
        rw [getD_eq_getElem?_getD, getElem?_set_ne (Ne.symm hj), ← getD_eq_getElem?_getD]
      have hself : (bs.set n nullBlock).getD n nullBlock = nullBlock := by
        rw [getD_eq_getElem?_getD, getElem?_set_self']
        cases bs[n]? <;> rfl
      show (removeLoop 0 n (bs.set n nullBlock)).2.getD i nullBlock = _
      rw [ih (fun i j hij hj hd => by
        rw [hset j (by omega)] at hd
        rw [hset i (by omega)]
        exact h i j hij (by omega) hd)]
      by_cases hi : i < n
      · rw [if_pos hi, if_pos (by omega)]
      · rw [if_neg hi]
        by_cases heq : i = n
        · rw [if_pos (by omega), heq, hself]
        · rw [if_neg (by omega), hset i heq]

/-- Releasing the blocks of a windowed group clears all blocks in front of the window. -/
theorem removeSkippedBlocks_getD_window (hw : g.spec.IsWindow)
    (hfree : FreeFirst nullBlock (m.blocksOf r)) {processed : ℕ} {np : Option ℕ}
    (h : g.removeSkippedBlocks m p r processed np = .ok (m', p')) (i : ℕ) :
    (m'.blocksOf r).getD i nullBlock =
      if i < g.numSkippedBlocks processed then nullBlock else (m.blocksOf r).getD i nullBlock := by
  have hbase : m' = (g.removeSkippedBase m p r processed).1 := by
    cases hspec : g.spec <;> rw [hspec] at hw <;>
      simp only [KVCacheSpec.IsWindow] at hw <;>
      simp only [removeSkippedBlocks, hspec, Except.ok.injEq] at h <;> rw [h]
  -- positions behind the table are free anyway
  have hlong : (if i < min (g.numSkippedBlocks processed) (m.blocksOf r).length then nullBlock
      else (m.blocksOf r).getD i nullBlock) =
      if i < g.numSkippedBlocks processed then nullBlock else (m.blocksOf r).getD i nullBlock := by
    by_cases hi : i < (m.blocksOf r).length
    · simp only [lt_min_iff, hi, and_true]
    · rw [getD_eq_default _ _ (by omega)]
      simp
  rw [hbase, removeSkippedBase, ← hlong]
  split
  next hnone =>
    have hzero : g.numSkippedBlocks processed = 0 := by
      rw [numSkippedBlocks]
      have : g.getNumSkippedTokens processed / (g.blockSize : ℤ) ≤ 0 :=
        Int.ediv_le_of_le_mul (by have := g.blockSize_pos; omega) (by omega)
      omega
    rw [hzero, zero_min, if_neg (not_lt_zero i)]
  next =>
    rw [removeBlocksInRange]
    split
    next hnothing =>
      have hzero : min (g.numSkippedBlocks processed) (m.blocksOf r).length = 0 := by
        obtain hmissing | hle := hnothing
        · rw [blocksOf, Dict.get?_eq_none_iff.2 hmissing]
          simp
        · omega
      rw [hzero, if_neg (not_lt_zero i)]
    next =>
      rw [blocksOf_setBlocks_self, removeLoop_getD, min_assoc, min_self]
      intro i j hij hj hd
      exact hfree i j hij (by omega) hd

variable [DecidableEq H]

/-- The copy-on-write redirect leaves the occupied entries occupied. -/
theorem redirectPartialHit_table {bs : List BlockId} {owed : Multiset BlockId}
    (hacc : p.Accounts owed) (h : redirectPartialHit m p r = .ok (bs, m', p')) :
    (m'.blocksOf r).length = (m.blocksOf r).length ∧ ∀ i,
      (m'.blocksOf r).getD i nullBlock = nullBlock ↔
        (m.blocksOf r).getD i nullBlock = nullBlock := by
  simp only [redirectPartialHit] at h
  split at h
  · cases h
    exact ⟨rfl, fun _ => Iff.rfl⟩
  next idx src hhit =>
    simp only [applyCow, bind_eq_ok, orRaise_eq_ok, assert_eq_ok] at h
    obtain ⟨⟨new, q⟩, hnew, cow, hcow, ⟨m₁, p₁⟩, ⟨-, hlt, -, hsrc, -, hnull, hok₁⟩, hok⟩ := h
    have hcowNe := (getNewBlocks_ne_null hacc (by decide) hnew cow (mem_of_getElem? hcow)).1
    have htable : m'.blocksOf r = (m.blocksOf r).set idx cow := by
      cases hok₁
      cases hok
      exact m.blocksOf_setBlocks_self r ((m.blocksOf r).set idx cow)
    have hlt' : idx < (m.blocksOf r).length := hlt
    refine ⟨by rw [htable, length_set], fun i => ?_⟩
    rw [htable, getD_eq_getElem?_getD, getD_eq_getElem?_getD]
    by_cases hi : idx = i
    · subst hi
      have hsrc' : (m.blocksOf r)[idx]? = some src := hsrc
      rw [getElem?_set_self hlt', hsrc']
      exact iff_of_false hcowNe hnull.1
    · rw [getElem?_set_ne hi]

/-- The table after the base class's allocation: the entries it had, possibly with a copy in
the place of a shared tail, and fresh blocks up to the number of slots. -/
theorem allocateNewBlocksBase_table {n : ℕ} {out : List BlockId} {G : Multiset BlockId}
    (hG : Sound g G m p) (h : g.allocateNewBlocksBase m p r n = .ok (out, m', p')) :
    ∃ old new, m'.blocksOf r = old ++ new ∧ (∀ b ∈ new, b ≠ nullBlock) ∧
      old.length = (m.blocksOf r).length ∧
      (∀ i, old.getD i nullBlock = nullBlock ↔ (m.blocksOf r).getD i nullBlock = nullBlock) ∧
      (m'.blocksOf r).length = max (m.blocksOf r).length (cdiv n g.blockSize) := by
  obtain ⟨⟨cow, m₁, p₁⟩, hcow, h⟩ := bind_eq_ok.1 h
  have hG₁ : Sound g G m₁ p₁ := (redirectPartialHit_serves hcow).conserves.2 G hG
  have hold := redirectPartialHit_table hG.accounts hcow
  dsimp only at h
  split at h
  next hle =>
    cases h
    refine ⟨m₁.blocksOf r, [], ?_, by simp, hold.1, hold.2, ?_⟩
    · rw [blocksOf_setBlocks_self, append_nil]
    · rw [blocksOf_setBlocks_self]
      omega
  next hgt =>
    obtain ⟨⟨bs, m₂, p₂⟩, hext, hok⟩ := bind_eq_ok.1 h
    cases hok
    obtain ⟨hgrown, hlen⟩ := extendBlocks_grown hG₁.accounts (by omega) hext
    refine ⟨m₁.blocksOf r, bs, hgrown.blocksOf, hgrown.ne_null, hold.1, hold.2, ?_⟩
    rw [hgrown.blocksOf, length_append]
    omega

end Group

/-! ## The calls for one request -/

/-- What is remembered of a request that was granted slots: the processed tokens of the last
granted call, and the tokens that have slots. -/
structure Pace where
  processed : ℕ
  slotted : ℕ

section Calls

variable [DecidableEq H] (cfg : KVCacheConfig) (r : ReqId)

/-- The pace after an operation. -/
def nextPace (t : Option Pace) (s : KVState H) : KVOp H → Option Pace
  | .allocateSlots req args =>
    if req.requestId = r ∧ s.kv.Grants cfg req args then
      some ⟨processedTokens cfg req args,
        max ((t.map Pace.slotted).getD 0) (numTokensMainModel cfg req args)⟩
    else t
  | .free r' | .freeRequestBlocks r' _ => if r' = r then none else t
  | _ => t

/-- The first call of a request: computed tokens come with their blocks, and the hits of a
windowed group begin with null blocks. -/
def FirstCall (j : ℕ) (req : KVRequest H) (args : AllocArgs) : Prop :=
  numLocalComputedTokens req args + args.numExternalComputedTokens ≤ cfg.maxModelLen ∧
    (0 < numLocalComputedTokens req args + args.numExternalComputedTokens → TakesComputed args) ∧
    FreeFirst nullBlock (args.newComputedBlocks.getD j [])
  deriving Decidable

/-- A later call: the processed tokens do not go back, and all computed tokens have slots. -/
def LaterCall (t : Pace) (req : KVRequest H) (args : AllocArgs) : Prop :=
  t.processed ≤ processedTokens cfg req args ∧
    numLocalComputedTokens req args + args.numExternalComputedTokens ≤ t.slotted

/-- The calls for one request: at most `maxInFlight` tokens are scheduled and not processed,
those of this call included, and at most `numLookahead` slots are asked for beyond them. -/
def PacedCall (maxInFlight numLookahead j : ℕ) (t : Option Pace) : KVOp H → Prop
  | .allocateSlots req args => req.requestId = r →
      req.numInFlightTokens + args.numNewTokens ≤ maxInFlight ∧
      args.numLookaheadTokens ≤ numLookahead ∧
      match t with
      | none => FirstCall cfg j req args
      | some t => LaterCall cfg t req args
  -- blocks are cached of requests that have some
  | .cacheBlocks req _ => req.requestId = r → t.isSome
  | _ => True

instance (t : Pace) (req : KVRequest H) (args : AllocArgs) :
    Decidable (LaterCall cfg t req args) :=
  inferInstanceAs (Decidable (_ ∧ _))

instance (maxInFlight numLookahead j : ℕ) (t : Option Pace) (op : KVOp H) :
    Decidable (PacedCall cfg r maxInFlight numLookahead j t op) := by
  induction op using KVOp.casesOn with
  | allocateSlots req args =>
    cases t with
    | none => exact inferInstanceAs (Decidable (_ → _ ∧ _ ∧ FirstCall cfg j req args))
    | some t => exact inferInstanceAs (Decidable (_ → _ ∧ _ ∧ LaterCall cfg t req args))
  | cacheBlocks req _ => exact inferInstanceAs (Decidable (req.requestId = r → t.isSome))
  | _ => exact isTrue trivial

end Calls

/-! ## The invariant -/

/-- The table of a request after a granted call: the blocks in front of the window are gone,
and there is no slot beyond the tokens in flight and the lookahead. -/
structure Windowed (g : Group) (maxInFlight numLookahead maxLen : ℕ) (r : ReqId) (t : Pace)
    (m : Manager H) : Prop where
  freeFirst : FreeFirst nullBlock (m.blocksOf r)
  skipped : ∀ i < g.numSkippedBlocks t.processed, (m.blocksOf r).getD i nullBlock = nullBlock
  length_le : (m.blocksOf r).length ≤
    cdiv (min (t.processed + maxInFlight + numLookahead) maxLen) g.blockSize
  slotted_le : min t.slotted maxLen ≤ (m.blocksOf r).length * g.blockSize
  ne_nil : m.blocksOf r ≠ []

namespace Windowed

variable {g : Group} {maxInFlight numLookahead : ℕ} {r : ReqId} {t : Pace}
  {m m' : Manager H} {cfg : KVCacheConfig}

theorem of_blocksOf_eq {maxLen : ℕ} (h : Windowed g maxInFlight numLookahead maxLen r t m)
    (heq : m'.blocksOf r = m.blocksOf r) : Windowed g maxInFlight numLookahead maxLen r t m' := by
  refine ⟨?_, ?_, ?_, ?_, ?_⟩ <;> rw [heq]
  exacts [h.freeFirst, h.skipped, h.length_le, h.slotted_le, h.ne_nil]

/-- **The bound.** -/
theorem occupancy_le {maxLen cap : ℕ} (h : Windowed g maxInFlight numLookahead maxLen r t m)
    (hw : g.spec.IsWindow)
    (hcap : g.spec.maxAdmissionBlocksPerRequest g.blockSize maxInFlight maxLen = some cap)
    (hfits : g.spec.LookaheadFits g.blockSize maxInFlight maxLen numLookahead) :
    occupancy nullBlock (m.blocksOf r) ≤ cap := by
  have hround := cdiv_le_numSkippedBlocks_add hw hcap hfits t.processed
  have hlen := h.length_le
  have hcount : occupancy nullBlock (m.blocksOf r) ≤
      (m.blocksOf r).length - g.numSkippedBlocks t.processed := by
    refine occupancy_le_of_interval fun i hi => ?_
    by_contra hlt
    exact hi (h.skipped i (by omega))
  omega

/-- Releasing blocks keeps the invariant. -/
theorem released {maxLen n : ℕ} {np : Option ℕ} (hw : g.spec.IsWindow)
    (h : Windowed g maxInFlight numLookahead maxLen r t m) (hrel : Released g r n np m m') :
    Windowed g maxInFlight numLookahead maxLen r t m' := by
  obtain ⟨G, p, p', -, hcall⟩ := hrel
  have hsparser := (removeSkippedBlocks_released hcall).1.cleared.sparser
  have hgetD := removeSkippedBlocks_getD_window hw h.freeFirst hcall
  refine ⟨h.freeFirst.clear_below hsparser.length_eq hgetD, fun i hi => ?_, ?_, ?_, ?_⟩
  · rw [hgetD, h.skipped i hi, ite_self]
  · rw [hsparser.length_eq]
    exact h.length_le
  · rw [hsparser.length_eq]
    exact h.slotted_le
  · intro hnil
    have hlen := hsparser.length_eq
    rw [hnil] at hlen
    exact h.ne_nil (eq_nil_of_length_eq_zero hlen.symm)

variable [DecidableEq H] {req : KVRequest H} {args : AllocArgs}

section

variable (hc : 0 < cfg.maxModelLen) (hw : g.spec.IsWindow)

include hc hw

/-- Extending a table in which the window is clear of released blocks. -/
theorem of_extended {slotted : ℕ}
    (hflight : req.numInFlightTokens + args.numNewTokens ≤ maxInFlight)
    (hlook : args.numLookaheadTokens ≤ numLookahead)
    (hfree : FreeFirst nullBlock (m.blocksOf req.requestId))
    (hskipped : ∀ i < g.numSkippedBlocks (processedTokens cfg req args),
      (m.blocksOf req.requestId).getD i nullBlock = nullBlock)
    (hshort : g.numSkippedBlocks (processedTokens cfg req args) ≤
      (m.blocksOf req.requestId).length) (hlen : (m.blocksOf req.requestId).length ≤
      cdiv (min (processedTokens cfg req args + maxInFlight + numLookahead)
        cfg.maxModelLen) g.blockSize) (hslotted : min slotted cfg.maxModelLen ≤
      (m.blocksOf req.requestId).length * g.blockSize) (hext : Extended cfg req args g m m') :
    Windowed g maxInFlight numLookahead cfg.maxModelLen req.requestId ⟨processedTokens cfg req args,
        max slotted (numTokensMainModel cfg req args)⟩ m' := by
  obtain ⟨bs, G, p, p', hpos, hG, hcall⟩ := hext
  have hbase : g.allocateNewBlocksBase m p req.requestId
      (numTokensNeedSlot cfg req args) = .ok (bs, m', p') := by
    cases hspec : g.spec <;> rw [hspec] at hw <;> simp only [KVCacheSpec.IsWindow] at hw <;>
      simpa [Group.allocateNewBlocks, hspec] using hcall
  obtain ⟨old, new, htable, hnew, hold, hsame, hlen'⟩ :=
    allocateNewBlocksBase_table hG hbase
  have hb := g.blockSize_pos
  -- the slots of this call
  have hneed : numTokensNeedSlot cfg req args ≤
      min (processedTokens cfg req args + maxInFlight + numLookahead)
        cfg.maxModelLen := by
    simp only [numTokensNeedSlot, numTokensMainModel, processedTokens]
    omega
  have hneedPos : 0 < numTokensNeedSlot cfg req args := by
    rw [numTokensNeedSlot]
    omega
  refine ⟨?_, fun i hi => ?_, ?_, ?_, ?_⟩
  · rw [htable]
    exact (hfree.congr hold hsame).append hnew
  · rw [htable, getD_append _ _ _ _ (by rw [hold]; exact hi.trans_le hshort), hsame]
    exact hskipped i hi
  · rw [hlen']
    exact max_le hlen (cdiv_mono _ hneed)
  · rw [hlen']
    have hleft := mul_le_mul_right g.blockSize (le_max_left
      (m.blocksOf req.requestId).length
      (cdiv (numTokensNeedSlot cfg req args) g.blockSize))
    have hright := mul_le_mul_right g.blockSize (le_max_right
      (m.blocksOf req.requestId).length
      (cdiv (numTokensNeedSlot cfg req args) g.blockSize))
    have hmain := le_cdiv_mul (numTokensNeedSlot cfg req args) hb
    have hcut : min (numTokensMainModel cfg req args) cfg.maxModelLen ≤
        numTokensNeedSlot cfg req args := by
      rw [numTokensNeedSlot]
      omega
    show min (max slotted (numTokensMainModel cfg req args)) cfg.maxModelLen ≤ _
    omega
  · intro hnil
    rw [hnil] at hlen'
    have := cdiv_pos hneedPos hb
    simp only [length_nil] at hlen'
    omega

/-- A later call. -/
theorem granted (h : Windowed g maxInFlight numLookahead cfg.maxModelLen req.requestId t m)
    (hflight : req.numInFlightTokens + args.numNewTokens ≤ maxInFlight)
    (hlook : args.numLookaheadTokens ≤ numLookahead) (hlater : LaterCall cfg t req args)
    {m₁ : Manager H} {np : Option ℕ}
    (hrel : Released g req.requestId (processedTokens cfg req args) np m m₁)
    (hext : Extended cfg req args g m₁ m') :
    Windowed g maxInFlight numLookahead cfg.maxModelLen req.requestId ⟨processedTokens cfg req args,
        max t.slotted (numTokensMainModel cfg req args)⟩ m' := by
  have h₁ := h.released hw hrel
  obtain ⟨G, p, p', -, hcall⟩ := hrel
  have hsparser := (removeSkippedBlocks_released hcall).1.cleared.sparser
  have hgetD := removeSkippedBlocks_getD_window hw h.freeFirst hcall
  refine of_extended hc hw hflight hlook h₁.freeFirst (fun i hi => ?_) ?_ ?_ h₁.slotted_le hext
  · rw [hgetD, if_pos hi]
  · -- the processed tokens have slots
    have hskip := numSkippedBlocks_mul_le hw (processedTokens cfg req args)
    have hprocessed : processedTokens cfg req args ≤ min t.slotted cfg.maxModelLen := by
      have := hlater.2
      rw [processedTokens, totalComputedTokens]
      omega
    exact le_of_mul_le_mul_right ((hskip.trans hprocessed).trans h₁.slotted_le)
      g.blockSize_pos
  · refine h₁.length_le.trans (cdiv_mono _ ?_)
    have := hlater.1
    omega

/-- The first call, after the hits and the external tokens. -/
theorem first {j : ℕ} (hflight : req.numInFlightTokens + args.numNewTokens ≤ maxInFlight)
    (hlook : args.numLookaheadTokens ≤ numLookahead) (hfirst : FirstCall cfg j req args)
    (hnc : (args.newComputedBlocks.getD j []).length ≤
      cdiv (numLocalComputedTokens req args) g.blockSize) {m₂ : Manager H}
    (hcomputed : m₂.blocksOf req.requestId = [] ∧ ¬ TakesComputed args ∨
      TookComputed req args g (args.newComputedBlocks.getD j []) m m₂)
    (hext : Extended cfg req args g m₂ m') :
    Windowed g maxInFlight numLookahead cfg.maxModelLen req.requestId ⟨processedTokens cfg req args,
        max 0 (numTokensMainModel cfg req args)⟩ m' := by
  obtain ⟨hlen, htakes, hhits⟩ := hfirst
  have hb := g.blockSize_pos
  set total := numLocalComputedTokens req args + args.numExternalComputedTokens
    with htotal
  have hprocessed : processedTokens cfg req args ≤ total := by
    rw [processedTokens, totalComputedTokens]
    omega
  have hflight' : total ≤ processedTokens cfg req args + maxInFlight := by
    rw [processedTokens, totalComputedTokens]
    omega
  have hskip := numSkippedBlocks_mono hw hprocessed
  obtain ⟨hnil, hnone⟩ | htook := hcomputed
  · -- nothing is computed
    have hzero : total = 0 := by
      by_contra hne
      exact hnone (htakes (by omega))
    have hskipZero : g.numSkippedBlocks total = 0 := by
      have := numSkippedBlocks_mul_le hw total
      rw [hzero, le_zero, mul_eq_zero] at this
      rw [hzero]
      omega
    refine of_extended hc hw hflight hlook ?_ ?_ ?_ ?_ ?_ hext <;> rw [hnil]
    · exact .nil
    · exact fun i _ => rfl
    · simp only [length_nil]
      omega
    · exact zero_le _
    · simp
  · obtain ⟨-, ext, htable, hne, hextLen, -, -⟩ := htook.table (by
      cases hspec : g.spec <;> rw [hspec] at hw <;> simp_all [KVCacheSpec.IsWindow]) hnc htotal
    have hskipTotal : g.numSkippedBlocks total ≤ cdiv total g.blockSize :=
      le_of_mul_le_mul_right ((numSkippedBlocks_mul_le hw total).trans
        (le_cdiv_mul total hb)) hb
    have hge : g.numSkippedBlocks total ≤ (m₂.blocksOf req.requestId).length := by
      rw [htable]
      simp only [length_append, length_replicate]
      omega
    have hle : (m₂.blocksOf req.requestId).length ≤ cdiv total g.blockSize := by
      by_cases hnil : ext = []
      · have hnc' := hnc.trans (cdiv_mono g.blockSize (show _ ≤ total by omega))
        rw [htable, hnil]
        simp only [length_append, length_replicate, length_drop, length_nil]
        omega
      · rw [hextLen hnil]
    refine of_extended hc hw hflight hlook ?_ (fun i hi => ?_) (hskip.trans hge) ?_ ?_ hext
    · rw [htable]
      exact ((hhits.drop _).replicate_append _).append hne
    · rw [htable, append_assoc, getD_append _ _ _ _ (by simp; omega), getD_replicate _ (by omega)]
    · refine hle.trans (cdiv_mono _ ?_)
      omega
    · simp

end

end Windowed

/-! ## Runs -/

section Runs

variable [DecidableEq H] {cfg : KVCacheConfig} {r : ReqId} {j : ℕ} {g : Group}
  {m m' : Manager H} {op : KVOp H}

/-- A request that no manager knows stays unknown, and without blocks, until it is granted
slots. -/
theorem ManagerStep.unknown {s : KVCacheManager H} (hstep : ManagerStep cfg s j g m m' op)
    (hgrant : ∀ req args, op = .allocateSlots req args → req.requestId = r →
      ¬ s.Grants cfg req args) (hcache : ∀ req n, op = .cacheBlocks req n → req.requestId ≠ r)
    (h : r ∉ m.numCachedBlock) :
    r ∉ m'.numCachedBlock ∧ (m.blocksOf r = [] → m'.blocksOf r = []) := by
  have hreleased : ∀ {r' n np} {m m' : Manager H}, r ∉ m.numCachedBlock → Released g r' n np m m' →
      r ∉ m'.numCachedBlock ∧ (m.blocksOf r = [] → m'.blocksOf r = []) := by
    rintro r' n np m m' hm ⟨_, _, _, _, hcall⟩
    have honly := (removeSkippedBlocks_released hcall).1
    refine ⟨honly.numCachedBlock ▸ hm, fun hnil => ?_⟩
    by_cases hr' : r = r'
    · subst hr'
      have hsparser := (removeSkippedBlocks_released hcall).1.cleared.sparser
      rw [hnil] at hsparser
      exact hsparser.eq_nil
    · rw [honly.others r hr', hnil]
  by_cases hr : op.Concerns r
  · cases hstep with
    | same hop _ _ => exact absurd hr (hop r)
    | cache _ => exact absurd hr (hcache _ _ rfl)
    | free hpop =>
      obtain rfl := hr
      subst hpop
      exact ⟨notMem_numCachedBlock_popBlocksForFree, fun _ => blocksOf_popBlocksForFree⟩
    | freeRequest hpop =>
      obtain rfl := hr
      subst hpop
      exact ⟨notMem_numCachedBlock_popBlocksForFree, fun _ => blocksOf_popBlocksForFree⟩
    | release hrel => exact hreleased h hrel
    | decline _ hsame =>
      subst hsame
      exact ⟨h, id⟩
    | refuse _ hrel => exact hreleased h hrel
    | grant granted _ _ _ _ => exact absurd granted (hgrant _ _ rfl hr)
  · have hsame := hstep.sameFor hr
    refine ⟨?_, fun hnil => by rw [hsame.blocksOf, hnil]⟩
    rw [← Dict.get?_eq_none_iff] at h ⊢
    rw [hsame.numCachedBlock, h]

/-- What holds of a request and its table in group `j` at a pace. -/
def PaceHolds (maxInFlight numLookahead maxLen j : ℕ) (r : ReqId) (t : Option Pace)
    (s : KVState H) : Prop :=
  match t with
  | none => (∀ gm ∈ s.kv.managers, r ∉ gm.2.numCachedBlock) ∧
      ∀ gm ∈ s.kv.managers[j]?, gm.2.blocksOf r = []
  | some t => ∀ gm ∈ s.kv.managers[j]?, gm.1.spec.IsWindow →
      Windowed gm.1 maxInFlight numLookahead maxLen r t gm.2

variable {maxInFlight numLookahead : ℕ} {t : Option Pace} {s s' : KVState H}

/-- An operation that neither grants the request slots nor drops it. -/
theorem PaceHolds.kept (hmanagers : ∀ i g m', s'.kv.managers[i]? = some (g, m') →
      ∃ m, s.kv.managers[i]? = some (g, m) ∧ ManagerStep cfg s.kv i g m m' op)
    (hgrant : ∀ req args, op = .allocateSlots req args → req.requestId = r →
      ¬ s.kv.Grants cfg req args)
    (hcache : ∀ req n, op = .cacheBlocks req n → req.requestId = r → t.isSome)
    (hfree : op ≠ .free r) (hfreeReq : ∀ seq, op ≠ .freeRequestBlocks r seq)
    (h : PaceHolds maxInFlight numLookahead cfg.maxModelLen j r t s) :
    PaceHolds maxInFlight numLookahead cfg.maxModelLen j r t s' := by
  cases t with
  | none =>
    have hcache' : ∀ req n, op = .cacheBlocks req n → req.requestId ≠ r :=
      fun req n hop hr => absurd (hcache req n hop hr) (by simp)
    refine ⟨fun gm hgm => ?_, fun gm hgm => ?_⟩
    · obtain ⟨i, hi⟩ := mem_iff_getElem?.1 hgm
      obtain ⟨m, hm, hstep⟩ := hmanagers i gm.1 gm.2 hi
      exact (hstep.unknown hgrant hcache' (h.1 _ (mem_of_getElem? hm))).1
    · obtain ⟨m, hm, hstep⟩ := hmanagers j gm.1 gm.2 hgm
      exact (hstep.unknown hgrant hcache' (h.1 _ (mem_of_getElem? hm))).2 (h.2 _ hm)
  | some t =>
    intro gm hgm hw
    obtain ⟨m, hm, hstep⟩ := hmanagers j gm.1 gm.2 hgm
    have hwindowed : Windowed gm.1 maxInFlight numLookahead cfg.maxModelLen r t m :=
      h (gm.1, m) hm hw
    by_cases hr : op.Concerns r
    · cases hstep with
      | same hop _ _ => exact absurd hr (hop r)
      | cache hcached => exact hwindowed.of_blocksOf_eq (hcached.sameTables.blocksOf r)
      | free _ => exact absurd (congrArg KVOp.free hr) hfree
      | freeRequest _ => exact absurd (congrArg (KVOp.freeRequestBlocks · _) hr) (hfreeReq _)
      | release hrel =>
        obtain rfl := hr
        exact hwindowed.released hw hrel
      | decline _ hsame => exact hwindowed.of_blocksOf_eq (congrArg (blocksOf · r) hsame)
      | refuse _ hrel =>
        obtain rfl := hr
        exact hwindowed.released hw hrel
      | grant granted _ _ _ _ => exact absurd granted (hgrant _ _ rfl hr)
    · exact hwindowed.of_blocksOf_eq (hstep.sameFor hr).blocksOf

omit [DecidableEq H] in
/-- Dropping a request. -/
theorem PaceHolds.dropped
    (hmanagers : ∀ (i : ℕ) (g : Group) (m' : Manager H), s'.kv.managers[i]? = some (g, m') →
      ∃ m : Manager H, m' = (g.popBlocksForFree m r).2) :
    PaceHolds maxInFlight numLookahead cfg.maxModelLen j r none s' := by
  refine ⟨fun gm hgm => ?_, fun gm hgm => ?_⟩
  · obtain ⟨i, hi⟩ := mem_iff_getElem?.1 hgm
    obtain ⟨m, hm⟩ := hmanagers i gm.1 gm.2 hi
    rw [hm]
    exact notMem_numCachedBlock_popBlocksForFree
  · obtain ⟨m, hm⟩ := hmanagers j gm.1 gm.2 hgm
    rw [hm]
    exact blocksOf_popBlocksForFree

/-- A granted call for the request. -/
theorem PaceHolds.granted {req : KVRequest H} {args : AllocArgs} (hc : 0 < cfg.maxModelLen)
    (hpaced : PacedCall cfg req.requestId maxInFlight numLookahead j t (.allocateSlots req args))
    (hits : s.HitsWithin j (.allocateSlots req args)) (hgrant : s.kv.Grants cfg req args)
    (hmanagers : ∀ i g m', s'.kv.managers[i]? = some (g, m') → ∃ m,
      s.kv.managers[i]? = some (g, m) ∧ ManagerStep cfg s.kv i g m m' (.allocateSlots req args))
    (h : PaceHolds maxInFlight numLookahead cfg.maxModelLen j req.requestId t s) :
    PaceHolds maxInFlight numLookahead cfg.maxModelLen j req.requestId
      (some ⟨processedTokens cfg req args,
        max ((t.map Pace.slotted).getD 0) (numTokensMainModel cfg req args)⟩) s' := by
  intro gm hgm hw
  obtain ⟨m, hm, hstep⟩ := hmanagers j gm.1 gm.2 hgm
  obtain ⟨hflight, hlook, hcall⟩ := hpaced rfl
  have hnc := hits (gm.1, m) hm
  cases hstep with
  | same hop _ _ => exact absurd rfl (hop req.requestId)
  | decline refused _ => exact absurd hgrant refused
  | refuse refused _ => exact absurd hgrant refused
  | @grant _ _ m₁ m₂ m₃ _ released computed extended cached =>
    refine Windowed.of_blocksOf_eq ?_ (cached.sameTables.blocksOf _)
    cases t with
    | none =>
      refine Windowed.first (m := m₁) hc hw hflight hlook hcall hnc ?_ extended
      refine computed.imp (fun hnone => ⟨?_, ?_⟩) And.right
      · obtain ⟨_, _, _, _, hremove⟩ := released
        have hsparser := (removeSkippedBlocks_released hremove).1.cleared.sparser
        rw [h.2 _ hm] at hsparser
        rw [hnone.1, hsparser.eq_nil]
      · refine hnone.2.resolve_right ?_
        rintro ⟨gm', hmem, hknown⟩
        exact h.1 gm' hmem hknown
    | some t =>
      have hwindowed : Windowed gm.1 maxInFlight numLookahead cfg.maxModelLen
          req.requestId t m := h (gm.1, m) hm hw
      obtain ⟨rfl, -⟩ | ⟨-, htook⟩ := computed
      · exact hwindowed.granted hc hw hflight hlook hcall released extended
      · -- a request with a table takes no computed blocks
        refine absurd (htook.table ?_ hnc rfl).1 (hwindowed.released hw released).ne_nil
        cases hspec : gm.1.spec <;> rw [hspec] at hw <;> simp_all [KVCacheSpec.IsWindow]

section

variable (hc : 0 < cfg.maxModelLen) (b : s.Balanced)
  (h : PaceHolds maxInFlight numLookahead cfg.maxModelLen j r t s)

include hc b h

/-- **One operation** keeps the pace. -/
theorem PaceHolds.step (hv : s.OpValid op) (hits : s.HitsWithin j op)
    (hpaced : PacedCall cfg r maxInFlight numLookahead j t op) (hstep : s.step cfg op = .ok s') :
    PaceHolds maxInFlight numLookahead cfg.maxModelLen j r (nextPace cfg r t s op) s' := by
  have hmanagers : ∀ i g m', s'.kv.managers[i]? = some (g, m') →
      ∃ m, s.kv.managers[i]? = some (g, m) ∧ ManagerStep cfg s.kv i g m m' op :=
    fun i g m' hm' => step_managers hc b hv hstep hm'
  cases op with
  | allocateSlots req args =>
    by_cases hcall : req.requestId = r ∧ s.kv.Grants cfg req args
    · obtain ⟨rfl, hgrant⟩ := hcall
      rw [nextPace, if_pos ⟨rfl, hgrant⟩]
      exact h.granted hc hpaced hits hgrant hmanagers
    · rw [nextPace, if_neg hcall]
      refine h.kept hmanagers ?_ (by simp) (by simp) (by simp)
      rintro req' args' ⟨⟩ hr hgrant
      exact hcall ⟨hr, hgrant⟩
  | cacheBlocks req n =>
    refine h.kept hmanagers (by simp) ?_ (by simp) (by simp)
    rintro req' n' ⟨⟩
    exact hpaced
  | free r' =>
    rw [nextPace]
    split
    next hr =>
      subst hr
      refine .dropped fun i g m' hm' => ?_
      obtain ⟨m, -, hmstep⟩ := hmanagers i g m' hm'
      cases hmstep with
      | same hop _ _ => exact absurd rfl (hop r')
      | free hpop => exact ⟨m, hpop⟩
    next hr => exact h.kept hmanagers (by simp) (by simp) (by simp [hr]) (by simp)
  | freeRequestBlocks r' seq =>
    rw [nextPace]
    split
    next hr =>
      subst hr
      refine .dropped fun i g m' hm' => ?_
      obtain ⟨m, -, hmstep⟩ := hmanagers i g m' hm'
      cases hmstep with
      | same hop _ _ => exact absurd rfl (hop r')
      | freeRequest hpop => exact ⟨m, hpop⟩
    next hr => exact h.kept hmanagers (by simp) (by simp) (by simp) (by simp [hr])
  | _ => exact h.kept hmanagers (by simp) (by simp) (by simp) (by simp)

/-- **The invariant of runs.** -/
theorem paceHolds_of_run {ops : List (KVOp H)}
    (htracks : KVState.RunTracks cfg (nextPace cfg r) (fun t s op => s.OpValid op ∧
      s.HitsWithin j op ∧ PacedCall cfg r maxInFlight numLookahead j t op) t ops s)
    (hrun : run cfg ops s = .ok s') :
    ∃ t, PaceHolds maxInFlight numLookahead cfg.maxModelLen j r t s' := by
  obtain ⟨t', -, ht'⟩ := run_invariant (I := fun t s => s.Balanced ∧
    PaceHolds maxInFlight numLookahead cfg.maxModelLen j r t s)
    (fun t s op s' hi hcond hstep => ⟨step_balanced hc hi.1 hcond.1 hstep,
      hi.2.step hc hi.1 hcond.1 hcond.2.1 hcond.2.2 hstep⟩) ⟨b, h⟩ htracks hrun
  exact ⟨t', ht'⟩

end

/-- **The cap bounds real usage** in every run in which at most `maxInFlight` tokens of the
request are scheduled and not processed, as long as the lookahead slots fit in what rounding
the window up to blocks leaves. -/
theorem occupancy_le_maxAdmissionBlocks (cfg : KVCacheConfig) (hc : 0 < cfg.maxModelLen)
    (numBlocks : ℕ) (groups : List Group) (defer : Bool) (ops : List (KVOp H)) (s : KVState H)
    (maxInFlight numLookahead j : ℕ) (r : ReqId)
    (htracks : KVState.RunTracks cfg (nextPace cfg r) (fun t s op => s.OpValid op ∧
      s.HitsWithin j op ∧ PacedCall cfg r maxInFlight numLookahead j t op) none ops
      (.init cfg numBlocks groups defer))
    (hrun : run cfg ops (.init cfg numBlocks groups defer) = .ok s) (g : Group)
    (m : Manager H) (hm : s.kv.managers[j]? = some (g, m)) (hw : g.spec.IsWindow)
    (hfits : g.spec.LookaheadFits g.blockSize maxInFlight cfg.maxModelLen numLookahead) (cap : ℕ)
    (hcap : g.spec.maxAdmissionBlocksPerRequest g.blockSize maxInFlight cfg.maxModelLen =
      some cap) : occupancy nullBlock (m.blocksOf r) ≤ cap := by
  have hinit : PaceHolds maxInFlight numLookahead cfg.maxModelLen j r none
      (.init cfg numBlocks groups defer : KVState H) := by
    refine ⟨fun gm hgm => ?_, fun gm hgm => ?_⟩
    · obtain ⟨g, -, rfl⟩ := mem_map.1 hgm
      exact Dict.notMem_empty r
    · simp only [KVState.init, KVCacheManager.init, getElem?_map, Option.mem_def,
        Option.map_eq_some_iff] at hgm
      obtain ⟨g, -, rfl⟩ := hgm
      rfl
  obtain ⟨t, ht⟩ := paceHolds_of_run hc (balanced_init cfg numBlocks groups defer) hinit
    htracks hrun
  cases t with
  | none =>
    rw [ht.2 (g, m) hm, occupancy_nil]
    exact zero_le _
  | some t => exact (ht (g, m) hm hw).occupancy_le hw hcap hfits

end Runs

/-! Blocks of four tokens, one request of 32 tokens that is given slots in three calls. -/

namespace ThreeCalls

def cfg : KVCacheConfig := .small false 4 4

def group (spec : KVCacheSpec) : Group := .small cfg (by decide) spec 0 false

/-- The request, with `n` tokens computed and processed. -/
def req (n : ℕ) : KVRequest ℕ := .small 0 32 32 n [] false

/-- Three calls for `a`, `b` and `c` tokens. -/
def ops (a b c lookahead : ℕ) : List (KVOp ℕ) :=
  [.allocateSlots (req 0) { numNewTokens := a, numLookaheadTokens := lookahead },
    .allocateSlots (req a) { numNewTokens := b, numLookaheadTokens := lookahead },
    .allocateSlots (req (a + b)) { numNewTokens := c, numLookaheadTokens := lookahead }]

def start (spec : KVCacheSpec) : KVState ℕ := .init cfg 10 [group spec] false

def final (spec : KVCacheSpec) (a b c lookahead : ℕ) : KVState ℕ :=
  (run cfg (ops a b c lookahead) (start spec)).toOption.getD (start spec)

def held (s : KVState ℕ) : List ℕ :=
  s.kv.managers.map fun gm => occupancy nullBlock (gm.2.blocksOf 0)

end ThreeCalls

open ThreeCalls

/-- A window of four tokens with four in flight has room for two lookahead tokens. -/
theorem occupancy_le_maxAdmissionBlocks_threeCalls :
    ∃ g m, (final (.slidingWindow 4 0) 3 3 4 2).kv.managers[0]? = some (g, m) ∧
      occupancy nullBlock (m.blocksOf 0) ≤ 3 := by
  have hgroups : (final (.slidingWindow 4 0) 3 3 4 2).kv.managers.map Prod.fst =
      [group (.slidingWindow 4 0)] := by
    decide +kernel
  obtain ⟨⟨g, m⟩, hms, hg⟩ := map_eq_singleton_iff.1 hgroups
  obtain rfl : g = group (.slidingWindow 4 0) := hg
  have hm : (final (.slidingWindow 4 0) 3 3 4 2).kv.managers[0]? =
      some (group (.slidingWindow 4 0), m) := by
    rw [hms]
    rfl
  refine ⟨_, m, hm, occupancy_le_maxAdmissionBlocks cfg (by decide) 10
    [group (.slidingWindow 4 0)] false (ops 3 3 4 2) _ 4 2 0 0
    (by decide +kernel) (eq_ok_getD _ (by decide +kernel)) _ m hm ?_ ?_ 3 rfl⟩
  · show 0 < 4
    decide
  · left
    decide

/-- The cap counts neither the lookahead slots nor the tokens by which a chunk starts inside a
block. With a window of four tokens, five in flight and two lookahead tokens a request holds
four blocks where the cap is three; so does a request in chunks of six tokens with six in
flight and no lookahead. -/
theorem maxAdmissionBlocks_lt_occupancy :
    (maxAdmissionBlocksPerRequest 4 5 64 (.slidingWindow 4 0) = some 3 ∧
      run cfg (ops 3 3 5 2) (start (.slidingWindow 4 0)) =
        .ok (final (.slidingWindow 4 0) 3 3 5 2) ∧
      KVState.RunTracks cfg (nextPace cfg 0) (fun t s op => s.OpValid op ∧
        s.HitsWithin 0 op ∧ PacedCall cfg 0 5 2 0 t op) none (ops 3 3 5 2)
        (start (.slidingWindow 4 0)) ∧ held (final (.slidingWindow 4 0) 3 3 5 2) = [4]) ∧
    maxAdmissionBlocksPerRequest 4 6 64 (.chunkedLocalAttention 6) = some 3 ∧ run cfg (ops 6 5 6 0)
          (start (.chunkedLocalAttention 6)) = .ok (final (.chunkedLocalAttention 6) 6 5 6 0) ∧
      KVState.RunTracks cfg (nextPace cfg 0) (fun t s op => s.OpValid op ∧
        s.HitsWithin 0 op ∧ PacedCall cfg 0 6 0 0 t op) none (ops 6 5 6 0)
        (start (.chunkedLocalAttention 6)) ∧
      held (final (.chunkedLocalAttention 6) 6 5 6 0) = [4] := by
  refine ⟨⟨rfl, eq_ok_getD _ (by decide +kernel), by decide +kernel, by decide +kernel⟩,
    rfl, eq_ok_getD _ (by decide +kernel), by decide +kernel, by decide +kernel⟩

end KVarN.Core
