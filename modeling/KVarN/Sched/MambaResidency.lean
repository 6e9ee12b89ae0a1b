import KVarN.Core.ManagerStep
import KVarN.Sched.System

/-!
# Resident states of a Mamba "align" group

A Mamba group in "align" mode keeps the running state of a request in one block, a block
for each speculative token behind it, and the state the running one is copied from.
`MambaSpec.max_memory_usage_bytes` sizes the pool by these `2 + num_speculative_blocks`
blocks. The state of two steps ago is released through an index the manager remembers,
`last_state_block_idx`; the index is overwritten by the next allocation, whether its block
was released or not.

## Main definitions

* `Group.ReplacesLastState` — a call that overwrites the remembered index.
* `Group.LastStatePassed` — the remembered block lies behind the processed tokens.
* `LastStateReleased` — every call that overwrites the index of a request releases its
  block.
* `Resident` — where the blocks of a request can be.

## Main results

* `allocateNewBlocksAlign_table` — the table after an "align" allocation.
* `resident_of_run` — the invariant of runs.
* `mamba_align_residency` — **at most `2 + num_speculative_blocks` blocks** in every run in
  which the remembered blocks are released.
-/

namespace KVarN.Core

open KVarN.Lib KVState Manager List

variable {H : Type}

/-! ## The table after an allocation -/

namespace Group

variable {g : Group} {m m' : Manager H} {p p' : BlockPool H} {r : ReqId}
  {numSkipped q k : ℕ} {bs bs' : List BlockId} {allocated : Bool}

/-- The loop that moves the speculative blocks from position `i` on: it clears positions
below `numSkipped` and appends at the end. -/
theorem reuseSpecBlocks_getD {n : ℕ} {i : ℤ} (h0 : 0 ≤ i)
    (hlen : i + n ≤ bs.length) (h : reuseSpecBlocks numSkipped i n bs = .ok bs')
    (hq : bs'.getD q nullBlock ≠ nullBlock) :
    (bs.getD q nullBlock ≠ nullBlock ∧ ((q : ℤ) < i ∨ i + n ≤ q ∨ numSkipped ≤ q)) ∨
      bs.length ≤ q := by
  induction n generalizing i bs with
  | zero =>
    cases h
    exact Or.inl ⟨hq, by omega⟩
  | succ n ih =>
    rw [reuseSpecBlocks] at h
    split at h
    next hi =>
      rw [pyIndex_of_nonneg h0 (by omega)] at h
      simp only [orRaise, ok_bind] at h
      rw [pyIndex_of_nonneg h0 (by rw [length_append]; omega)] at h
      obtain ⟨hset, hwhere⟩ | hlong := ih (by omega) (by simp; omega) h
      · -- the entry moved away is cleared, so the position is another one
        have hne : q ≠ i.toNat := by
          rintro rfl
          rw [getD_eq_getElem?_getD, getElem?_set_self (by simp; omega)] at hset
          exact hset rfl
        rw [getD_eq_getElem?_getD, getElem?_set_ne (Ne.symm hne)] at hset
        by_cases hlt : q < bs.length
        · rw [getElem?_append_left hlt, ← getD_eq_getElem?_getD] at hset
          exact Or.inl ⟨hset, by omega⟩
        · exact Or.inr (by omega)
      · simp only [length_set, length_append, length_cons, length_nil]
          at hlong
        exact Or.inr (by omega)
    next hi =>
      cases h
      exact Or.inl ⟨hq, by omega⟩

/-- The table after the states were shifted: an occupied position was occupied before, and
is no speculative one below `numSkipped`, or it is new. -/
theorem shiftStates_getD (ha : allocated = true → k ≤ bs.length)
    (h : shiftStates numSkipped k allocated bs = .ok bs') (hq : bs'.getD q nullBlock ≠ nullBlock) :
    (bs.getD q nullBlock ≠ nullBlock ∧ (allocated = true → q + k < bs.length ∨ numSkipped ≤ q)) ∨
      (bs.length ≤ q ∧ numSkipped ≤ q) := by
  rw [shiftStates] at h
  split at h
  next hal =>
    have hk := ha hal
    obtain ⟨hold, hwhere⟩ | hnew := reuseSpecBlocks_getD (by omega) (by simp) h hq
    · obtain ⟨hlt, hold⟩ := getD_append_replicate hold
      exact Or.inl ⟨hold, fun _ => by omega⟩
    · simp only [length_append, length_replicate] at hnew
      exact Or.inr (by omega)
  next hal =>
    cases h
    exact Or.inl ⟨(getD_append_replicate hq).2, fun htrue => absurd htrue hal⟩

variable [DecidableEq H]

/-- **The table after an "align" allocation.** Either it was long enough and nothing
changes, or the index of the last state is overwritten and the occupied positions are old
ones or among the last `num_speculative_blocks + 1`. -/
theorem allocateNewBlocksAlign_table {k n : ℕ} {out : List BlockId} {G : Multiset BlockId}
    (hg : g.spec = .mamba .align k) (hn : 0 < n) (hG : Sound g G m p)
    (h : g.allocateNewBlocksAlign m p r n k = .ok (out, m', p')) : r ∈ m'.allocatedBlockReqs ∧
      (cdiv n g.blockSize + k ≤ (m.blocksOf r).length ∧ r ∉ m.partialHitReqs ∧
          m'.blocksOf r = m.blocksOf r ∧ m'.lastStateBlockIdx = m.lastStateBlockIdx ∨
        ((m.blocksOf r).length < cdiv n g.blockSize + k ∨ r ∈ m.partialHitReqs) ∧
          m'.lastStateBlockIdx = (recordLastState m r (m.blocksOf r).length k).lastStateBlockIdx ∧
          (m'.blocksOf r).length = max (m.blocksOf r).length (cdiv n g.blockSize + k) ∧
          ∀ q, (m'.blocksOf r).getD q nullBlock ≠ nullBlock →
            ((m.blocksOf r).getD q nullBlock ≠ nullBlock ∧ (r ∈ m.allocatedBlockReqs →
                q + k < (m.blocksOf r).length ∨ cdiv n g.blockSize ≤ q + 1)) ∨
              ((m.blocksOf r).length ≤ q ∧ cdiv n g.blockSize ≤ q + 1)) := by
  have hcdiv := cdiv_pos hn g.blockSize_pos
  simp only [allocateNewBlocksAlign] at h
  split at h
  next hlong =>
    cases h
    refine ⟨mem_markAllocated.2 (Or.inl rfl), Or.inl ⟨hlong.1, hlong.2, ?_, rfl⟩⟩
    show (m.setBlocks r (m.blocksOf r)).blocksOf r = _
    rw [blocksOf_setBlocks_self]
  next hshort =>
    simp only [bind_eq_ok, assert_eq_ok] at h
    obtain ⟨shifted, hshift, -, -, ⟨new, p₁⟩, hnew, ⟨cow, rest, m₂, p₂⟩, hcow, hok⟩ := h
    dsimp only at hnew hcow
    have hmem : r ∈ m'.allocatedBlockReqs := by
      cases hok
      exact mem_markAllocated.2 (Or.inl rfl)
    have hlast : m'.lastStateBlockIdx = m₂.lastStateBlockIdx := by
      cases hok
      rfl
    have htable : m'.blocksOf r = m₂.blocksOf r ++ rest := by
      cases hok
      show (m₂.setBlocks r (m₂.blocksOf r ++ rest)).blocksOf r = _
      rw [blocksOf_setBlocks_self]
    have hal : decide (r ∈ m.allocatedBlockReqs) = true → k ≤ (m.blocksOf r).length :=
      fun ha => (hG.valid.allocated k hg r (of_decide_eq_true ha)).le
    obtain ⟨-, hlo, hhi⟩ := shiftStates_spec hal hshift
    obtain ⟨-, ⟨hsparser, -, hlast₂, -⟩, -, hrest⟩ := alignCow_frame hcow
    rw [blocksOf_setBlocks_self] at hsparser
    have hhits : r ∈ ((recordLastState m r (m.blocksOf r).length k).setBlocks r
        shifted).partialHitReqs ↔ r ∈ m.partialHitReqs := by
      show r ∈ (recordLastState m r (m.blocksOf r).length k).partialHitReqs ↔ _
      rw [(recordLastState_frame _ _).2.2.1]
    simp only [hhits] at hrest
    -- how many blocks the pool was asked for
    have hneeds : (m.blocksOf r).length < cdiv n g.blockSize + k ∨ r ∈ m.partialHitReqs := by
      by_contra hc
      exact hshort ⟨by omega, fun hp => hc (Or.inr hp)⟩
    have hlenRest : shifted.length + rest.length =
        max (m.blocksOf r).length (cdiv n g.blockSize + k) := by
      by_cases hp : r ∈ m.partialHitReqs
      · rw [if_pos hp] at hnew hrest
        have hcount := (hG.accounts.getNewBlocks (by omega) hnew).2.2
        rw [hrest, length_drop]
        omega
      · rw [if_neg hp] at hnew hrest
        have hlt := hneeds.resolve_right hp
        have hcount := (hG.accounts.getNewBlocks (by omega) hnew).2.2
        rw [hrest]
        omega
    refine ⟨hmem, Or.inr ⟨hneeds, hlast.trans hlast₂, ?_, fun q hq => ?_⟩⟩
    · rw [htable, length_append, hsparser.length_eq, hlenRest]
    · rw [htable] at hq
      by_cases hold : q < shifted.length
      · rw [getD_append _ _ _ _ (by rw [hsparser.length_eq]; exact hold)] at hq
        obtain ⟨hocc, hwhere⟩ | hfresh := shiftStates_getD hal hshift (hsparser.getD_ne q hq)
        · refine Or.inl ⟨hocc, fun ha => ?_⟩
          have := hwhere (decide_eq_true ha)
          omega
        · exact Or.inr (by omega)
      · -- a fresh block
        exact Or.inr (by omega)

end Group

open Core.Group

/-! ## Releasing the last state -/

namespace Group

variable {g : Group} {m m' : Manager H} {p p' : BlockPool H} {r : ReqId}

theorem add_one_lt_cdiv {i b n : ℕ} (hb : 0 < b) (h : (i + 1) * b < n) : i + 1 < cdiv n b := by
  rw [cdiv, Nat.lt_iff_add_one_le, Nat.le_div_iff_mul_le hb, Nat.add_mul (i + 1), Nat.one_mul]
  omega

/-- The remembered block is cleared once the processed tokens are past it. -/
theorem freeLastState_getD {processed i : ℕ}
    (hlast : m.lastStateBlockIdx.get? r = some (i : ℤ)) (hpast : (i + 1) * g.blockSize < processed)
    (h : g.freeLastState m p r processed = .ok (m', p')) :
    (m'.blocksOf r).getD i nullBlock = nullBlock := by
  have hlt := add_one_lt_cdiv g.blockSize_pos hpast
  simp only [freeLastState, hlast] at h
  rw [if_pos (by omega)] at h
  simp only [bind_eq_ok, orRaise_eq_ok] at h
  obtain ⟨j, hj, h⟩ := h
  obtain rfl : j = i := by
    simp only [pyIndex] at hj
    split at hj
    · split at hj <;> simp_all
    · omega
  split at h
  · cases h
    rw [blocksOf_setBlocks_self, getD_eq_getElem?_getD, getElem?_set_self']
    cases (m.blocksOf r)[j]? <;> rfl
  next hnull =>
    cases h
    simpa using hnull

theorem removeSkippedBlocks_getD_last {k processed i : ℕ} {np : Option ℕ}
    (hg : g.spec = .mamba .align k) (hlast : m.lastStateBlockIdx.get? r = some (i : ℤ))
    (hpast : (i + 1) * g.blockSize < processed)
    (h : g.removeSkippedBlocks m p r processed np = .ok (m', p')) :
    (m'.blocksOf r).getD i nullBlock = nullBlock := by
  simp only [removeSkippedBlocks, hg] at h
  rcases hbase : g.removeSkippedBase m p r processed with ⟨m₁, p₁⟩
  rw [hbase] at h
  refine freeLastState_getD ?_ hpast h
  rw [(removeSkippedBase_released hbase).1.lastStateBlockIdx, hlast]

end Group

/-! ## The condition on a run -/

section Condition

variable (cfg : KVCacheConfig) (g : Group) (m : Manager H) (req : KVRequest H) (args : AllocArgs)

/-- The call needs more blocks than the request has, or moves its partial tail: the index of
the last state is overwritten. -/
def Group.ReplacesLastState (k : ℕ) : Prop :=
  (m.blocksOf req.requestId).length <
      cdiv (KVCacheManager.numTokensMainModel cfg req args) g.blockSize + k ∨
    req.requestId ∈ m.partialHitReqs
  deriving Decidable

/-- The remembered block is released already, lies behind the processed tokens, or is still
among the last `num_speculative_blocks + 1`. -/
def Group.LastStatePassed (k : ℕ) : Prop :=
  ∀ i < (m.blocksOf req.requestId).length, m.lastStateBlockIdx.get? req.requestId = some (i : ℤ) →
      (m.blocksOf req.requestId).getD i nullBlock = nullBlock ∨
        (i + 1) * g.blockSize < KVCacheManager.processedTokens cfg req args ∨
        (m.blocksOf req.requestId).length ≤ i + k + 1

instance (k : ℕ) : Decidable (g.LastStatePassed cfg m req args k) :=
  inferInstanceAs (Decidable (∀ i < (m.blocksOf req.requestId).length, _))

/-- A granted call for the request that overwrites the index of its last state finds the
remembered block passed. -/
def LastStateReleased [DecidableEq H] (j k : ℕ) (r : ReqId) (s : KVState H) : KVOp H → Prop
  | .allocateSlots req args => req.requestId = r → s.kv.Grants cfg req args →
      ∀ gm ∈ s.kv.managers[j]?, gm.1.ReplacesLastState cfg gm.2 req args k →
        gm.1.LastStatePassed cfg gm.2 req args k
  | _ => True

instance [DecidableEq H] (j k : ℕ) (r : ReqId) (s : KVState H) (op : KVOp H) :
    Decidable (LastStateReleased cfg j k r s op) := by
  induction op using KVOp.casesOn with
  | allocateSlots req args => exact inferInstanceAs (Decidable (req.requestId = r →
      s.kv.Grants cfg req args → ∀ gm ∈ s.kv.managers[j]?, _ → _))
  | _ => exact isTrue trivial

end Condition

/-! ## The invariant -/

/-- Where the blocks of a request can be: in the last `num_speculative_blocks + 1` positions,
or at the remembered index. -/
structure Resident (k : ℕ) (r : ReqId) (m : Manager H) : Prop where
  fresh : r ∉ m.allocatedBlockReqs → m.blocksOf r = []
  occupied : r ∈ m.allocatedBlockReqs → ∀ i, (m.blocksOf r).getD i nullBlock ≠ nullBlock →
    (m.blocksOf r).length ≤ i + k + 1 ∨ m.lastStateBlockIdx.get? r = some (i : ℤ)

namespace Resident

variable {k : ℕ} {r : ReqId} {g : Group} {m m' : Manager H}

theorem of_blocksOf_nil (h : m.blocksOf r = []) : Resident k r m := by
  refine ⟨fun _ => h, fun _ i hi => ?_⟩
  rw [h] at hi
  exact absurd rfl hi

theorem sameFor (h : Resident k r m) (hsame : m.SameFor r m') : Resident k r m' := by
  refine ⟨fun hr => ?_, fun hr => ?_⟩
  · rw [hsame.blocksOf]
    exact h.fresh (mt hsame.allocatedBlockReqs.2 hr)
  · rw [hsame.blocksOf, hsame.lastStateBlockIdx]
    exact h.occupied (hsame.allocatedBlockReqs.1 hr)

theorem sameTables (h : Resident k r m) (hsame : m.SameTables m') : Resident k r m' := by
  refine ⟨fun hr => ?_, fun hr => ?_⟩
  · rw [hsame.blocksOf]
    exact h.fresh (hsame.allocatedBlockReqs ▸ hr)
  · rw [hsame.blocksOf, hsame.lastStateBlockIdx]
    exact h.occupied (hsame.allocatedBlockReqs ▸ hr)

/-- **The bound.** -/
theorem occupancy_le (h : Resident k r m) : occupancy nullBlock (m.blocksOf r) ≤ 2 + k := by
  by_cases hr : r ∈ m.allocatedBlockReqs
  · set n := (m.blocksOf r).length with hn
    set last := ((m.lastStateBlockIdx.get? r).getD 0).toNat with hlast
    have hcard : (insert last (Finset.Ico (n - (k + 1)) n)).card ≤ 2 + k := by
      have hinsert := Finset.card_insert_le last (Finset.Ico (n - (k + 1)) n)
      rw [Nat.card_Ico] at hinsert
      omega
    refine (occupancy_le_card _ fun i hi => ?_).trans hcard
    rw [Finset.mem_insert, Finset.mem_Ico]
    obtain hpos | hidx := h.occupied hr i hi
    · have hlt : i < n := by
        by_contra hge
        exact hi (getD_eq_default _ _ (by omega))
      exact Or.inr (by omega)
    · rw [hidx] at hlast
      exact Or.inl (by simpa using hlast.symm)
  · rw [h.fresh hr]
    simp

/-- Releasing blocks keeps the invariant. -/
theorem released {n : ℕ} {np : Option ℕ} (h : Resident k r m) (hrel : Released g r n np m m') :
    Resident k r m' := by
  obtain ⟨G, p, p', -, hcall⟩ := hrel
  have honly := (removeSkippedBlocks_released hcall).1
  have hsparser := honly.cleared.sparser
  refine ⟨fun hr => ?_, fun hr i hi => ?_⟩
  · rw [honly.allocatedBlockReqs] at hr
    rw [h.fresh hr] at hsparser
    exact hsparser.eq_nil
  · rw [honly.allocatedBlockReqs] at hr
    rw [hsparser.length_eq, honly.lastStateBlockIdx]
    exact h.occupied hr i (hsparser.getD_ne i hi)

variable [DecidableEq H] {cfg : KVCacheConfig} {req : KVRequest H} {args : AllocArgs}

omit [DecidableEq H] in
theorem cdiv_le_numSkippedBlocks {mode : MambaCacheMode} (hg : g.spec = .mamba mode k) (n : ℕ) :
    cdiv n g.blockSize ≤ g.numSkippedBlocks n + 1 := by
  have hb := g.blockSize_pos
  simp only [numSkippedBlocks, getNumSkippedTokens, hg]
  cases n with
  | zero =>
    rw [cdiv, Nat.div_eq_of_lt (by omega)]
    exact Nat.zero_le _
  | succ n =>
    rw [show ((n + 1 : ℕ) : ℤ) - 1 = (n : ℤ) by omega, ← Int.natCast_ediv, Int.toNat_natCast,
      cdiv, show n + 1 + g.blockSize - 1 = n + g.blockSize by omega, Nat.add_div_right n hb]

section

variable (hg : g.spec = .mamba .align k)

include hg

/-- After the hits and the external tokens only the last block holds a state. -/
theorem tookComputed_last {nc : List BlockId}
    (hnc : nc.length ≤ cdiv (KVCacheManager.numLocalComputedTokens req args) g.blockSize)
    (h : TookComputed req args g nc m m') {i : ℕ}
    (hi : (m'.blocksOf req.requestId).getD i nullBlock ≠ nullBlock) :
    i + 1 = (m'.blocksOf req.requestId).length := by
  obtain ⟨-, ext, htable, -, hlen, -, -⟩ := h.table (by rw [hg]; simp) hnc rfl
  set total := KVCacheManager.numLocalComputedTokens req args + args.numExternalComputedTokens
  have hskip := cdiv_le_numSkippedBlocks hg total
  have hnc' : nc.length ≤ g.numSkippedBlocks total + 1 :=
    (hnc.trans (Nat.div_le_div_right (by omega))).trans hskip
  have hshort : (m'.blocksOf req.requestId).length ≤ g.numSkippedBlocks total + 1 := by
    by_cases hext : ext = []
    · rw [htable, hext, append_nil, length_append, length_replicate, length_drop]
      omega
    · rw [hlen hext]
      exact hskip
  have hlt : i < (m'.blocksOf req.requestId).length := by
    by_contra hge
    exact hi (getD_eq_default _ _ (by omega))
  have hge : g.numSkippedBlocks total ≤ i := by
    by_contra hbelow
    apply hi
    rw [htable, append_assoc, getD_append _ _ _ _ (by simpa using hbelow),
      getD_replicate _ (by omega)]
  omega

/-- Extending the table of a running request. -/
theorem extended_running (h : Resident k req.requestId m)
    (hrunning : req.requestId ∈ m.allocatedBlockReqs)
    (hpassed : g.ReplacesLastState cfg m req args k → ∀ i,
      (m.blocksOf req.requestId).getD i nullBlock ≠ nullBlock →
        (m.blocksOf req.requestId).length ≤ i + k + 1)
    (hext : Extended cfg req args g m m') : Resident k req.requestId m' := by
  obtain ⟨bs, G, p, p', hpos, hG, hcall⟩ := hext
  simp only [allocateNewBlocks, hg] at hcall
  obtain ⟨hmem, ⟨-, -, htable, hlast⟩ | ⟨hneeds, hlast, hlen, hocc⟩⟩ :=
    allocateNewBlocksAlign_table hg hpos hG hcall
  · refine ⟨fun hr => absurd hmem hr, fun _ => ?_⟩
    rw [htable, hlast]
    exact h.occupied hrunning
  · refine ⟨fun hr => absurd hmem hr, fun _ i hi => ?_⟩
    rw [hlen, hlast, recordLastState, if_pos hrunning, Dict.get?_set_self]
    obtain ⟨hold, hwhere⟩ | hnew := hocc i hi
    · have hin := hpassed hneeds i hold
      obtain hbefore | hskip := hwhere hrunning
      · right
        congr 1
        omega
      · left
        omega
    · left
      omega

/-- Extending the table of a request that takes its first blocks. -/
theorem extended_new (hnew : req.requestId ∉ m.allocatedBlockReqs)
    (hlastOnly : ∀ i, (m.blocksOf req.requestId).getD i nullBlock ≠ nullBlock →
      i + 1 = (m.blocksOf req.requestId).length)
    (hext : Extended cfg req args g m m') : Resident k req.requestId m' := by
  obtain ⟨bs, G, p, p', hpos, hG, hcall⟩ := hext
  simp only [allocateNewBlocks, hg] at hcall
  obtain ⟨hmem, ⟨-, -, htable, hlast⟩ | ⟨hneeds, hlast, hlen, hocc⟩⟩ :=
    allocateNewBlocksAlign_table hg hpos hG hcall
  · refine ⟨fun hr => absurd hmem hr, fun _ i hi => ?_⟩
    rw [htable] at hi ⊢
    have := hlastOnly i hi
    left
    omega
  · refine ⟨fun hr => absurd hmem hr, fun _ i hi => ?_⟩
    obtain ⟨hold, -⟩ | hfresh := hocc i hi
    · have hend := hlastOnly i hold
      right
      rw [hlast, recordLastState, if_neg hnew, if_pos (by omega), Dict.get?_set_self]
      congr 1
      omega
    · left
      rw [hlen]
      omega

/-- **One operation** keeps the invariant. -/
theorem step {s : KVState H} {op : KVOp H} {j : ℕ}
    (h : Resident k r m) (hm : s.kv.managers[j]? = some (g, m)) (hits : s.HitsWithin j op)
    (hreleased : LastStateReleased cfg j k r s op) (hstep : ManagerStep cfg s.kv j g m m' op) :
    Resident k r m' := by
  by_cases hr : op.Concerns r
  · cases hstep with
    | same hop hsame cached => exact h.sameTables hsame
    | cache hcached => exact h.sameTables hcached.sameTables
    | free hpop =>
      obtain rfl := hr
      exact hpop ▸ of_blocksOf_nil blocksOf_popBlocksForFree
    | freeRequest hpop =>
      obtain rfl := hr
      exact hpop ▸ of_blocksOf_nil blocksOf_popBlocksForFree
    | release hrel =>
      obtain rfl := hr
      exact h.released hrel
    | decline refused hsame => exact hsame ▸ h
    | refuse refused hrel =>
      obtain rfl := hr
      exact h.released hrel
    | @grant req args m₁ m₂ m₃ granted released computed extended cached =>
      obtain rfl := hr
      have h₁ := h.released released
      have hnc := hits (g, m) hm
      refine sameTables ?_ cached.sameTables
      obtain ⟨G, p, p', hG, hcall⟩ := released
      have honly := (removeSkippedBlocks_released hcall).1
      have hsparser := honly.cleared.sparser
      by_cases hrunning : req.requestId ∈ m₁.allocatedBlockReqs
      · -- a running request has a table, so it takes no computed blocks
        have hlong := hG.valid.allocated k hg _ (honly.allocatedBlockReqs ▸ hrunning)
        rw [← hsparser.length_eq] at hlong
        obtain ⟨rfl, -⟩ | ⟨-, htook⟩ := computed
        · refine extended_running hg h₁ hrunning (fun hreplaces i hi => ?_) extended
          rw [Group.ReplacesLastState, hsparser.length_eq, honly.partialHitReqs] at hreplaces
          obtain hlast | hidx := h₁.occupied hrunning i hi
          · exact hlast
          rw [honly.lastStateBlockIdx] at hidx
          have hlt : i < (m.blocksOf req.requestId).length := by
            rw [← hsparser.length_eq]
            by_contra hge
            exact hi (getD_eq_default _ _ (by omega))
          obtain hnull | hpast | hlast :=
            hreleased rfl granted (g, m) hm hreplaces i hlt hidx
          · exact absurd hnull (hsparser.getD_ne i hi)
          · exact absurd (removeSkippedBlocks_getD_last hg hidx hpast hcall) hi
          · rw [hsparser.length_eq]
            exact hlast
        · rw [(htook.table (by rw [hg]; simp) hnc rfl).1] at hlong
          simp at hlong
      · obtain ⟨rfl, -⟩ | ⟨-, htook⟩ := computed
        · refine extended_new hg hrunning (fun i hi => ?_) extended
          rw [h₁.fresh hrunning] at hi
          exact absurd rfl hi
        · have hnew : req.requestId ∉ m₂.allocatedBlockReqs := by
            obtain ⟨-, _, -, -, -, -, hsame⟩ := htook.table (by rw [hg]; simp) hnc rfl
            rwa [hsame]
          exact extended_new hg hnew (fun i hi => tookComputed_last hg hnc htook hi) extended
  · exact h.sameFor (hstep.sameFor hr)

end

end Resident

/-! ## Runs -/

section Runs

variable [DecidableEq H]

/-- **The invariant of runs.** -/
theorem resident_of_run {cfg : KVCacheConfig} (hc : 0 < cfg.maxModelLen) {j k : ℕ} {r : ReqId}
    {ops : List (KVOp H)} {s s' : KVState H} (b : s.Balanced)
    (h : ∀ g m, s.kv.managers[j]? = some (g, m) → g.spec = .mamba .align k → Resident k r m)
    (hmeets : KVState.RunMeets cfg (fun s op => s.OpValid op ∧ s.HitsWithin j op ∧
      LastStateReleased cfg j k r s op) ops s)
    (hrun : run cfg ops s = .ok s') {g : Group} {m : Manager H}
    (hm : s'.kv.managers[j]? = some (g, m)) (hg : g.spec = .mamba .align k) : Resident k r m := by
  obtain ⟨-, -, hresident⟩ := run_invariant (I := fun (_ : Unit) s => s.Balanced ∧ ∀ g m,
    s.kv.managers[j]? = some (g, m) → g.spec = .mamba .align k → Resident k r m)
    (fun _ s op s' hi hcond hstep => ⟨step_balanced hc hi.1 hcond.1 hstep, fun g m' hm' hg => by
        obtain ⟨m, hm, hmstep⟩ := step_managers hc hi.1 hcond.1 hstep hm'
        exact (hi.2 g m hm hg).step hg hm hcond.2.1 hcond.2.2 hmstep⟩) ⟨b, h⟩ hmeets hrun
  exact hresident g m hm hg

/-- **Residency of a Mamba "align" group.** In every run of the operations on the KV cache in
which each granted call that overwrites the index of a request's last state finds the
remembered block passed by the processed tokens, the request never holds more than
`2 + num_speculative_blocks` blocks, whatever the chunks, the steps in flight and the
speculative tokens are. -/
theorem mamba_align_residency (cfg : KVCacheConfig) (hc : 0 < cfg.maxModelLen) (numBlocks : ℕ)
    (groups : List Group) (defer : Bool) (ops : List (KVOp H)) (s : KVState H) (j k : ℕ) (r : ReqId)
    (hmeets : KVState.RunMeets cfg (fun s op => s.OpValid op ∧ s.HitsWithin j op ∧
      LastStateReleased cfg j k r s op) ops (.init cfg numBlocks groups defer))
    (hrun : run cfg ops (.init cfg numBlocks groups defer) = .ok s) (g : Group)
    (m : Manager H) (hm : s.kv.managers[j]? = some (g, m)) (hg : g.spec = .mamba .align k) :
    occupancy nullBlock (m.blocksOf r) ≤ 2 + k := by
  refine (resident_of_run hc (balanced_init cfg numBlocks groups defer)
    (fun g m hm _ => ?_) hmeets hrun hm hg).occupancy_le
  -- a fresh manager has no tables
  simp only [KVState.init, KVCacheManager.init, getElem?_map, Option.map_eq_some_iff] at hm
  obtain ⟨_, -, heq⟩ := hm
  cases heq
  exact .of_blocksOf_nil rfl

end Runs

end KVarN.Core

namespace KVarN.Sched

open KVarN.Lib KVarN.Core

namespace Small

def mambaKv : KVCacheConfig := .small true 2 2

/-- A Mamba group in "align" mode, without speculative blocks. -/
def mambaGroup : Group := .small mambaKv (by decide) (.mamba .align 0) 0 false

def mambaConfig : SchedulerConfig ℕ := { config with
  maxNumScheduledTokens := 4
  maxNumBatchedTokens := 4
  cacheBlockSize := 2
  blockSize := 2
  needMambaBlockAlignedSplit := true
  kv := mambaKv
  hasher := fun r => List.range (r.numTokens / 2) }

def mambaParams : RequestParams := { params with promptTokenIds := some (List.range 16) }

def mambaStart : System ℕ where
  s := .init (.init mambaKv 10 [mambaGroup] false) (.init 10) 0 fun _ => .ofParams mambaParams
  inFlight := []

def mambaAfter (events : List Event) : System ℕ :=
  (System.run mambaConfig events mambaStart).toOption.getD mambaStart

/-- Prefill chunks, with one step in flight when the next is scheduled. -/
def chunksInFlight : List Event :=
  [.addRequest 0 mambaParams (fun _ => false), .schedule env, .schedule env, .output (sampled []),
    .schedule env]

def heldBlocks (y : System ℕ) : List ℕ :=
  y.s.kv.kv.managers.map fun gm => occupancy nullBlock (gm.2.blocksOf 0)

/-- The request, with `n` tokens computed and processed. -/
def mambaRequest (n : ℕ) : KVRequest ℕ := .small 0 16 16 n (List.range 8) false

/-- Chunks that are processed before the next one is scheduled. -/
def chunksProcessed : List (KVOp ℕ) :=
  [.allocateSlots (mambaRequest 0) { numNewTokens := 4 },
    .allocateSlots (mambaRequest 4) { numNewTokens := 4 },
    .allocateSlots (mambaRequest 8) { numNewTokens := 4 }]

def mambaProcessed : KVState ℕ :=
  (KVState.run mambaKv chunksProcessed (.init mambaKv 10 [mambaGroup] false)).toOption.getD
    (.init mambaKv 10 [mambaGroup] false)

end Small

open KVarN.Sched.Small

/-- The bound at three chunks of two blocks each. -/
theorem mamba_align_residency_small :
    ∃ g m, mambaProcessed.kv.managers[0]? = some (g, m) ∧ g.spec = .mamba .align 0 ∧
      occupancy nullBlock (m.blocksOf 0) ≤ 2 + 0 := by
  have hgroups : mambaProcessed.kv.managers.map Prod.fst = [mambaGroup] := by
    decide +kernel
  obtain ⟨⟨g, m⟩, hms, hg⟩ := List.map_eq_singleton_iff.1 hgroups
  have hm : mambaProcessed.kv.managers[0]? = some (g, m) := by rw [hms]; rfl
  have hspec : g.spec = .mamba .align 0 := by rw [show g = mambaGroup from hg]; rfl
  exact ⟨g, m, hm, hspec, mamba_align_residency mambaKv (by decide) 10 [mambaGroup]
    false chunksProcessed mambaProcessed 0 0 0 (by decide +kernel)
    (eq_ok_getD _ (by decide +kernel)) g m hm hspec⟩

/-- With a step in flight, chunks of several blocks leave every other state block behind: the
third chunk finds the block of the first one not yet passed and forgets its index. The request
then holds three blocks, four after the next chunk, and none of them is given back before the
request ends. -/
theorem mamba_align_states_leak : System.run mambaConfig chunksInFlight mambaStart =
        .ok (mambaAfter chunksInFlight) ∧ (mambaAfter chunksInFlight).s.kv.kv.managers.map
          (fun gm => (gm.1, gm.2.partialHitReqs.get? 0)) = [(mambaGroup, none)] ∧
      heldBlocks (mambaAfter chunksInFlight) = [3] ∧ heldBlocks (mambaAfter (chunksInFlight ++
        [.output (sampled []), .schedule env])) = [4] :=
  ⟨eq_ok_getD _ (by decide +kernel), by decide +kernel, by decide +kernel, by decide +kernel⟩

end KVarN.Sched
