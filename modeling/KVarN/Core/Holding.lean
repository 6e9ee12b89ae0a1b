import KVarN.Core.Tables

/-!
# The references a manager holds

A manager holds references to blocks in its block tables and, for both ends of a
pending copy, outside of them. `Manager.held` collects these references. One
lemma per operation says how it moves references between the manager, the pool
and its caller, and what it does to the block tables; the rules of the
reference-count library do the counting.

## Main definitions

* `Manager.held` — the references of one manager.
* `Sound` — a manager and the pool agree, next to any other owed references.
* `Conserves` — an operation keeps a manager sound.
* `Serves` — it also changes nothing for other requests.

## Main results

* `Group.removeSkippedBlocks_released` — releasing blocks only clears entries.
* `Group.allocateNewBlocks_serves`, `Group.cacheBlocks_cached` — allocating and caching.
-/

namespace KVarN.Core

open KVarN.Lib Manager Dict List Multiset BlockPool

/-! ## References held in a table -/

variable (d : Dict ReqId (List BlockId)) (r : ReqId)

/-- The references of all block lists of a dictionary. -/
def tableRefs : Multiset BlockId := real d.values.flatten

theorem tableRefs_pop : tableRefs (d.pop r) + real ((d.get? r).getD []) = tableRefs d := by
  cases h : d.get? r with
  | none =>
    rw [pop_of_notMem (get?_eq_none_iff.1 h)]
    simp
  | some bs =>
    have hp := (values_perm_pop h).flatten
    rw [tableRefs, tableRefs, real_perm hp, flatten_cons, real_append, Option.getD_some, add_comm]

theorem tableRefs_set (bs : List BlockId) : tableRefs (d.set r bs) + real ((d.get? r).getD []) =
    tableRefs d + real bs := by
  have hp := (values_set_perm d r bs).flatten
  rw [tableRefs, real_perm hp, flatten_cons, real_append, add_assoc]
  exact (congrArg (real bs + ·) (tableRefs_pop d r)).trans (add_comm _ _)

/-- Both ends of every pending copy. -/
def copyEnds (copies : List (BlockId × BlockId)) : List BlockId :=
  copies.flatMap fun c => [c.1, c.2]

@[simp] theorem copyEnds_append (cs ds : List (BlockId × BlockId)) :
    copyEnds (cs ++ ds) = copyEnds cs ++ copyEnds ds := by
  simp [copyEnds]

variable {H : Type} (m : Manager H) (bs : List BlockId)

/-- The references a manager holds. -/
def Manager.held : Multiset BlockId :=
  tableRefs m.reqToBlocks + real (copyEnds m.pendingCowCopies)

theorem Manager.held_setBlocks : (m.setBlocks r bs).held + real (m.blocksOf r) = m.held + real bs :=
    by
  have h := tableRefs_set m.reqToBlocks r bs
  calc (m.setBlocks r bs).held + real (m.blocksOf r)
      = (tableRefs (m.reqToBlocks.set r bs) + real (m.blocksOf r))
          + real (copyEnds m.pendingCowCopies) := by
        simp only [held, setBlocks]; abel
    _ = tableRefs m.reqToBlocks + real bs + real (copyEnds m.pendingCowCopies) := by
        rw [← h]; rfl
    _ = m.held + real bs := by rw [held]; abel

/-- A table that grows: the new references are added. -/
theorem Manager.held_append : (m.setBlocks r (m.blocksOf r ++ bs)).held = m.held + real bs := by
  have h := m.held_setBlocks r (m.blocksOf r ++ bs)
  rw [real_append, ← add_assoc, add_right_comm] at h
  exact add_right_cancel h

/-- A table that gives up references. -/
theorem Manager.held_shrink {m : Manager H} {r : ReqId} {bs gone : List BlockId}
    (h : real bs + real gone = real (m.blocksOf r)) :
    (m.setBlocks r bs).held + real gone = m.held := by
  have h' := m.held_setBlocks r bs
  rw [← h, ← add_assoc, add_right_comm] at h'
  exact add_right_cancel h'

theorem Manager.mem_held {m : Manager H} {r : ReqId} {b : BlockId} (hb : b ∈ m.blocksOf r)
    (h0 : b ≠ nullBlock) : b ∈ m.held := by
  refine mem_add.2 (Or.inl (mem_real.2 ⟨?_, h0⟩))
  cases h : m.reqToBlocks.get? r with
  | none => simp [blocksOf, h] at hb
  | some bs =>
    simp only [blocksOf, h, Option.getD_some] at hb
    exact mem_flatten.2 ⟨bs, mem_values_iff.2 ⟨r, h⟩, hb⟩

/-! ## What a manager operation keeps -/

/-- Structural facts about a manager over `n` blocks: handed-off blocks exist, and
a running Mamba "align" request has its state block and its speculative blocks. -/
structure Manager.Valid (g : Group) (n : ℕ) (m : Manager H) : Prop where
  offloads : ∀ e ∈ m.pendingPartialTailOffloads, e.2.2.1 < n
  allocated : ∀ k, g.spec = .mamba .align k → ∀ r ∈ m.allocatedBlockReqs, k < (m.blocksOf r).length

/-- The manager is valid and the pool accounts for it next to other references. -/
structure Sound (g : Group) (F : Multiset BlockId) (m : Manager H) (p : BlockPool H) : Prop where
  accounts : p.Accounts (F + m.held)
  valid : m.Valid g p.numGpuBlocks

/-- An operation keeps a manager sound next to any other owed references. -/
def Conserves (g : Group) (m m' : Manager H) (p p' : BlockPool H) : Prop :=
  p'.numGpuBlocks = p.numGpuBlocks ∧ ∀ F, Sound g F m p → Sound g F m' p'

namespace Conserves

variable {g : Group} {m} {m' m'' : Manager H} {p p' p'' : BlockPool H}

theorem refl : Conserves g m m p p := ⟨rfl, fun _ h => h⟩

theorem trans (h : Conserves g m m' p p') (h' : Conserves g m' m'' p' p'') :
    Conserves g m m'' p p'' :=
  ⟨h'.1.trans h.1, fun F s => h'.2 F (h.2 F s)⟩

/-- Bookkeeping that touches no table, no copy and no count. -/
theorem of_same (hn : p'.numGpuBlocks = p.numGpuBlocks) (hr : p'.refs = p.refs)
    (hb : m'.reqToBlocks = m.reqToBlocks) (hc : m'.pendingCowCopies = m.pendingCowCopies)
    (ho : m'.pendingPartialTailOffloads = m.pendingPartialTailOffloads)
    (ha : ∀ r, r ∈ m'.allocatedBlockReqs → r ∈ m.allocatedBlockReqs) : Conserves g m m' p p' := by
  refine ⟨hn, fun F s => ⟨?_, ?_, ?_⟩⟩
  · have hu : p'.univ = p.univ := by rw [BlockPool.univ, BlockPool.univ, hn]
    rw [held, hb, hc, BlockPool.Accounts, hr, hu]
    exact s.accounts
  · rw [ho, hn]; exact s.valid.offloads
  · intro k hk r hr'
    rw [blocksOf, hb]
    exact s.valid.allocated k hk r (ha r hr')

end Conserves

/-- An operation for one request keeps the manager sound and changes nothing for the others. -/
structure Serves (g : Group) (r : ReqId) (m m' : Manager H) (p p' : BlockPool H) : Prop where
  conserves : Conserves g m m' p p'
  others : ∀ r', r' ≠ r → m.SameFor r' m'

theorem Serves.refl {g : Group} {r : ReqId} {m : Manager H} {p : BlockPool H} :
    Serves g r m m p p := ⟨.refl, fun r' _ => .refl r' m⟩

/-- Tables that keep their length keep a manager valid. -/
theorem Manager.Valid.setBlocks {g : Group} {n : ℕ} {m : Manager H} (h : m.Valid g n) {r : ReqId}
    {bs : List BlockId} (hl : (m.blocksOf r).length ≤ bs.length) :
    (m.setBlocks r bs).Valid g n where
  offloads := h.offloads
  allocated k hk r' hr' := by
    have := h.allocated k hk r' hr'
    rw [blocksOf_setBlocks]
    split
    · next e => subst e; omega
    · exact this

theorem Manager.Valid.congr {g : Group} {n : ℕ} {m m' : Manager H} (h : m.Valid g n)
    (ho : m'.pendingPartialTailOffloads = m.pendingPartialTailOffloads)
    (hb : m'.reqToBlocks = m.reqToBlocks)
    (ha : m'.allocatedBlockReqs = m.allocatedBlockReqs) : m'.Valid g n where
  offloads := ho ▸ h.offloads
  allocated k hk r hr := by
    rw [blocksOf, hb]
    exact h.allocated k hk r (ha ▸ hr)

/-! ## Releasing -/

namespace Group

variable {g : Group} {m} {m' : Manager H} {p p' : BlockPool H} {r} {bs} {nc : List BlockId}
  {n j processed nl ne : ℕ}

/-- Giving up references of one table and freeing them. -/
theorem release_spec {gone : List BlockId} (hcleared : Cleared nullBlock (m.blocksOf r) bs)
    (h : real bs + real gone = real (m.blocksOf r)) :
    m.Released r (m.setBlocks r bs) ∧ Conserves g m (m.setBlocks r bs) p (p.freeBlocks gone) := by
  refine ⟨⟨onlyTable_setBlocks r m bs, ?_⟩, rfl, fun F s =>
    ⟨?_, s.valid.setBlocks hcleared.length_eq.le⟩⟩
  · rwa [blocksOf_setBlocks_self]
  · have hs := s.accounts
    rw [← held_shrink h, ← add_assoc] at hs
    exact hs.freeBlocks

theorem removeLoop_real (first i : ℕ) (bs : List BlockId) :
    real (removeLoop first i bs).2 + real (removeLoop first i bs).1 = real bs := by
  induction i generalizing bs with
  | zero => simp [removeLoop]
  | succ i ih =>
    rw [removeLoop]
    split
    · simp
    · next h =>
      have hb : bs[i]? = some (bs.getD i nullBlock) := by
        rw [getD_eq_getElem?_getD] at h ⊢
        cases hi : bs[i]? with
        | none => simp [hi] at h
        | some b => rfl
      have hi := ih (bs.set i nullBlock)
      dsimp only
      rw [real_cons, ← real_set_null hb, ← hi]
      abel

theorem removeBlocksInRange_released {first last : ℕ}
    (h : removeBlocksInRange m p r first last = (m', p')) :
    m.Released r m' ∧ Conserves g m m' p p' := by
  rw [removeBlocksInRange] at h
  split at h <;> cases h
  · exact ⟨.refl r m, .refl⟩
  · exact release_spec (removeLoop_cleared _ _ _) (removeLoop_real _ _ _)

theorem removeSkippedBase_released (h : g.removeSkippedBase m p r processed = (m', p')) :
    m.Released r m' ∧ Conserves g m m' p p' := by
  rw [removeSkippedBase] at h
  split at h
  · cases h
    exact ⟨.refl r m, .refl⟩
  · exact removeBlocksInRange_released h

theorem pyIndex_lt {i : ℤ} (h : pyIndex n i = some j) : j < n := by
  simp only [pyIndex] at h
  split at h
  · split at h
    · simp only [Option.some.injEq] at h; omega
    · simp at h
  · split at h
    · simp only [Option.some.injEq] at h; omega
    · simp at h

theorem getElem?_getD_of_lt (h : j < bs.length) : bs[j]? = some (bs.getD j nullBlock) := by
  simp [getD_eq_getElem?_getD, h]

theorem freeLastState_released (h : g.freeLastState m p r processed = .ok (m', p')) :
    m.Released r m' ∧ Conserves g m m' p p' := by
  simp only [freeLastState] at h
  split at h
  · cases h; exact ⟨.refl r m, .refl⟩
  · split at h
    · simp only [bind_eq_ok, orRaise_eq_ok] at h
      obtain ⟨j, hj, h⟩ := h
      have hb := getElem?_getD_of_lt (pyIndex_lt hj)
      split at h
      · cases h
        exact release_spec (.set _ _) (real_set_null hb)
      · cases h; exact ⟨.refl r m, .refl⟩
    · cases h; exact ⟨.refl r m, .refl⟩

/-- **Removing skipped blocks** clears entries of the request's table, changes nothing else and
keeps the accounts. -/
theorem removeSkippedBlocks_released {np : Option ℕ}
    (h : g.removeSkippedBlocks m p r processed np = .ok (m', p')) :
    m.Released r m' ∧ Conserves g m m' p p' := by
  simp only [removeSkippedBlocks] at h
  split at h
  · exact removeBlocksInRange_released (Except.ok.inj h)
  · obtain ⟨hbase, hkeep⟩ := removeSkippedBase_released (g := g) (m := m) (p := p) (r := r) rfl
    obtain ⟨hlast, hkeep'⟩ := freeLastState_released h
    exact ⟨hbase.trans hlast, hkeep.trans hkeep'⟩
  · exact removeSkippedBase_released (Except.ok.inj h)

/-- Dropping a request from a manager hands its references to the caller. -/
theorem popBlocksForFree_held :
    (g.popBlocksForFree m r).2.held + real (g.popBlocksForFree m r).1 = m.held := by
  have h := tableRefs_pop m.reqToBlocks r
  have key : tableRefs (m.reqToBlocks.pop r) + real (copyEnds m.pendingCowCopies)
      + real (m.blocksOf r) = m.held := by
    rw [add_right_comm, held, ← h]; rfl
  rw [popBlocksForFree]
  split <;> exact key

theorem popBlocksForFree_valid (h : m.Valid g n) : (g.popBlocksForFree m r).2.Valid g n := by
  have hpop : ∀ r', r' ≠ r → ((m.reqToBlocks.pop r).get? r').getD [] = m.blocksOf r' := by
    intro r' hr'
    rw [get?_pop, if_neg hr', blocksOf]
  rw [popBlocksForFree]
  split
  · refine ⟨fun e he => h.offloads e (mem_filter.1 he).1, fun k hk r' hr' => ?_⟩
    have hr := mem_filter.1 hr'
    have hb := hpop r' (by simpa using hr.2)
    simp only [blocksOf] at hb ⊢
    rw [hb]
    exact h.allocated k hk r' hr.1
  · next hno => exact ⟨h.offloads, fun k hk => absurd hk (hno k)⟩

theorem free_conserves : Conserves g m (g.free m p r).1 p (g.free m p r).2 := by
  refine ⟨rfl, fun F s => ⟨?_, popBlocksForFree_valid s.valid⟩⟩
  have hs := s.accounts
  rw [← popBlocksForFree_held (g := g) (r := r), ← add_assoc, ← real_reverse] at hs
  exact hs.freeBlocks

/-! ## Allocating -/

/-- **Adding local hits**: the touched blocks are the ones that enter the table. -/
theorem addLocalBase_conserves (hb : ∀ b ∈ nc, b < p.numGpuBlocks)
    (h : g.addLocalBase m p r nc nl ne = .ok (m', p')) : Conserves g m m' p p' := by
  simp only [addLocalBase, bind_eq_ok, assert_eq_ok] at h
  obtain ⟨-, hnil, q, hq, h⟩ := h
  set hits := nc.drop (g.numSkippedBlocks (nl + ne)) with hhits
  set blocks := List.replicate (g.numSkippedBlocks (nl + ne)) nullBlock ++ hits with hblocks
  have hreal : real blocks = real hits := by
    rw [hblocks, real_append, real_replicate_null, zero_add]
  have hheld : (m.setBlocks r blocks).held = m.held + real hits := by
    have := m.held_setBlocks r blocks
    rwa [hnil, real_nil, add_zero, hreal] at this
  have hset : Conserves g m (m.setBlocks r blocks) p q := by
    rw [touchHits] at hq
    split at hq
    · refine ⟨touch_numGpuBlocks hq, fun F s => ⟨?_, ?_⟩⟩
      · have hmem : ∀ b ∈ hits, b < p.numGpuBlocks := fun b hb' => hb b (mem_of_mem_drop hb')
        obtain ⟨q', hq', hacc⟩ := s.accounts.touch hmem
        rw [hq'] at hq
        cases hq
        rw [hheld, ← add_assoc]
        exact hacc
      · rw [touch_numGpuBlocks hq]
        exact s.valid.setBlocks (by rw [hnil]; exact Nat.zero_le _)
    · simp only [bind_eq_ok, assert_eq_ok] at hq
      obtain ⟨-, hno, hok⟩ := hq
      cases hok
      refine ⟨rfl, fun F s => ⟨?_, s.valid.setBlocks (by rw [hnil]; exact Nat.zero_le _)⟩⟩
      rw [hheld, hno, real_nil, add_zero]
      exact s.accounts
  refine hset.trans ?_
  split at h <;> cases h <;> exact .of_same rfl rfl rfl rfl rfl fun _ h => h

theorem addLocalComputedBlocks_conserves (hb : ∀ b ∈ nc, b < p.numGpuBlocks)
    (h : g.addLocalComputedBlocks m p r nc nl ne = .ok (m', p')) : Conserves g m m' p p' := by
  simp only [addLocalComputedBlocks] at h
  split at h
  · obtain ⟨-, -, hok⟩ := bind_eq_ok.1 h
    cases hok; exact .refl
  · exact addLocalBase_conserves hb h

variable [DecidableEq H] {k : ℕ} {src cow : BlockId} {F : Multiset BlockId} {allocated : Bool}
  {req : KVRequest H}

theorem extendBlocks_conserves {n : ℤ} (hn : 0 ≤ n)
    (h : g.extendBlocks m p r n = .ok (bs, m', p')) : Conserves g m m' p p' := by
  obtain ⟨⟨bs', q⟩, hq, hok⟩ := bind_eq_ok.1 h
  have hset : Conserves g m (m.setBlocks r (m.blocksOf r ++ bs')) p q := by
    refine ⟨getNewBlocks_numGpuBlocks hq, fun F s => ⟨?_, ?_⟩⟩
    · rw [held_append, ← add_assoc]
      exact (s.accounts.getNewBlocks hn hq).1
    · rw [getNewBlocks_numGpuBlocks hq]
      exact s.valid.setBlocks (by simp)
  cases hok
  refine hset.trans ?_
  split
  · exact .of_same rfl rfl rfl rfl rfl fun _ h => h
  · exact .refl

variable {idx : ℕ} {new rest out : List BlockId} {ret : Option ℕ}

/-- Blocks for external tokens are asked for in a non-negative number as long as the
table is not longer than the computed tokens. -/
theorem allocateExternalComputedBlocks_conserves
    (hlen : g.spec ≠ .crossAttention → 0 < g.numExternalTokens nl ne →
      (m.blocksOf r).length ≤ cdiv (nl + ne) g.blockSize)
    (h : g.allocateExternalComputedBlocks m p r nl ne = .ok (m', p')) : Conserves g m m' p p' := by
  simp only [allocateExternalComputedBlocks] at h
  split at h
  · cases h; exact .refl
  · next hg =>
    split at h
    · cases h; exact .refl
    · next hpos =>
      obtain ⟨⟨bs, m1, p1⟩, hext, hok⟩ := bind_eq_ok.1 h
      cases hok
      exact extendBlocks_conserves (by have := hlen hg (by omega); omega) hext

omit [DecidableEq H] in
/-- A copy-on-write redirect: the request's reference moves to the copy, and both
ends are retained for the copy itself. -/
theorem applyCow_accounts (hc : cow ≠ nullBlock) (hacc : p.Accounts (F + m.held + real [cow]))
    (h : applyCow m p r idx src cow = .ok (m', p')) : p'.Accounts (F + m'.held) := by
  simp only [applyCow, bind_eq_ok, assert_eq_ok] at h
  obtain ⟨-, -, -, hsrc, -, -, hok⟩ := h
  cases hok
  have hset := m.held_setBlocks r ((m.blocksOf r).set idx cow)
  have hexch := real_set (b := cow) hsrc
  have hheld : (m.setBlocks r ((m.blocksOf r).set idx cow)).held + real [src]
      = m.held + real [cow] := by
    have h1 : (m.setBlocks r ((m.blocksOf r).set idx cow)).held + real [src]
        + real (m.blocksOf r) = m.held + real [cow] + real (m.blocksOf r) := by
      rw [add_right_comm, hset, add_assoc, hexch]; abel
    exact add_right_cancel h1
  have hgoal : F + m.held + real [cow] + real [cow]
      = F + held { m.setBlocks r ((m.blocksOf r).set idx cow) with
          pendingCowCopies := m.pendingCowCopies ++ [(src, cow)] } := by
    have e : held { m.setBlocks r ((m.blocksOf r).set idx cow) with
        pendingCowCopies := m.pendingCowCopies ++ [(src, cow)] }
        = (m.setBlocks r ((m.blocksOf r).set idx cow)).held + (real [src] + real [cow]) := by
      simp only [held, copyEnds_append, real_append, setBlocks]
      rw [← real_cons, add_assoc]
      rfl
    rw [e, ← add_assoc (held _), hheld]
    abel
  have hret := hacc.retain (b := cow) (Or.inl (by
    rw [real_singleton hc]
    exact Multiset.mem_add.2 (Or.inr (Multiset.mem_singleton_self cow))))
  rw [hgoal] at hret
  exact hret

omit [DecidableEq H] in
theorem applyCow_frame (h : applyCow m p r idx src cow = .ok (m', p')) :
    p'.numGpuBlocks = p.numGpuBlocks ∧
      m'.pendingPartialTailOffloads = m.pendingPartialTailOffloads ∧ m.Redirected r m' := by
  simp only [applyCow, bind_eq_ok, assert_eq_ok] at h
  obtain ⟨-, -, -, hsrc, -, hnull, hok⟩ := h
  have hset := onlyTable_setBlocks r m ((m.blocksOf r).set idx cow)
  have hsparser : Sparser nullBlock (m.blocksOf r)
      ((m.setBlocks r ((m.blocksOf r).set idx cow)).blocksOf r) := by
    rw [blocksOf_setBlocks_self]
    refine .set_of_ne _ _ ?_
    rw [getD_eq_getElem?_getD, hsrc]
    exact hnull.1
  cases hok
  refine ⟨rfl, rfl, hsparser, fun r' hr' => ?_, rfl, rfl⟩
  obtain ⟨h₁, h₂, h₃, h₄⟩ := hset.sameFor hr'
  exact ⟨h₁, h₂, h₃, h₄⟩

/-- A block handed out by the pool is not the null block. -/
theorem getNewBlocks_ne_null {n : ℤ} {owed : Multiset BlockId}
    (hacc : p.Accounts owed) (hn : 0 ≤ n) (h : p.getNewBlocks n = .ok (bs, p')) :
    ∀ b ∈ bs, b ≠ nullBlock ∧ b < p.numGpuBlocks := by
  intro b hb
  have hq := (hacc.getNewBlocks hn h).2.1
  have hmem : b ∈ p.refs.queue := by rw [hq]; exact mem_append_left _ hb
  exact ((hacc.mem_queue b).1 hmem).1

variable {owed : Multiset BlockId}

theorem extendBlocks_grown {n : ℤ}
    (hacc : p.Accounts owed) (hn : 0 ≤ n) (h : g.extendBlocks m p r n = .ok (bs, m', p')) :
    m.Grown r m' bs ∧ (bs.length : ℤ) = n := by
  simp only [extendBlocks, bind_eq_ok] at h
  obtain ⟨⟨bs', q⟩, hnew, hok⟩ := h
  cases hok
  have hset := m.blocksOf_setBlocks_self r (m.blocksOf r ++ bs')
  refine ⟨⟨?_, fun b hb => (getNewBlocks_ne_null hacc hn hnew b hb).1, ?_, ?_⟩,
    (hacc.getNewBlocks hn hnew).2.2⟩
  all_goals split
  exacts [hset, hset, rfl, rfl, rfl, rfl]

/-- The table of a request after the blocks for external tokens: if there are any, it has
the blocks of all computed tokens. -/
theorem allocateExternalComputedBlocks_table
    (hg : g.spec ≠ .crossAttention) (hacc : p.Accounts owed) (hlen : 0 < g.numExternalTokens nl ne →
      (m.blocksOf r).length ≤ cdiv (nl + ne) g.blockSize)
    (h : g.allocateExternalComputedBlocks m p r nl ne = .ok (m', p')) :
    ∃ bs, m.Grown r m' bs ∧ (bs ≠ [] → (m'.blocksOf r).length = cdiv (nl + ne) g.blockSize) := by
  simp only [allocateExternalComputedBlocks, if_neg hg] at h
  split at h
  · cases h
    exact ⟨[], ⟨by simp, by simp, rfl, rfl⟩, by simp⟩
  next hpos =>
    obtain ⟨⟨bs, m₁, p₁⟩, hext, hok⟩ := bind_eq_ok.1 h
    cases hok
    have hle := hlen (by omega)
    obtain ⟨hgrown, hbs⟩ := extendBlocks_grown hacc (by omega) hext
    refine ⟨bs, hgrown, fun _ => ?_⟩
    rw [hgrown.blocksOf, List.length_append]
    omega

theorem redirectPartialHit_serves
    (h : redirectPartialHit m p r = .ok (bs, m', p')) : Serves g r m m' p p' := by
  simp only [redirectPartialHit] at h
  split at h
  · cases h; exact .refl
  · next idx src hhit =>
    simp only [bind_eq_ok, orRaise_eq_ok] at h
    obtain ⟨⟨new, q⟩, hq, cow, hcow, ⟨m1, p1⟩, happ, hok⟩ := h
    obtain ⟨hsize, hoffloads, hredir⟩ := applyCow_frame happ
    cases hok
    refine ⟨⟨hsize.trans (getNewBlocks_numGpuBlocks hq), fun F s => ?_⟩, fun r' hr' => ?_⟩
    · obtain ⟨hacc, -, hlen⟩ := s.accounts.getNewBlocks (by decide) hq
      have hnew : new = [cow] := by
        match new, hlen, hcow with
        | [a], _, hcow => simpa using hcow
      subst hnew
      have hc := (getNewBlocks_ne_null s.accounts (by decide) hq cow (by simp)).1
      have hfin := applyCow_accounts (F := F) hc (m :=
        { m with partialHitReqs := m.partialHitReqs.pop r }) hacc happ
      refine ⟨hfin, ?_, ?_⟩
      · rw [hsize, getNewBlocks_numGpuBlocks hq]
        intro e he
        exact s.valid.offloads e (hoffloads ▸ he)
      · intro k hk r' hr'
        have := hredir.length_eq r'
        simp only [blocksOf] at this ⊢
        rw [this]
        exact s.valid.allocated k hk r' (hredir.allocatedBlockReqs ▸ hr')
    · obtain ⟨h₁, h₂, h₃, h₄⟩ := hredir.others r' hr'
      exact ⟨h₁, h₂, h₃, h₄⟩

theorem allocateNewBlocksBase_serves
    (h : g.allocateNewBlocksBase m p r n = .ok (bs, m', p')) : Serves g r m m' p p' := by
  obtain ⟨⟨cow, m1, p1⟩, hcow, h⟩ := bind_eq_ok.1 h
  obtain ⟨hkeep, hothers⟩ := redirectPartialHit_serves (g := g) hcow
  dsimp only at h
  split at h
  · cases h
    refine ⟨hkeep.trans ⟨rfl, fun F s => ⟨?_, s.valid.setBlocks le_rfl⟩⟩, fun r' hr' =>
      (hothers r' hr').trans ((onlyTable_setBlocks r m1 _).sameFor hr')⟩
    have hh := m1.held_append r []
    rw [append_nil, real_nil, add_zero] at hh
    rw [hh]
    exact s.accounts
  · next hpos =>
    obtain ⟨⟨bs', m2, p2⟩, hext, hok⟩ := bind_eq_ok.1 h
    cases hok
    exact ⟨hkeep.trans (extendBlocks_conserves (by omega) hext), fun r' hr' =>
      (hothers r' hr').trans (extendBlocks_sameFor hr' hext)⟩

/-! ## Mamba "align" allocation -/

theorem pyIndex_of_nonneg {i : ℤ} (h0 : 0 ≤ i) (h : i < n) : pyIndex n i = some i.toNat := by
  rw [pyIndex, if_pos h0, if_pos h]

/-- Moving speculative blocks to the end of the table keeps its references and adds
one entry for each block moved. -/
theorem reuseSpecBlocks_spec (numSkipped n : ℕ) (i : ℤ) (bs : List BlockId) (h0 : 0 ≤ i)
    (hlen : i + n ≤ bs.length) :
    ∃ bs', reuseSpecBlocks numSkipped i n bs = .ok bs' ∧ real bs' = real bs ∧
      bs'.length = bs.length + min n ((numSkipped : ℤ) - i).toNat := by
  induction n generalizing i bs with
  | zero => exact ⟨bs, rfl, rfl, by simp⟩
  | succ n ih =>
    rw [reuseSpecBlocks]
    by_cases hi : i < numSkipped
    · have hb : (bs ++ [bs.getD i.toNat nullBlock])[i.toNat]? =
          some (bs.getD i.toNat nullBlock) := by
        rw [getElem?_append_left (by omega)]
        exact getElem?_getD_of_lt (by omega)
      obtain ⟨bs', hok, hreal, hl⟩ := ih (i + 1)
        ((bs ++ [bs.getD i.toNat nullBlock]).set i.toNat nullBlock) (by omega) (by simp; omega)
      refine ⟨bs', ?_, ?_, ?_⟩
      · rw [if_pos hi, pyIndex_of_nonneg h0 (by omega)]
        simp only [orRaise, ok_bind]
        rw [pyIndex_of_nonneg h0 (by rw [length_append]; omega)]
        exact hok
      · have hset := real_set_null hb
        rw [real_append] at hset
        rw [hreal]
        exact add_right_cancel hset
      · rw [hl]
        simp only [length_set, length_append, length_cons, length_nil]
        omega
    · exact ⟨bs, by rw [if_neg hi], rfl, by omega⟩

/-- The shifted table of a request: the same references, at least `numSkipped`
entries, and never more than the request needs before its running block. -/
theorem shiftStates_spec {numSkipped : ℕ} {bs' : List BlockId}
    (ha : allocated = true → k ≤ bs.length) (h : shiftStates numSkipped k allocated bs = .ok bs') :
    real bs' = real bs ∧ max bs.length numSkipped ≤ bs'.length ∧
      bs'.length ≤ max bs.length (numSkipped + k) := by
  have hpad : real (bs ++ List.replicate (numSkipped - bs.length) nullBlock) = real bs := by
    rw [real_append, real_replicate_null, add_zero]
  rw [shiftStates] at h
  split at h
  · next hal =>
    have hk := ha hal
    obtain ⟨bs'', hok, hreal, hl⟩ := reuseSpecBlocks_spec numSkipped k ((bs.length : ℤ) - k)
      (bs ++ List.replicate (numSkipped - bs.length) nullBlock) (by omega) (by simp)
    rw [hok] at h
    cases h
    rw [length_append, length_replicate] at hl
    exact ⟨hreal.trans hpad, by omega, by omega⟩
  · cases h
    refine ⟨hpad, ?_, ?_⟩ <;> rw [length_append, length_replicate] <;> omega

theorem handOffTail_frame (h : g.handOffTail m p r src cow = .ok (m', p')) :
    p'.numGpuBlocks = p.numGpuBlocks ∧ m.Redirected r m' ∧
      ∀ e ∈ m'.pendingPartialTailOffloads, e ∈ m.pendingPartialTailOffloads ∨ e.2.2.1 = cow := by
  obtain ⟨x, -, hok⟩ := bind_eq_ok.1 h
  cases hok
  refine ⟨rfl, SameTables.redirected ⟨rfl, rfl, rfl⟩ rfl, fun e he => ?_⟩
  rcases mem_append.1 he with he | he
  · exact Or.inl he
  · right
    simp only [Option.mem_toList, Option.map_eq_some_iff] at he
    obtain ⟨t, -, rfl⟩ := he
    rfl

/-- The producer's copy: the source gets a reference for the copy, the target has
its first one. -/
theorem handOffTail_accounts
    (hsrc : src ∈ m.blocksOf r) (hacc : p.Accounts (F + m.held + real [cow]))
    (h : g.handOffTail m p r src cow = .ok (m', p')) : p'.Accounts (F + m'.held) := by
  obtain ⟨x, -, hok⟩ := bind_eq_ok.1 h
  cases hok
  have hmem : src ∈ F + m.held + real [cow] ∨ src = nullBlock := by
    by_cases h0 : src = nullBlock
    · exact Or.inr h0
    · exact Or.inl (mem_add.2 (Or.inl (mem_add.2
        (Or.inr (mem_held hsrc h0)))))
  have hret := (hacc.withIndex x).retain hmem
  have hheld : F + m.held + real [cow] + real [src] = F + (tableRefs m.reqToBlocks
      + real (copyEnds (m.pendingCowCopies ++ [(src, cow)]))) := by
    have hpair : real (copyEnds [(src, cow)]) = real [src] + real [cow] := real_cons src [cow]
    rw [copyEnds_append, real_append, held, hpair]
    abel
  rw [hheld] at hret
  exact hret

/-- What the copy-on-write step of the "align" branch leaves alone, and how many of
the new blocks it uses. -/
theorem alignCow_frame {cow : List BlockId}
    (h : g.alignCow m p r allocated new = .ok (cow, rest, m', p')) :
    p'.numGpuBlocks = p.numGpuBlocks ∧ m.Redirected r m' ∧ (∀ e ∈ m'.pendingPartialTailOffloads,
        e ∈ m.pendingPartialTailOffloads ∨ e.2.2.1 ∈ new) ∧
      rest = if r ∈ m.partialHitReqs then new.drop 1 else new := by
  simp only [alignCow] at h
  split at h
  · next hno =>
    cases h
    rw [if_neg (get?_eq_none_iff.1 hno)]
    exact ⟨rfl, (SameTables.refl m).redirected rfl, fun e he => Or.inl he, rfl⟩
  · next idx src hhit =>
    rw [if_pos (mem_of_get? hhit)]
    simp only [bind_eq_ok, orRaise_eq_ok] at h
    obtain ⟨c, hc, h⟩ := h
    split at h
    · simp only [bind_eq_ok] at h
      obtain ⟨-, -, ⟨m1, p1⟩, hoff, hok⟩ := h
      obtain ⟨h1, h2, h3⟩ := handOffTail_frame hoff
      cases hok
      refine ⟨h1, h2, fun e he => ?_, rfl⟩
      exact (h3 e he).imp id fun heq => by rw [heq]; exact mem_of_getElem? hc
    · obtain ⟨⟨m1, p1⟩, happ, hok⟩ := bind_eq_ok.1 h
      obtain ⟨h1, h2, h3⟩ := applyCow_frame happ
      cases hok
      exact ⟨h1, h3, fun e he => Or.inl (h2 ▸ he), rfl⟩

/-- The copy-on-write step of the "align" branch uses one of the new references. -/
theorem alignCow_accounts {cow : List BlockId} (hnull : ∀ b ∈ new, b ≠ nullBlock)
    (hacc : p.Accounts (F + m.held + real new))
    (h : g.alignCow m p r allocated new = .ok (cow, rest, m', p')) :
    p'.Accounts (F + m'.held + real rest) := by
  simp only [alignCow] at h
  split at h
  · cases h; exact hacc
  · next idx src hhit =>
    simp only [bind_eq_ok, orRaise_eq_ok] at h
    obtain ⟨c, hc, h⟩ := h
    obtain ⟨new', rfl⟩ : ∃ new', new = c :: new' := by
      cases new with
      | nil => simp at hc
      | cons a l => exact ⟨l, by simpa using hc⟩
    have hsplit : F + m.held + real (c :: new') = F + real new' + m.held + real [c] := by
      rw [real_cons]; abel
    rw [hsplit] at hacc
    split at h
    · simp only [bind_eq_ok, assert_eq_ok] at h
      obtain ⟨-, hsrc, ⟨m1, p1⟩, hoff, hok⟩ := h
      have h1 := handOffTail_accounts (mem_of_getElem? hsrc) hacc hoff
      cases hok
      rw [add_right_comm]; exact h1
    · obtain ⟨⟨m1, p1⟩, happ, hok⟩ := bind_eq_ok.1 h
      have h1 := applyCow_accounts (hnull c (by simp)) hacc happ
      cases hok
      rw [add_right_comm]; exact h1

section

omit [DecidableEq H]

theorem recordLastState_frame (prevLen k : ℕ) :
    (recordLastState m r prevLen k).reqToBlocks = m.reqToBlocks ∧
      (recordLastState m r prevLen k).pendingCowCopies = m.pendingCowCopies ∧
      (recordLastState m r prevLen k).partialHitReqs = m.partialHitReqs ∧
      (recordLastState m r prevLen k).pendingPartialTailOffloads = m.pendingPartialTailOffloads ∧
      (recordLastState m r prevLen k).allocatedBlockReqs = m.allocatedBlockReqs := by
  rw [recordLastState]
  split
  · exact ⟨rfl, rfl, rfl, rfl, rfl⟩
  · split <;> exact ⟨rfl, rfl, rfl, rfl, rfl⟩

/-- A request joins the running ones once its table is long enough. -/
theorem markAllocated_valid (hs : g.spec = .mamba .align k) (hv : m.Valid g n)
    (hl : k < (m.blocksOf r).length) : (markAllocated m r).Valid g n where
  offloads := hv.offloads
  allocated k' hk' r' hr' := by
    have hkk : k' = k := by
      rw [hs] at hk'
      simpa using hk'.symm
    subst hkk
    rcases mem_markAllocated.1 hr' with rfl | hr'
    · exact hl
    · exact hv.allocated k' hk' r' hr'

end

theorem cdiv_pos {a b : ℕ} (ha : 0 < a) (hb : 0 < b) : 0 < cdiv a b :=
  Nat.div_pos (by omega) hb

/-- **The "align" allocation** keeps the accounts. -/
theorem allocateNewBlocksAlign_serves (hs : g.spec = .mamba .align k) (hn : 0 < n)
    (h : g.allocateNewBlocksAlign m p r n k = .ok (out, m', p')) : Serves g r m m' p p' := by
  have hreq : k + 1 ≤ cdiv n g.blockSize + k := by
    have := cdiv_pos hn g.blockSize_pos
    omega
  simp only [allocateNewBlocksAlign] at h
  split at h
  · next hle =>
    cases h
    refine ⟨⟨rfl, fun F s => ⟨?_, ?_⟩⟩, fun r' hr' =>
      ((onlyTable_setBlocks r m _).sameFor hr').trans (markAllocated_sameFor hr')⟩
    · have hh := m.held_append r []
      rw [append_nil, real_nil, add_zero] at hh
      have hacc := s.accounts
      rw [← hh] at hacc
      exact hacc
    · refine markAllocated_valid hs (s.valid.setBlocks le_rfl) ?_
      rw [blocksOf_setBlocks_self]
      omega
  · next hle =>
    simp only [bind_eq_ok, assert_eq_ok] at h
    obtain ⟨shifted, hshift, -, -, ⟨new, p1⟩, hnew, ⟨cow, rest, m2, p2⟩, hcow, hok⟩ := h
    obtain ⟨f1, f2, f3, f4, f5⟩ :=
      recordLastState_frame (m := m) (r := r) (m.blocksOf r).length k
    set m1 := recordLastState m r (m.blocksOf r).length k with hm1
    have hb1 : ∀ r', m1.blocksOf r' = m.blocksOf r' := fun r' => by
      rw [blocksOf, f1, blocksOf]
    dsimp only at hnew hcow
    obtain ⟨c1, hredir, c4, c5⟩ := alignCow_frame hcow
    cases hok
    refine ⟨⟨c1.trans (getNewBlocks_numGpuBlocks hnew), fun F s => ?_⟩, fun r' hr' => ?_⟩
    swap
    · have hshift := (recordLastState_sameFor (m := m) (m.blocksOf r).length k hr').trans
        ((onlyTable_setBlocks r m1 shifted).sameFor hr')
      have hextend := (hredir.others r' hr').trans
        ((onlyTable_setBlocks r m2 (m2.blocksOf r ++ rest)).sameFor hr')
      obtain ⟨h₁, h₂, h₃, h₄⟩ := hshift.trans hextend
      exact ⟨h₁, h₂, h₃, (markAllocated_sameFor hr').allocatedBlockReqs.trans h₄⟩
    have hal : decide (r ∈ m.allocatedBlockReqs) = true → k ≤ (m.blocksOf r).length :=
      fun ha => (s.valid.allocated k hs r (of_decide_eq_true ha)).le
    obtain ⟨hreal, hlo, hhi⟩ := shiftStates_spec hal hshift
    -- the block table after the shift, with the references it had before
    have hheld : (m1.setBlocks r shifted).held = m.held := by
      have h1 := m1.held_setBlocks r shifted
      rw [hb1, hreal] at h1
      have h2 : m1.held = m.held := by rw [held, held, f1, f2]
      rw [← h2]
      exact add_right_cancel h1
    have hpos : 0 ≤ (if r ∈ m.partialHitReqs then
        max ((↑(cdiv n g.blockSize + k) : ℤ) - shifted.length) 0 + 1
        else (↑(cdiv n g.blockSize + k) : ℤ) - shifted.length) := by
      split
      · omega
      · next hno =>
        have : (m.blocksOf r).length < cdiv n g.blockSize + k := by
          by_contra hc
          exact hle ⟨by omega, hno⟩
        omega
    obtain ⟨hacc, -, hlen⟩ := s.accounts.getNewBlocks hpos hnew
    have hnn := getNewBlocks_ne_null s.accounts hpos hnew
    have hacc' := alignCow_accounts (fun b hb => (hnn b hb).1) (by rw [hheld]; exact hacc) hcow
    have hrest : k < (m2.blocksOf r ++ rest).length := by
      rw [length_append, hredir.length_eq, blocksOf_setBlocks_self, c5]
      have hp : r ∈ (m1.setBlocks r shifted).partialHitReqs ↔ r ∈ m.partialHitReqs := by
        show r ∈ m1.partialHitReqs ↔ _
        rw [f3]
      by_cases hpar : r ∈ m.partialHitReqs
      · rw [if_pos (hp.2 hpar), length_drop]
        rw [if_pos hpar] at hlen
        omega
      · rw [if_neg (mt hp.1 hpar)]
        rw [if_neg hpar] at hlen
        omega
    have hv2 : m2.Valid g p2.numGpuBlocks := by
      refine ⟨fun e he => ?_, fun k' hk' r' hr' => ?_⟩
      · rw [c1, getNewBlocks_numGpuBlocks hnew]
        rcases c4 e he with he | he
        · exact s.valid.offloads e (f4 ▸ he)
        · exact (hnn _ he).2
      · rw [hredir.length_eq, blocksOf_setBlocks]
        have hr1 : r' ∈ m.allocatedBlockReqs := by
          have : r' ∈ m1.allocatedBlockReqs := hredir.allocatedBlockReqs ▸ hr'
          rwa [f5] at this
        have := s.valid.allocated k' hk' r' hr1
        split
        · next e => subst e; omega
        · rw [hb1]; exact this
    refine ⟨?_, ?_⟩
    · have hh := m2.held_append r rest
      have hgoal : F + (m2.setBlocks r (m2.blocksOf r ++ rest)).held
          = F + m2.held + real rest := by rw [hh, add_assoc]
      rw [← hgoal] at hacc'
      exact hacc'
    · refine markAllocated_valid hs ?_ ?_
      · exact (hv2.setBlocks (by simp)).congr rfl rfl rfl
      · rw [← m2.blocksOf_setBlocks_self r (m2.blocksOf r ++ rest)] at hrest
        exact hrest

theorem allocateNewBlocks_serves {main : ℕ} (hn : 0 < main)
    (h : g.allocateNewBlocks m p r n main = .ok (out, m', p')) : Serves g r m m' p p' := by
  simp only [allocateNewBlocks] at h
  split at h
  · next k hs => exact allocateNewBlocksAlign_serves hs hn h
  · exact allocateNewBlocksBase_serves h
  · exact allocateNewBlocksBase_serves h

/-! ## Caching -/

theorem cacheBlocksBase_cached (h : g.cacheBlocksBase m p req n ret = .ok (m', p')) :
    m.OnlyCached req.requestId m' ∧ Conserves g m m' p p' := by
  simp only [cacheBlocksBase] at h
  split at h
  · cases h; exact ⟨.refl _ m, .refl⟩
  · simp only [bind_eq_ok] at h
    obtain ⟨-, -, x, -, hok⟩ := h
    cases hok
    exact ⟨onlyCached_set ⟨rfl, rfl, rfl⟩ rfl, .of_same rfl rfl rfl rfl rfl fun _ h => h⟩

theorem cachePartialTailFull_conserves
    (h : g.cachePartialTailFull m p req n = .ok p') : Conserves g m m p p' := by
  simp only [cachePartialTailFull] at h
  split at h
  · cases h; exact .refl
  · split at h
    · cases h; exact .refl
    · obtain ⟨⟨k, x⟩, -, hok⟩ := bind_eq_ok.1 h
      cases hok
      exact .of_same rfl rfl rfl rfl rfl fun _ h => h

theorem cachePartialTailMamba_cached {align : Bool}
    {k : Option (Key H)} (h : g.cachePartialTailMamba m p req n align = .ok (k, m', p')) :
    m.OnlyCached req.requestId m' ∧ Conserves g m m' p p' := by
  simp only [cachePartialTailMamba] at h
  split at h
  · cases h; exact ⟨.refl _ m, .refl⟩
  · split at h
    · cases h; exact ⟨.refl _ m, .refl⟩
    · split at h
      · cases h; exact ⟨.refl _ m, .refl⟩
      · obtain ⟨⟨k', x⟩, -, hok⟩ := bind_eq_ok.1 h
        split at hok <;> cases hok
        · exact ⟨⟨⟨rfl, rfl, rfl⟩, fun _ _ => rfl⟩, .of_same rfl rfl rfl rfl rfl fun _ h => h⟩
        · exact ⟨onlyCached_set ⟨rfl, rfl, rfl⟩ rfl, .of_same rfl rfl rfl rfl rfl fun _ h => h⟩

/-- **Caching** changes no table and no reference. -/
theorem cacheBlocks_cached (h : g.cacheBlocks m p req n ret = .ok (m', p')) :
    m.OnlyCached req.requestId m' ∧ Conserves g m m' p p' := by
  simp only [cacheBlocks] at h
  split at h
  · cases h
  · simp only [cacheBlocksMamba, bind_eq_ok] at h
    obtain ⟨⟨m1, p1⟩, hbase, ⟨k, m2, p2⟩, htail, hok⟩ := h
    cases hok
    obtain ⟨hcached, hkeep⟩ := cacheBlocksBase_cached hbase
    obtain ⟨hcached', hkeep'⟩ := cachePartialTailMamba_cached htail
    obtain ⟨⟨h₁, h₂, h₃⟩, h₄⟩ := hcached.trans hcached'
    refine ⟨⟨⟨h₁, h₂, h₃⟩, h₄⟩, (hkeep.trans hkeep').trans ?_⟩
    exact .of_same rfl rfl rfl rfl rfl fun _ h => h
  all_goals
    first
    | exact cacheBlocksBase_cached h
    | skip
  all_goals
    obtain ⟨⟨m1, p1⟩, hbase, h⟩ := bind_eq_ok.1 h
    obtain ⟨hcached, hkeep⟩ := cacheBlocksBase_cached (g := g) hbase
    split at h
    · cases h; exact ⟨hcached, hkeep⟩
    · obtain ⟨p2, htail, hok⟩ := bind_eq_ok.1 h
      cases hok
      exact ⟨hcached, hkeep.trans (cachePartialTailFull_conserves htail)⟩

end Group

end KVarN.Core
