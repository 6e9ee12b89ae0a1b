import KVarN.Core.KVCacheManager
import KVarN.Lib.Occupancy

/-!
# What changes of a manager

The operations of a manager work for one request at a time. This file names what of the manager
an operation can change: the table of the request, some entries of it, or only what is
remembered of its cached blocks; and what stays as it is for the other requests.

## Main definitions

* `Manager.SameTables` — the tables and the states of all requests are unchanged.
* `Manager.OnlyTable` — at most the table of one request has changed.
* `Manager.SameFor` — nothing has changed for one request.
* `Manager.Redirected` — a request continues on a copy.

## Main results

* `Group.popBlocksForFree_sameFor`, `Group.addLocalComputedBlocks_sameFor`,
  `Group.allocateExternalComputedBlocks_sameFor` — other requests are not affected.
* `Group.addLocalBase_table` — the table of a request after its hits.
-/

namespace KVarN.Core

open KVarN.Lib Dict

variable {H : Type}

namespace Manager

/-- The tables of all requests, and what a Mamba group remembers of their states, are
unchanged. -/
structure SameTables (m m' : Manager H) : Prop where
  reqToBlocks : m'.reqToBlocks = m.reqToBlocks
  lastStateBlockIdx : m'.lastStateBlockIdx = m.lastStateBlockIdx
  allocatedBlockReqs : m'.allocatedBlockReqs = m.allocatedBlockReqs

theorem SameTables.refl (m : Manager H) : SameTables m m := ⟨rfl, rfl, rfl⟩

variable {m m' m'' : Manager H} {r : ReqId}

theorem SameTables.trans (h : SameTables m m') (h' : SameTables m' m'') : SameTables m m'' :=
  ⟨h'.1.trans h.1, h'.2.trans h.2, h'.3.trans h.3⟩

theorem SameTables.blocksOf (h : SameTables m m') (r : ReqId) : m'.blocksOf r = m.blocksOf r := by
  rw [Manager.blocksOf, h.reqToBlocks, Manager.blocksOf]

/-- Only the table of one request is changed. -/
structure OnlyTable (r : ReqId) (m m' : Manager H) : Prop where
  eq : m' = { m with reqToBlocks := m'.reqToBlocks }
  others : ∀ r', r' ≠ r → m'.blocksOf r' = m.blocksOf r'

theorem OnlyTable.refl (r : ReqId) (m : Manager H) : OnlyTable r m m := ⟨rfl, fun _ _ => rfl⟩

theorem OnlyTable.trans (h : OnlyTable r m m') (h' : OnlyTable r m' m'') : OnlyTable r m m'' := by
  refine ⟨?_, fun r' hr' => (h'.others r' hr').trans (h.others r' hr')⟩
  rw [h'.eq, h.eq]

theorem onlyTable_setBlocks (r : ReqId) (m : Manager H) (bs : List BlockId) :
    OnlyTable r m (m.setBlocks r bs) := by
  refine ⟨rfl, fun r' hr' => ?_⟩
  rw [blocksOf_setBlocks, if_neg hr']

section

variable (h : OnlyTable r m m')

include h

theorem OnlyTable.numCachedBlock : m'.numCachedBlock = m.numCachedBlock := by
  rw [h.eq]

theorem OnlyTable.lastStateBlockIdx : m'.lastStateBlockIdx = m.lastStateBlockIdx := by
  rw [h.eq]

theorem OnlyTable.allocatedBlockReqs : m'.allocatedBlockReqs = m.allocatedBlockReqs := by
  rw [h.eq]

theorem OnlyTable.partialHitReqs : m'.partialHitReqs = m.partialHitReqs := by
  rw [h.eq]

end

/-- Entries of the table of one request are cleared. -/
structure Released (r : ReqId) (m m' : Manager H) : Prop extends OnlyTable r m m' where
  cleared : Cleared nullBlock (m.blocksOf r) (m'.blocksOf r)

theorem Released.refl (r : ReqId) (m : Manager H) : Released r m m := ⟨.refl r m, .refl _⟩

theorem Released.trans (h : Released r m m') (h' : Released r m' m'') : Released r m m'' :=
  ⟨h.toOnlyTable.trans h'.toOnlyTable, h.cleared.trans h'.cleared⟩

/-- Nothing has changed for a request: its table, the number of its cached blocks, the
index of its last state, and whether it was allocated before. -/
structure SameFor (r : ReqId) (m m' : Manager H) : Prop where
  blocksOf : m'.blocksOf r = m.blocksOf r
  numCachedBlock : m'.numCachedBlock.get? r = m.numCachedBlock.get? r
  lastStateBlockIdx : m'.lastStateBlockIdx.get? r = m.lastStateBlockIdx.get? r
  allocatedBlockReqs : r ∈ m'.allocatedBlockReqs ↔ r ∈ m.allocatedBlockReqs

theorem SameFor.refl (r : ReqId) (m : Manager H) : SameFor r m m := ⟨rfl, rfl, rfl, Iff.rfl⟩

theorem SameFor.trans (h : SameFor r m m') (h' : SameFor r m' m'') : SameFor r m m'' :=
  ⟨h'.1.trans h.1, h'.2.trans h.2, h'.3.trans h.3, h'.4.trans h.4⟩

theorem SameTables.sameFor (h : SameTables m m')
    (hcached : m'.numCachedBlock.get? r = m.numCachedBlock.get? r) : SameFor r m m' := by
  refine ⟨h.blocksOf r, hcached, ?_, ?_⟩
  · rw [h.lastStateBlockIdx]
  · rw [h.allocatedBlockReqs]

theorem OnlyTable.sameFor {r' : ReqId} (h : OnlyTable r m m') (hr' : r' ≠ r) : SameFor r' m m' := by
  refine ⟨h.others r' hr', ?_, ?_, ?_⟩
  · rw [h.numCachedBlock]
  · rw [h.lastStateBlockIdx]
  · rw [h.allocatedBlockReqs]

/-- Blocks of one request were cached. -/
structure OnlyCached (r : ReqId) (m m' : Manager H) : Prop where
  sameTables : SameTables m m'
  others : ∀ r', r' ≠ r → m'.numCachedBlock.get? r' = m.numCachedBlock.get? r'

theorem OnlyCached.refl (r : ReqId) (m : Manager H) : OnlyCached r m m :=
  ⟨.refl m, fun _ _ => rfl⟩

theorem OnlyCached.trans (h : OnlyCached r m m') (h' : OnlyCached r m' m'') : OnlyCached r m m'' :=
  ⟨h.1.trans h'.1, fun r' hr' => (h'.2 r' hr').trans (h.2 r' hr')⟩

/-- The number of cached blocks of the request is set. -/
theorem onlyCached_set {n : ℕ} (h : SameTables m m')
    (hcached : m'.numCachedBlock = m.numCachedBlock.set r n) : OnlyCached r m m' := by
  refine ⟨h, fun r' hr' => ?_⟩
  rw [hcached, get?_set, if_neg hr']

/-- The table of a request has grown by blocks that are not null; nothing else that a
table depends on has changed. -/
structure Grown (r : ReqId) (m m' : Manager H) (bs : List BlockId) : Prop where
  blocksOf : m'.blocksOf r = m.blocksOf r ++ bs
  ne_null : ∀ b ∈ bs, b ≠ nullBlock
  lastStateBlockIdx : m'.lastStateBlockIdx = m.lastStateBlockIdx
  allocatedBlockReqs : m'.allocatedBlockReqs = m.allocatedBlockReqs

/-- A request continues on a copy of one of its blocks: its table is occupied where it was, and
nothing changes for the other requests. -/
structure Redirected (r : ReqId) (m m' : Manager H) : Prop where
  sparser : Sparser nullBlock (m.blocksOf r) (m'.blocksOf r)
  others : ∀ r', r' ≠ r → SameFor r' m m'
  lastStateBlockIdx : m'.lastStateBlockIdx = m.lastStateBlockIdx
  allocatedBlockReqs : m'.allocatedBlockReqs = m.allocatedBlockReqs

theorem Redirected.length_eq (h : Redirected r m m') (r' : ReqId) :
    (m'.blocksOf r').length = (m.blocksOf r').length := by
  by_cases hr' : r' = r
  · exact hr' ▸ h.sparser.length_eq
  · rw [(h.others r' hr').blocksOf]

theorem SameTables.redirected (h : SameTables m m')
    (hcached : m'.numCachedBlock = m.numCachedBlock) :
    Redirected r m m' := by
  refine ⟨?_, fun r' _ => h.sameFor (by rw [hcached]), h.lastStateBlockIdx, h.allocatedBlockReqs⟩
  rw [h.blocksOf]
  exact .refl _

end Manager

open Manager

namespace Group

variable {g : Group} {m m' : Manager H} {p p' : BlockPool H} {r r' : ReqId} {nc : List BlockId}
  {nl ne : ℕ}

/-- Releasing blocks clears entries of the table. -/
theorem removeLoop_cleared (first n : ℕ) (blocks : List BlockId) :
    Cleared nullBlock blocks (removeLoop first n blocks).2 := by
  induction n generalizing blocks with
  | zero => exact .refl blocks
  | succ n ih =>
    rw [removeLoop]
    split
    · exact .refl blocks
    · exact (Cleared.set blocks n).trans (ih _)

/-- Dropping a request leaves the others alone. -/
theorem popBlocksForFree_sameFor (hr' : r' ≠ r) : m.SameFor r' (g.popBlocksForFree m r).2 := by
  have hblocks : ((m.reqToBlocks.pop r).get? r').getD [] = m.blocksOf r' := by
    rw [get?_pop, if_neg hr', blocksOf]
  have hcached : (m.numCachedBlock.pop r).get? r' = m.numCachedBlock.get? r' := by
    rw [get?_pop, if_neg hr']
  simp only [popBlocksForFree]
  split
  · refine ⟨hblocks, hcached, ?_, ?_⟩
    · rw [get?_pop, if_neg hr']
    · simp [hr']
  · exact ⟨hblocks, hcached, rfl, Iff.rfl⟩

/-- A dropped request has no blocks. -/
theorem blocksOf_popBlocksForFree : (g.popBlocksForFree m r).2.blocksOf r = [] := by
  have hblocks : ((m.reqToBlocks.pop r).get? r).getD [] = [] := by
    rw [get?_pop, if_pos rfl, Option.getD_none]
  simp only [popBlocksForFree]
  split <;> exact hblocks

theorem notMem_numCachedBlock_popBlocksForFree : r ∉ (g.popBlocksForFree m r).2.numCachedBlock := by
  have hcached : r ∉ m.numCachedBlock.pop r := by simp
  simp only [popBlocksForFree]
  split <;> exact hcached

theorem addLocalComputedBlocks_sameFor
    (hr' : r' ≠ r) (h : g.addLocalComputedBlocks m p r nc nl ne = .ok (m', p')) :
    m.SameFor r' m' := by
  have hset : ∀ bs, ((m.reqToBlocks.set r bs).get? r').getD [] = m.blocksOf r' := by
    intro bs
    rw [get?_set, if_neg hr', blocksOf]
  have hcached : ∀ n, (m.numCachedBlock.set r n).get? r' = m.numCachedBlock.get? r' := by
    intro n
    rw [get?_set, if_neg hr']
  simp only [addLocalComputedBlocks] at h
  split at h
  · obtain ⟨-, -, hok⟩ := bind_eq_ok.1 h
    cases hok
    exact .refl r' m
  · simp only [addLocalBase, bind_eq_ok] at h
    obtain ⟨-, -, q, -, h⟩ := h
    split at h <;> cases h <;> exact ⟨hset _, hcached _, rfl, Iff.rfl⟩

/-- The table of a request after its local hits: null blocks for the skipped ones. -/
theorem addLocalBase_table (h : g.addLocalBase m p r nc nl ne = .ok (m', p')) : m.blocksOf r = [] ∧
      m'.blocksOf r = List.replicate (g.numSkippedBlocks (nl + ne)) nullBlock ++
        nc.drop (g.numSkippedBlocks (nl + ne)) ∧ m'.lastStateBlockIdx = m.lastStateBlockIdx ∧
      m'.allocatedBlockReqs = m.allocatedBlockReqs := by
  simp only [addLocalBase, bind_eq_ok, assert_eq_ok] at h
  obtain ⟨-, hnil, q, -, h⟩ := h
  have hset := m.blocksOf_setBlocks_self r (List.replicate (g.numSkippedBlocks (nl + ne)) nullBlock
    ++ nc.drop (g.numSkippedBlocks (nl + ne)))
  refine ⟨hnil, ?_⟩
  split at h <;> cases h <;> exact ⟨hset, rfl, rfl⟩

theorem recordLastState_sameFor (prevLen k : ℕ) (hr' : r' ≠ r) :
    m.SameFor r' (recordLastState m r prevLen k) := by
  have hset : ∀ i : ℤ, (m.lastStateBlockIdx.set r i).get? r' = m.lastStateBlockIdx.get? r' := by
    intro i
    rw [get?_set, if_neg hr']
  rw [recordLastState]
  split
  · exact ⟨rfl, rfl, hset _, Iff.rfl⟩
  · split
    · exact ⟨rfl, rfl, hset _, Iff.rfl⟩
    · exact .refl r' m

theorem mem_markAllocated {r' : ReqId} :
    r' ∈ (markAllocated m r).allocatedBlockReqs ↔ r' = r ∨ r' ∈ m.allocatedBlockReqs := by
  simp only [markAllocated]
  split
  · next h => exact ⟨Or.inr, fun h' => h'.elim (fun e => e ▸ h) id⟩
  · simp [or_comm]

theorem markAllocated_sameFor (hr' : r' ≠ r) : m.SameFor r' (markAllocated m r) := by
  refine ⟨rfl, rfl, rfl, ?_⟩
  rw [mem_markAllocated]
  exact or_iff_right hr'

variable [DecidableEq H] {bs : List BlockId}

theorem extendBlocks_sameFor {n : ℤ} (hr' : r' ≠ r)
    (h : g.extendBlocks m p r n = .ok (bs, m', p')) : m.SameFor r' m' := by
  obtain ⟨⟨bs', q⟩, -, hok⟩ := bind_eq_ok.1 h
  have hset : m.SameFor r' (m.setBlocks r (m.blocksOf r ++ bs')) :=
    (onlyTable_setBlocks r m _).sameFor hr'
  cases hok
  split
  · exact ⟨hset.1, hset.2, hset.3, hset.4⟩
  · exact hset

theorem allocateExternalComputedBlocks_sameFor (hr' : r' ≠ r)
    (h : g.allocateExternalComputedBlocks m p r nl ne = .ok (m', p')) : m.SameFor r' m' := by
  simp only [allocateExternalComputedBlocks] at h
  split at h
  · cases h
    exact .refl r' m
  · split at h
    · cases h
      exact .refl r' m
    · obtain ⟨⟨bs, m₁, p₁⟩, hext, hok⟩ := bind_eq_ok.1 h
      cases hok
      exact extendBlocks_sameFor hr' hext

end Group

end KVarN.Core
