import KVarN.Core.Holding
import KVarN.Core.Lookup

/-!
# Block reference accounting

Who holds a reference to a block: the block tables of the managers, both ends of
a pending copy, the pins of handed-off blocks and the entries waiting for their
fence. `KVCacheManager.held` and `KVState.deferredBlocks` collect these references,
and the results say that every operation the scheduler issues keeps the pool's
counts equal to them, over whole runs.

## Main definitions

* `KVCacheManager.held`, `KVState.deferredBlocks` — the owed references.
* `KVCacheManager.Keeps` — an operation keeps the accounts.
* `KVOp`, `KVState.step`, `KVState.run` — the operations the scheduler issues.
* `BlockAccounting` — every count is explained by its holders.
-/

namespace KVarN.Core

open KVarN.Lib Core.Group List BlockPool

variable {H : Type}

/-! ## All managers -/

/-- The references of all managers. -/
def heldAll (ms : List (Managed H)) : Multiset BlockId := (ms.map fun gm => gm.2.held).sum

@[simp] theorem heldAll_cons (gm : Managed H) (ms : List (Managed H)) :
    heldAll (gm :: ms) = gm.2.held + heldAll ms := rfl

/-- What every manager hands out, all of them do. -/
theorem heldAll_map {f : Managed H → Managed H} {out : Managed H → List BlockId}
    (h : ∀ gm, (f gm).2.held + real (out gm) = gm.2.held) (ms : List (Managed H)) :
    heldAll (ms.map f) + real (ms.flatMap out) = heldAll ms := by
  induction ms with
  | nil => simp [heldAll]
  | cons gm ms ih =>
    rw [map_cons, flatMap_cons, real_append, heldAll_cons, heldAll_cons, ← ih, ← h gm]
    abel

/-- Every manager is sound next to the others and the given references. -/
structure AllSound (F : Multiset BlockId) (ms : List (Managed H)) (p : BlockPool H) : Prop where
  accounts : p.Accounts (F + heldAll ms)
  valid : ∀ gm ∈ ms, gm.2.Valid gm.1 p.numGpuBlocks

variable {α : Type}

/-- Every manager of the result comes from one call on the manager it replaces. -/
theorem eachManager_getElem? {f} {i : ℕ} {ms ms' : List (Managed H)} {p p' : BlockPool H}
    {as : List α} (h : eachManager f i ms p = .ok (as, ms', p')) {j : ℕ} {g : Group}
    {m' : Manager H} (hj : ms'[j]? = some (g, m')) : ∃ m a q q', ms[j]? = some (g, m) ∧ f (i + j) g
    m q = .ok (a, m', q') := by
  induction ms generalizing i p as ms' j with
  | nil =>
    simp only [eachManager, Except.ok.injEq, Prod.mk.injEq] at h
    obtain ⟨-, rfl, -⟩ := h
    simp at hj
  | cons gm ms ih =>
    simp only [eachManager, bind_eq_ok] at h
    obtain ⟨⟨a, m1, p1⟩, hf, ⟨as', ms1, p2⟩, hrest, hok⟩ := h
    cases hok
    cases j with
    | zero =>
      simp only [getElem?_cons_zero, Option.some.injEq, Prod.mk.injEq] at hj
      obtain ⟨rfl, rfl⟩ := hj
      exact ⟨gm.2, a, p, p1, rfl, hf⟩
    | succ j =>
      obtain ⟨m, b, q, q', hm, hfm⟩ := ih hrest (by simpa using hj)
      refine ⟨m, b, q, q', by simpa using hm, ?_⟩
      rw [show i + (j + 1) = i + 1 + j by omega]
      exact hfm

/-- Each call of a pass keeps its own manager sound next to any other references. -/
def CallsConserve
    (f : ℕ → Group → Manager H → BlockPool H → Except Fault (α × Manager H × BlockPool H)) (i : ℕ)
    (ms : List (Managed H)) (n : ℕ) : Prop :=
  ∀ j g m, ms[j]? = some (g, m) → ∀ q : BlockPool H, q.numGpuBlocks = n →
    ∀ a m' q', f (i + j) g m q = .ok (a, m', q') → Conserves g m m' q q'

/-- The first manager next to the others. -/
theorem AllSound.head {F : Multiset BlockId} {gm : Managed H} {ms : List (Managed H)}
    {p : BlockPool H} (h : AllSound F (gm :: ms) p) : Sound gm.1 (F + heldAll ms) gm.2 p := by
  refine ⟨?_, h.valid gm mem_cons_self⟩
  have hacc := h.accounts
  rwa [heldAll_cons, add_comm gm.2.held, ← add_assoc] at hacc

/-- **Managers in turn.** If each call keeps its own manager sound next to any other
references, the whole pass does, and each call is on a sound manager. -/
theorem eachManager_sound {f} {i : ℕ} {ms ms' : List (Managed H)} {p p' : BlockPool H} {as : List α}
    (hf : CallsConserve f i ms p.numGpuBlocks) (h : eachManager f i ms p = .ok (as, ms', p')) :
    p'.numGpuBlocks = p.numGpuBlocks ∧ ∀ F, AllSound F ms p → AllSound F ms' p' ∧ ∀ j g m', ms'[j]?
    = some (g, m') → ∃ m a q q' G, ms[j]? = some (g, m) ∧ Sound g G m q ∧ f (i + j) g m q = .ok
    (a, m', q') := by
  induction ms generalizing i p as ms' with
  | nil =>
    simp only [eachManager, Except.ok.injEq, Prod.mk.injEq] at h
    obtain ⟨-, rfl, rfl⟩ := h
    exact ⟨rfl, fun _ h => ⟨h, by simp⟩⟩
  | cons gm ms ih =>
    simp only [eachManager, bind_eq_ok] at h
    obtain ⟨⟨a, m1, p1⟩, hfst, ⟨as', ms1, p2⟩, hrest, hok⟩ := h
    cases hok
    have hc : Conserves gm.1 gm.2 m1 p p1 := hf 0 gm.1 gm.2 rfl p rfl a m1 p1 hfst
    have hidx : ∀ j, i + (j + 1) = i + 1 + j := fun j => by omega
    obtain ⟨hn, hall⟩ := ih (p := p1) (fun j g m hj q hq a m' q' hq' =>
      hf (j + 1) g m (by simpa using hj) q (hq.trans hc.1) a m' q'
        (by rw [hidx]; exact hq')) hrest
    refine ⟨hn.trans hc.1, fun F s => ?_⟩
    have hhead : Sound gm.1 (F + heldAll ms) m1 p1 := hc.2 _ s.head
    have htail : AllSound (F + m1.held) ms p1 := by
      refine ⟨?_, fun gm' hgm' => ?_⟩
      · have := hhead.accounts
        rwa [add_right_comm] at this
      · rw [hc.1]; exact s.valid gm' (by simp [hgm'])
    obtain ⟨hres, hcalls⟩ := hall _ htail
    refine ⟨⟨?_, fun gm' hgm' => ?_⟩, fun j g m' hj => ?_⟩
    · rw [heldAll_cons, ← add_assoc]; exact hres.accounts
    · rcases mem_cons.1 hgm' with rfl | hgm'
      · have := hhead.valid
        rwa [← hn] at this
      · exact hres.valid gm' hgm'
    · cases j with
      | zero =>
        cases hj
        exact ⟨gm.2, a, p, p1, _, rfl, s.head, hfst⟩
      | succ j =>
        obtain ⟨m, b, q, q', G, hm, hG, hcall⟩ := hcalls j g m' (by simpa using hj)
        exact ⟨m, b, q, q', G, by simpa using hm, hG, by rw [hidx]; exact hcall⟩

theorem noOutput_eq_ok {x : Except Fault α} {a : Unit × α} : noOutput x = .ok a ↔ x = .ok a.2 := by
  simp only [noOutput, bind_eq_ok]
  constructor
  · rintro ⟨b, hb, hok⟩; cases hok; exact hb
  · intro h; exact ⟨a.2, h, rfl⟩

namespace KVCacheManager

/-- The references of the managers and of the pins. -/
def held (s : KVCacheManager H) : Multiset BlockId :=
  heldAll s.managers + tableRefs s.partialTailPins

/-- The pool accounts for the managers, the pins and the given other references. -/
structure Balanced (F : Multiset BlockId) (s : KVCacheManager H) : Prop where
  accounts : s.pool.Accounts (F + s.held)
  valid : ∀ gm ∈ s.managers, gm.2.Valid gm.1 s.pool.numGpuBlocks

variable {F : Multiset BlockId} {s s' : KVCacheManager H} {r : ReqId}

theorem Balanced.allSound (h : s.Balanced F) :
    AllSound (F + tableRefs s.partialTailPins) s.managers s.pool := by
  refine ⟨?_, h.valid⟩
  have := h.accounts
  rw [held, add_comm (heldAll _), ← add_assoc] at this
  exact this

theorem balanced_of_allSound
    (h : AllSound (F + tableRefs s.partialTailPins) s.managers s.pool) : s.Balanced F := by
  refine ⟨?_, h.valid⟩
  have := h.accounts
  rw [held, add_comm (heldAll _), ← add_assoc]
  exact this

/-- An operation on the managers that keeps the pool's size and the accounts. -/
def Keeps (s s' : KVCacheManager H) : Prop :=
  s'.pool.numGpuBlocks = s.pool.numGpuBlocks ∧ ∀ F, s.Balanced F → s'.Balanced F

theorem Keeps.refl (s : KVCacheManager H) : Keeps s s := ⟨rfl, fun _ h => h⟩

theorem Keeps.trans {s'' : KVCacheManager H} (h : Keeps s s') (h' : Keeps s' s'') : Keeps s s'' :=
  ⟨h'.1.trans h.1, fun F b => h'.2 F (h.2 F b)⟩

/-- A pass over the managers that conserves each of them. -/
theorem keeps_eachManager {α : Type} {f} {ms : List (Managed H)} {p : BlockPool H} {as : List α}
    (hf : CallsConserve f 0 s.managers s.pool.numGpuBlocks)
    (h : eachManager f 0 s.managers s.pool = .ok (as, ms, p)) :
    Keeps s { s with managers := ms, pool := p } := by
  obtain ⟨hn, hall⟩ := eachManager_sound hf h
  exact ⟨hn, fun F b => balanced_of_allSound (hall _ b.allSound).1⟩

theorem removeSkippedBlocks_keeps {n : ℕ} {np : Option ℕ}
    (h : s.removeSkippedBlocks r n np = .ok s') : Keeps s s' := by
  obtain ⟨⟨_, ms, p⟩, hpass, hok⟩ := bind_eq_ok.1 h
  cases hok
  refine keeps_eachManager (fun j g m _ q _ a m' q' hq' => ?_) hpass
  exact (removeSkippedBlocks_released (noOutput_eq_ok.1 hq')).2

/-- Freeing a request: the pins, then every manager's blocks. -/
theorem free_keeps (h : s.free r = .ok s') : Keeps s s' := by
  obtain ⟨⟨_, ms, p⟩, hpass, hok⟩ := bind_eq_ok.1 h
  cases hok
  let s1 : KVCacheManager H :=
    { pool := s.pool.freeBlocks ((s.partialTailPins.get? r).getD [])
      managers := s.managers
      partialTailPins := s.partialTailPins.pop r }
  have hpins : Keeps s s1 := by
    refine ⟨rfl, fun F b => ⟨?_, b.valid⟩⟩
    have hb := b.accounts
    rw [held, ← tableRefs_pop s.partialTailPins r, ← add_assoc, ← add_assoc] at hb
    have := hb.freeBlocks
    rw [add_assoc] at this
    exact this
  refine hpins.trans ?_
  refine keeps_eachManager (s := s1) (fun j g m _ q _ a m' q' hq' => ?_) hpass
  simp only [Except.ok.injEq, Prod.mk.injEq] at hq'
  obtain ⟨-, hq'⟩ := hq'
  have hc := free_conserves (g := g) (m := m) (p := q) (r := r)
  rw [hq'] at hc
  exact hc

/-- References handed to the caller. -/
theorem Balanced.handOver {out : List BlockId} {f : Managed H → Managed H} (b : s.Balanced F)
    (hpool : s'.pool = s.pool) (hms : s'.managers = s.managers.map f)
    (hheld : s'.held + real out = s.held) (hf : ∀ gm, gm.2.Valid gm.1 s.pool.numGpuBlocks →
      (f gm).2.Valid (f gm).1 s.pool.numGpuBlocks) : s'.Balanced (F + real out) := by
  refine ⟨?_, fun gm hgm => ?_⟩
  · have hb := b.accounts
    rwa [← hheld, add_comm (held _), ← add_assoc, ← hpool] at hb
  · rw [hms] at hgm
    obtain ⟨gm', hgm', rfl⟩ := mem_map.1 hgm
    rw [hpool]
    exact hf gm' (b.valid gm' hgm')

/-- The references a drained request hands to the caller. -/
theorem popBlocksForFree_balanced (b : s.Balanced F) :
    (s.popBlocksForFree r).2.Balanced (F + real (s.popBlocksForFree r).1) := by
  have hz : (s.popBlocksForFree r).2.managers =
      s.managers.map fun gm => (gm.1, (gm.1.popBlocksForFree gm.2 r).2) := by
    simp only [popBlocksForFree, map_map, zip_map']
    rfl
  refine b.handOver rfl hz ?_ fun gm hgm => popBlocksForFree_valid hgm
  have hall := heldAll_map (f := fun gm => (gm.1, (gm.1.popBlocksForFree gm.2 r).2))
    (fun gm => popBlocksForFree_held) s.managers
  rw [held, hz]
  simp only [popBlocksForFree, held, real_append, map_map, ← flatMap_def]
  rw [← hall, ← tableRefs_pop s.partialTailPins r]
  abel

/-- The drained copies hand the references of both ends to the caller. -/
theorem takeKvCacheBlockCopies_balanced (b : s.Balanced F) :
    s.takeKvCacheBlockCopies.2.2.Balanced (F + real s.takeKvCacheBlockCopies.2.1) := by
  refine b.handOver rfl rfl ?_ fun gm hgm => hgm.congr rfl rfl rfl
  have hall := heldAll_map (f := fun gm : Managed H => (gm.1, { gm.2 with pendingCowCopies := [] }))
    (fun gm => show _ + real (copyEnds gm.2.pendingCowCopies) = _ by
      simp [Manager.held, copyEnds]) s.managers
  rw [held, held, ← hall]
  simp only [takeKvCacheBlockCopies, copyEnds, flatMap_assoc]
  abel

variable {es : List (ReqId × ℕ × BlockId × ℕ)}

/-- **Pinning never fails** on existing blocks and keeps the accounts. -/
theorem pinOffloads_keeps (he : ∀ e ∈ es, e.2.2.1 < s.pool.numGpuBlocks)
    (h : pinOffloads es s = .ok s') : Keeps s s' := by
  induction es generalizing s with
  | nil => cases h; exact .refl _
  | cons e es ih =>
    obtain ⟨r, g, b, t⟩ := e
    obtain ⟨pool, hpool, h⟩ := bind_eq_ok.1 h
    have hn := touch_numGpuBlocks hpool
    refine Keeps.trans ⟨hn, fun F bal => ⟨?_, ?_⟩⟩ (ih (fun e he' => ?_) h)
    · have hmem : ∀ b' ∈ [b], b' < s.pool.numGpuBlocks := fun b' hb' => by
        rw [mem_singleton.1 hb']
        exact he (r, g, b, t) mem_cons_self
      obtain ⟨pool', hpool', hacc⟩ := bal.accounts.touch hmem
      rw [hpool'] at hpool
      cases hpool
      have hset := tableRefs_set s.partialTailPins r ((s.partialTailPins.get? r).getD [] ++ [b])
      rw [real_append, ← add_assoc, add_right_comm] at hset
      have hset' := add_right_cancel hset
      have hgoal : F + s.held + real [b] = F + (heldAll s.managers + tableRefs
          (s.partialTailPins.set r ((s.partialTailPins.get? r).getD [] ++ [b]))) := by
        rw [hset', held]; abel
      rw [hgoal] at hacc
      exact hacc
    · intro gm hgm
      have := bal.valid gm hgm
      rwa [← hn] at this
    · show e.2.2.1 < pool.numGpuBlocks
      rw [hn]
      exact he e (by simp [he'])

theorem takePartialTailOffloads_keeps (b : s.Balanced F)
    (h : s.takePartialTailOffloads = .ok (es, s')) : s'.Balanced F := by
  obtain ⟨s1, hpin, hok⟩ := bind_eq_ok.1 h
  cases hok
  have hall : ∀ ms : List (Managed H), heldAll (ms.map fun gm =>
      (gm.1, { gm.2 with pendingPartialTailOffloads := [] })) = heldAll ms := by
    intro ms
    simp only [heldAll, map_map]
    rfl
  have he : ∀ e ∈ s.managers.flatMap fun gm => gm.2.pendingPartialTailOffloads,
      e.2.2.1 < s.pool.numGpuBlocks := by
    intro e he
    obtain ⟨gm, hgm, he⟩ := mem_flatMap.1 he
    exact (b.valid gm hgm).offloads e he
  have hk := fun h => pinOffloads_keeps h hpin
  refine (hk he).2 F ⟨?_, ?_⟩
  · have hb := b.accounts
    rw [held, ← hall s.managers] at hb
    exact hb
  · intro gm hgm
    obtain ⟨gm', hgm', rfl⟩ := mem_map.1 hgm
    exact ⟨by simp, (b.valid gm' hgm').allocated⟩

/-- Bookkeeping on the managers that no reference depends on. -/
theorem keeps_map (f : Group → Manager H → Manager H)
    (hf : ∀ g m, (f g m).reqToBlocks = m.reqToBlocks ∧
      (f g m).pendingCowCopies = m.pendingCowCopies ∧
      (f g m).pendingPartialTailOffloads = m.pendingPartialTailOffloads ∧
      (f g m).allocatedBlockReqs = m.allocatedBlockReqs) :
    Keeps s { s with managers := s.managers.map fun gm => (gm.1, f gm.1 gm.2) } := by
  refine ⟨rfl, fun F b => ⟨?_, fun gm hgm => ?_⟩⟩
  · have hall : heldAll (s.managers.map fun gm => (gm.1, f gm.1 gm.2)) = heldAll s.managers := by
      simp only [heldAll, map_map]
      congr 1
      refine map_congr_left fun gm _ => ?_
      simp only [Function.comp_apply, Manager.held]
      rw [(hf gm.1 gm.2).1, (hf gm.1 gm.2).2.1]
    have hb := b.accounts
    rw [held, ← hall] at hb
    exact hb
  · obtain ⟨gm', hgm', rfl⟩ := mem_map.1 hgm
    obtain ⟨h1, -, h3, h4⟩ := hf gm'.1 gm'.2
    exact (b.valid gm' hgm').congr h3 h1 h4

theorem takeNewBlockIds_keeps (s : KVCacheManager H) : Keeps s s.takeNewBlockIds.2 :=
  keeps_map (fun _ m => { m with newBlockIds := [] }) fun _ _ => ⟨rfl, rfl, rfl, rfl⟩

theorem newStepStarts_keeps (s : KVCacheManager H) : Keeps s s.newStepStarts :=
  keeps_map (fun _ m => { m with cachedBlocksThisStep := [] }) fun _ _ => ⟨rfl, rfl, rfl, rfl⟩

theorem recordBlocksForZeroing_keeps {t : ℕ}
    (h : s.recordBlocksForZeroing r t = .ok s') : Keeps s s' := by
  obtain ⟨-, -, hok⟩ := bind_eq_ok.1 h
  cases hok
  refine keeps_map (fun g m => if g.recordNewBlockIds then { m with
    newBlockIds := m.newBlockIds ++ (m.blocksOf r).drop (t / g.blockSize) } else m) fun g m => ?_
  split <;> exact ⟨rfl, rfl, rfl, rfl⟩

section Allocation

variable {g : Group} {nl ne : ℕ}

/-- While external tokens are still read, the skipped blocks are among the computed
ones. -/
theorem numSkippedBlocks_le (hpos : 0 < g.numExternalTokens nl ne) :
    g.numSkippedBlocks (nl + ne) ≤ cdiv (nl + ne) g.blockSize := by
  have hb := g.blockSize_pos
  simp only [numExternalTokens] at hpos
  simp only [numSkippedBlocks, cdiv]
  by_cases ht : 0 < g.getNumSkippedTokens (nl + ne)
  · rw [if_pos ht] at hpos
    obtain ⟨a, ha⟩ := Int.eq_ofNat_of_zero_le ht.le
    rw [ha] at hpos ⊢
    have hlt : a ≤ nl + ne + g.blockSize - 1 := by omega
    exact Nat.div_le_div_right hlt
  · have hz : g.getNumSkippedTokens (nl + ne) / (g.blockSize : ℤ) ≤ 0 :=
      Int.ediv_le_of_le_mul (by omega) (by omega)
    rw [Int.toNat_of_nonpos hz]
    exact Nat.zero_le _

/-- The table of a request right after its local hits were added. -/
theorem length_of_addLocal {m m' : Manager H} {p p' : BlockPool H}
    {nc : List BlockId} (hg : g.spec ≠ .crossAttention)
    (hpos : 0 < g.numExternalTokens nl ne) (hlen : nc.length ≤ cdiv (nl + ne) g.blockSize)
    (h : g.addLocalComputedBlocks m p r nc nl ne = .ok (m', p')) :
    (m'.blocksOf r).length ≤ cdiv (nl + ne) g.blockSize := by
  have hskip := numSkippedBlocks_le hpos
  have hbase : g.addLocalBase m p r nc nl ne = .ok (m', p') := by
    simpa only [Group.addLocalComputedBlocks] using h
  rw [(addLocalBase_table hbase).2.1, length_append, length_replicate, length_drop]
  omega

/-- What the accounts need of the hits passed to `allocate_slots`: the blocks exist, and a
group that is given blocks for external tokens has no more hits than its computed
tokens fill. -/
structure ValidHits (s : KVCacheManager H) (ncs : List (List BlockId))
    (numLocal numExternal : ℕ) : Prop where
  exist : ∀ bs ∈ ncs, ∀ b ∈ bs, b < s.pool.numGpuBlocks
  covered : ∀ x ∈ s.managers.zipIdx, 0 < x.1.1.numExternalTokens numLocal numExternal →
    (ncs.getD x.2 []).length ≤ cdiv (numLocal + numExternal) x.1.1.blockSize

instance (s : KVCacheManager H) (ncs : List (List BlockId)) (nl ne : ℕ) :
    Decidable (ValidHits s ncs nl ne) :=
  decidable_of_iff
    ((∀ bs ∈ ncs, ∀ b ∈ bs, b < s.pool.numGpuBlocks) ∧
      ∀ x ∈ s.managers.zipIdx, 0 < x.1.1.numExternalTokens nl ne →
        (ncs.getD x.2 []).length ≤ cdiv (nl + ne) x.1.1.blockSize)
    ⟨fun h => ⟨h.1, h.2⟩, fun h => ⟨h.exist, h.covered⟩⟩

variable {ncs : List (List BlockId)}

theorem ValidHits.length_le {j : ℕ} {m : Manager H} (h : ValidHits s ncs nl ne)
    (hj : s.managers[j]? = some (g, m)) (hpos : 0 < g.numExternalTokens nl ne) :
    (ncs.getD j []).length ≤ cdiv (nl + ne) g.blockSize :=
  h.covered ((g, m), j) (mem_zipIdx_iff_getElem?.2 hj) hpos

theorem getD_exist {n : ℕ} (h : ∀ bs ∈ ncs, ∀ b ∈ bs, b < n) (j : ℕ) : ∀ b ∈ ncs.getD j [], b < n :=
    by
  intro b hb
  rw [getD_eq_getElem?_getD] at hb
  cases hj : ncs[j]? with
  | none => simp [hj] at hb
  | some bs =>
    simp only [hj, Option.getD_some] at hb
    exact h bs (mem_of_getElem? hj) b hb

/-- The calls that add the local hits. -/
theorem addLocal_conserve (hv : ValidHits s ncs nl ne) : CallsConserve
    (fun i g m p => noOutput (g.addLocalComputedBlocks m p r (ncs.getD i []) nl ne)) 0 s.managers
    s.pool.numGpuBlocks := by
  intro j g m _ q hq a m' q' hq'
  refine addLocalComputedBlocks_conserves ?_ (noOutput_eq_ok.1 hq')
  rw [hq]
  exact getD_exist hv.exist (0 + j)

variable [DecidableEq H] {n : ℕ} {cfg : KVCacheConfig} {req : KVRequest H}

/-- The calls for external tokens: each manager is the result of adding its own local hits. -/
theorem allocateExternal_conserve {ncs : List (List BlockId)} (hv : ValidHits s ncs nl ne)
    {as : List Unit} {ms : List (Managed H)} {p : BlockPool H} (h : eachManager (fun i g m p =>
      noOutput (g.addLocalComputedBlocks m p r (ncs.getD i []) nl ne)) 0 s.managers s.pool =
        .ok (as, ms, p)) :
    CallsConserve (fun _ g m p => noOutput (g.allocateExternalComputedBlocks m p r nl ne))
      0 ms p.numGpuBlocks := by
  intro j g m hj q _ a m' q' hq'
  refine allocateExternalComputedBlocks_conserves (fun hg hpos => ?_)
    (noOutput_eq_ok.1 hq')
  obtain ⟨m0, _, q0, q1, hm0, hadd⟩ := eachManager_getElem? h hj
  rw [Nat.zero_add] at hadd
  exact length_of_addLocal hg hpos (hv.length_le hm0 hpos) (noOutput_eq_ok.1 hadd)

theorem allocateNewComputedBlocks_keeps {ncs : List (List BlockId)} (hv : ValidHits s ncs nl ne)
    (h : s.allocateNewComputedBlocks r ncs nl ne = .ok s') : Keeps s s' := by
  simp only [allocateNewComputedBlocks] at h
  split at h
  · obtain ⟨-, -, hok⟩ := bind_eq_ok.1 h
    cases hok; exact .refl _
  · simp only [addLocalComputedBlocks, bind_eq_ok] at h
    obtain ⟨s1, ⟨⟨_, ms, p⟩, hlocal, hok⟩, hext⟩ := h
    cases hok
    refine (keeps_eachManager (addLocal_conserve hv) hlocal).trans ?_
    simp only [allocateExternalComputedBlocks] at hext
    split at hext
    · obtain ⟨⟨_, ms', p'⟩, hpass, hok⟩ := bind_eq_ok.1 hext
      cases hok
      exact keeps_eachManager (s := { s with managers := ms, pool := p })
        (allocateExternal_conserve hv hlocal) hpass
    · cases hext; exact .refl _

theorem allocateNewBlocks_keeps {main enc : ℕ} {bs : List (List BlockId)} (hm : 0 < main)
    (h : s.allocateNewBlocks r n main enc = .ok (bs, s')) : Keeps s s' := by
  obtain ⟨⟨_, ms, p⟩, hpass, hok⟩ := bind_eq_ok.1 h
  cases hok
  refine keeps_eachManager (fun j g m _ q _ a m' q' hq' => ?_) hpass
  exact (allocateNewBlocks_serves hm hq').conserves

theorem coordinatorCacheBlocks_keeps (h : s.coordinatorCacheBlocks cfg req n = .ok s') :
    Keeps s s' := by
  obtain ⟨⟨_, ms, p⟩, hpass, hok⟩ := bind_eq_ok.1 h
  cases hok
  refine keeps_eachManager (fun j g m _ q _ a m' q' hq' => ?_) hpass
  exact (cacheBlocks_cached (noOutput_eq_ok.1 hq')).2

theorem cacheBlocks_keeps (h : s.cacheBlocks cfg req n = .ok s') : Keeps s s' := by
  simp only [cacheBlocks] at h
  split at h
  · exact coordinatorCacheBlocks_keeps h
  · cases h; exact .refl _

section

omit [DecidableEq H]

theorem ValidHits.congr {ncs : List (List BlockId)}
    (h : ValidHits s ncs nl ne) (hp : s'.pool.numGpuBlocks = s.pool.numGpuBlocks)
    (hg : ∀ (j : ℕ) (g : Group) (m' : Manager H), s'.managers[j]? = some (g, m') →
      ∃ m, s.managers[j]? = some (g, m)) :
    ValidHits s' ncs nl ne where
  exist := by rw [hp]; exact h.exist
  covered x hx := by
    obtain ⟨m, hm⟩ := hg x.2 x.1.1 x.1.2 (mem_zipIdx_iff_getElem?.1 hx)
    exact h.length_le hm

theorem removeSkippedBlocks_groups {np : Option ℕ}
    (h : s.removeSkippedBlocks r n np = .ok s') {j : ℕ} {m' : Manager H}
    (hj : s'.managers[j]? = some (g, m')) : ∃ m, s.managers[j]? = some (g, m) := by
  obtain ⟨⟨_, ms, p⟩, hpass, hok⟩ := bind_eq_ok.1 h
  cases hok
  obtain ⟨m, _, _, _, hm, -⟩ := eachManager_getElem? hpass hj
  exact ⟨m, hm⟩

theorem numTokensMainModel_pos {args : AllocArgs} (hc : 0 < cfg.maxModelLen)
    (h : ¬ (args.numNewTokens = 0 ∧ args.numExternalComputedTokens = 0)) :
    0 < numTokensMainModel cfg req args := by
  simp only [numTokensMainModel, totalComputedTokens]
  omega

end

/-- **Allocating slots** keeps the accounts, whether it succeeds or not. -/
theorem allocateSlots_keeps
    {args : AllocArgs} {out : Option (List (List BlockId))} (hc : 0 < cfg.maxModelLen)
    (hv : ValidHits s args.newComputedBlocks (numLocalComputedTokens req args)
      args.numExternalComputedTokens)
    (h : s.allocateSlots cfg req args = .ok (out, s')) : Keeps s s' := by
  simp only [allocateSlots] at h
  split at h
  · cases h
  · next hnz =>
    obtain ⟨fits, -, h⟩ := bind_eq_ok.1 h
    split at h
    · cases h; exact .refl _
    · simp only [bind_eq_ok] at h
      obtain ⟨s1, hskip, n, -, h⟩ := h
      have hk1 := removeSkippedBlocks_keeps hskip
      split at h
      · cases h; exact hk1
      · simp only [commitSlots, takeComputedBlocks, cacheScheduled, bind_eq_ok] at h
        obtain ⟨⟨bs, s5⟩, ⟨s2, hcomp, ⟨bs', s3⟩, hnew, s4, hcache, hok⟩, hok'⟩ := h
        have hk2 : Keeps s1 s2 := by
          split at hcomp
          · exact allocateNewComputedBlocks_keeps
              (hv.congr hk1.1 fun j g m' hj => removeSkippedBlocks_groups hskip hj) hcomp
          · cases hcomp; exact .refl _
        have hk3 := allocateNewBlocks_keeps (numTokensMainModel_pos hc hnz) hnew
        have hk4 : Keeps s3 s4 := by
          split at hcache
          · cases hcache; exact .refl _
          · exact coordinatorCacheBlocks_keeps hcache
        cases hok
        cases hok'
        exact ((hk1.trans hk2).trans hk3).trans hk4

theorem evictBlocks_keeps {ids : List BlockId} (h : s.evictBlocks ids = .ok s') : Keeps s s' := by
  simp only [evictBlocks, BlockPool.evictBlocks, bind_eq_ok] at h
  obtain ⟨p, ⟨-, -, hp⟩, hok⟩ := h
  cases hp
  cases hok
  exact ⟨rfl, fun F b => ⟨b.accounts, b.valid⟩⟩

omit [DecidableEq H] in
theorem resetPrefixCache_keeps (s : KVCacheManager H) : Keeps s s.resetPrefixCache.2 := by
  simp only [resetPrefixCache, BlockPool.resetPrefixCache]
  split
  · exact .refl _
  · exact ⟨rfl, fun F b => ⟨b.accounts, b.valid⟩⟩

end Allocation

end KVCacheManager

open KVCacheManager

namespace KVState

/-- The blocks that wait for their fence. -/
def deferredBlocks (s : KVState H) : List BlockId := s.deferredFrees.flatMap Prod.snd

/-- The pool accounts for every holder of references. -/
def Balanced (s : KVState H) : Prop := s.kv.Balanced (real s.deferredBlocks)

theorem balanced_init (cfg : KVCacheConfig) (n : ℕ) (groups : List Group) (defer : Bool) :
    (init cfg n groups defer : KVState H).Balanced := by
  have hall : heldAll (groups.map fun g => (g, (Manager.init : Manager H))) = 0 := by
    induction groups with
    | nil => rfl
    | cons g groups ih => rw [map_cons, heldAll_cons, ih]; rfl
  refine ⟨?_, fun gm hgm => ?_⟩
  · have hz : real (init cfg n groups defer : KVState H).deferredBlocks
        + (init cfg n groups defer : KVState H).kv.held = 0 := by
      show 0 + (heldAll (groups.map fun g => (g, (Manager.init : Manager H))) + 0) = 0
      rw [hall]; rfl
    rw [hz]
    exact BlockPool.accounts_init n cfg.enableCaching cfg.hashBlockSize
  · obtain ⟨g, -, rfl⟩ := mem_map.1 hgm
    exact ⟨by simp [Manager.init], by simp [Manager.init]⟩

variable {s : KVState H} {kv : KVCacheManager H} {bs : List BlockId}

/-- An operation on the manager alone. -/
theorem Balanced.of_keeps (b : s.Balanced)
    (h : s.kv.Keeps kv) : ({ s with kv := kv } : KVState H).Balanced :=
  h.2 _ b

/-- Returning owed blocks to the pool. -/
theorem balanced_freeBlocks {F : Multiset BlockId} (b : kv.Balanced (F + real bs)) :
    ({ kv with pool := kv.pool.freeBlocks bs } : KVCacheManager H).Balanced F := by
  refine ⟨?_, b.valid⟩
  have hb := b.accounts
  rw [add_right_comm] at hb
  exact hb.freeBlocks

/-- Queueing owed blocks behind a fence. -/
theorem balanced_defer {fence : ℕ} (b : kv.Balanced (real s.deferredBlocks + real bs)) :
    ({ s with kv := kv, deferredFrees := s.deferredFrees ++ [(fence, bs)] } :
      KVState H).Balanced := by
  have e : ({ s with kv := kv, deferredFrees := s.deferredFrees ++ [(fence, bs)] } :
      KVState H).deferredBlocks = s.deferredBlocks ++ bs := by
    simp [deferredBlocks]
  rw [Balanced, e, real_append]
  exact b

theorem freeRequestBlocks_balanced {s' : KVState H} {r : ReqId} {seq : ℕ} (b : s.Balanced)
    (h : s.freeRequestBlocks r seq = .ok s') : s'.Balanced := by
  simp only [freeRequestBlocks] at h
  split at h
  · obtain ⟨kv, hfree, hok⟩ := bind_eq_ok.1 h
    cases hok
    exact b.of_keeps (free_keeps hfree)
  · have hpop := popBlocksForFree_balanced (r := r) b
    simp only [Except.ok.injEq] at h
    subst h
    by_cases hnil : (s.kv.popBlocksForFree r).1 = []
    · rw [hnil, real_nil, add_zero] at hpop
      simp only [hnil, if_true]
      exact hpop
    · simp only [hnil, if_false]
      exact balanced_defer hpop

theorem freeCowRetainedBlocks_balanced {fence : ℕ}
    (b : s.kv.Balanced (real s.deferredBlocks + real bs)) :
    (s.freeCowRetainedBlocks bs fence).Balanced := by
  rw [freeCowRetainedBlocks]
  split
  · exact balanced_freeBlocks b
  · refine balanced_defer ?_
    rw [real_reverse]
    exact b

theorem takeCopies_balanced (b : s.Balanced) : s.takeCopies.2.Balanced := by
  have hcop := takeKvCacheBlockCopies_balanced b
  simp only [takeCopies]
  split
  · next hnil =>
    rw [hnil, real_nil, add_zero] at hcop
    exact hcop
  · exact freeCowRetainedBlocks_balanced hcop

/-- Draining the fences returns exactly the blocks of the entries it removes. -/
theorem drainLoop_balanced (processed : ℕ) {F : Multiset BlockId} (kv : KVCacheManager H)
    {ds : List (ℕ × List BlockId)} (b : kv.Balanced (F + real (ds.flatMap Prod.snd))) :
    ({ kv with pool := (drainLoop processed ds kv.pool).2 } : KVCacheManager H).Balanced
      (F + real ((drainLoop processed ds kv.pool).1.flatMap Prod.snd)) := by
  induction ds generalizing kv with
  | nil => exact b
  | cons d ds ih =>
    simp only [drainLoop]
    split
    · exact b
    · refine ih { kv with pool := kv.pool.freeBlocks d.2.reverse } ?_
      refine balanced_freeBlocks ?_
      have e : F + real (ds.flatMap Prod.snd) + real d.2.reverse
          = F + real ((d :: ds).flatMap Prod.snd) := by
        rw [flatMap_cons, real_append, real_reverse]; abel
      rw [e]
      exact b

theorem stepProcessed_balanced (b : s.Balanced) : s.stepProcessed.Balanced := by
  rw [stepProcessed]
  split
  · have h : s.kv.Balanced (0 + real (s.deferredFrees.flatMap Prod.snd)) := by
      rw [zero_add]; exact b
    have h' := drainLoop_balanced (s.processedStepSeq + 1) s.kv h
    rw [zero_add] at h'
    exact h'
  · exact b

end KVState

/-- The operations on the KV cache that the scheduler issues. -/
inductive KVOp (H : Type)
  | allocateSlots (req : KVRequest H) (args : AllocArgs)
  | cacheBlocks (req : KVRequest H) (numComputedTokens : ℕ)
  | removeSkippedBlocks (r : ReqId) (processed : ℕ) (numPromptTokens : Option ℕ)
  | free (r : ReqId)
  | freeRequestBlocks (r : ReqId) (lastSchedSeq : ℕ)
  | takeKvCacheBlockCopies
  | takePartialTailOffloads
  | takeNewBlockIds
  | recordBlocksForZeroing (r : ReqId) (startToken : ℕ)
  | evictBlocks (ids : List BlockId)
  | resetPrefixCache
  | newStepStarts
  | stepScheduled
  | stepProcessed

namespace KVState

variable [DecidableEq H]

/-- The effect of one operation. -/
def step (cfg : KVCacheConfig) (s : KVState H) : KVOp H → Except Fault (KVState H)
  | .allocateSlots req args => do
      let (_, kv) ← s.kv.allocateSlots cfg req args
      pure { s with kv := kv }
  | .cacheBlocks req n => do
      let kv ← s.kv.cacheBlocks cfg req n
      pure { s with kv := kv }
  | .removeSkippedBlocks r n np => do
      let kv ← s.kv.removeSkippedBlocks r n np
      pure { s with kv := kv }
  | .free r => do
      let kv ← s.kv.free r
      pure { s with kv := kv }
  | .freeRequestBlocks r seq => s.freeRequestBlocks r seq
  | .takeKvCacheBlockCopies => .ok s.takeCopies.2
  | .takePartialTailOffloads => do
      let (_, kv) ← s.kv.takePartialTailOffloads
      pure { s with kv := kv }
  | .takeNewBlockIds => .ok { s with kv := s.kv.takeNewBlockIds.2 }
  | .recordBlocksForZeroing r t => do
      let kv ← s.kv.recordBlocksForZeroing r t
      pure { s with kv := kv }
  | .evictBlocks ids => do
      let kv ← s.kv.evictBlocks ids
      pure { s with kv := kv }
  | .resetPrefixCache => .ok { s with kv := s.kv.resetPrefixCache.2 }
  | .newStepStarts => .ok { s with kv := s.kv.newStepStarts }
  | .stepScheduled => .ok s.stepScheduled
  | .stepProcessed => .ok s.stepProcessed

/-- Run a list of operations; the run ends at the first exception. -/
def run (cfg : KVCacheConfig) : List (KVOp H) → KVState H → Except Fault (KVState H)
  | [], s => .ok s
  | op :: ops, s => do
      let s ← s.step cfg op
      run cfg ops s

/-- When an operation is issued, the hits passed to `allocate_slots` are blocks of the
pool, and no more than the computed tokens fill where external tokens follow them. -/
def OpValid (s : KVState H) : KVOp H → Prop
  | .allocateSlots req args => s.kv.ValidHits args.newComputedBlocks
      (numLocalComputedTokens req args) args.numExternalComputedTokens
  | _ => True

instance (s : KVState H) (op : KVOp H) : Decidable (s.OpValid op) := by
  cases op with
  | allocateSlots _ _ => exact inferInstanceAs (Decidable (KVCacheManager.ValidHits _ _ _ _))
  | _ => exact isTrue trivial

/-- Every operation of a run is valid where it is issued. -/
def RunValid (cfg : KVCacheConfig) : List (KVOp H) → KVState H → Prop
  | [], _ => True
  | op :: ops, s => s.OpValid op ∧ ∀ s', s.step cfg op = .ok s' → RunValid cfg ops s'

instance decidableRunValid (cfg : KVCacheConfig) :
    (ops : List (KVOp H)) → (s : KVState H) → Decidable (RunValid cfg ops s)
  | [], _ => isTrue trivial
  | op :: ops, s =>
    let _ := decidableRunValid cfg ops
    inferInstanceAs (Decidable (_ ∧ ∀ s', s.step cfg op = .ok s' → _))

/-- **One operation** keeps the accounts. -/
theorem step_balanced {cfg : KVCacheConfig} (hc : 0 < cfg.maxModelLen) {s s' : KVState H}
    {op : KVOp H} (b : s.Balanced) (hv : s.OpValid op) (h : s.step cfg op = .ok s') :
    s'.Balanced := by
  cases op with
  | allocateSlots req args =>
    obtain ⟨⟨out, kv⟩, hkv, hok⟩ := bind_eq_ok.1 h
    cases hok
    exact b.of_keeps (allocateSlots_keeps hc hv hkv)
  | cacheBlocks req n =>
    obtain ⟨kv, hkv, hok⟩ := bind_eq_ok.1 h
    cases hok
    exact b.of_keeps (cacheBlocks_keeps hkv)
  | removeSkippedBlocks r n np =>
    obtain ⟨kv, hkv, hok⟩ := bind_eq_ok.1 h
    cases hok
    exact b.of_keeps (removeSkippedBlocks_keeps hkv)
  | free r =>
    obtain ⟨kv, hkv, hok⟩ := bind_eq_ok.1 h
    cases hok
    exact b.of_keeps (free_keeps hkv)
  | freeRequestBlocks r seq => exact freeRequestBlocks_balanced b h
  | takeKvCacheBlockCopies => cases h; exact takeCopies_balanced b
  | takePartialTailOffloads =>
    obtain ⟨⟨es, kv⟩, hkv, hok⟩ := bind_eq_ok.1 h
    cases hok
    exact takePartialTailOffloads_keeps b hkv
  | takeNewBlockIds => cases h; exact b.of_keeps (takeNewBlockIds_keeps _)
  | recordBlocksForZeroing r t =>
    obtain ⟨kv, hkv, hok⟩ := bind_eq_ok.1 h
    cases hok
    exact b.of_keeps (recordBlocksForZeroing_keeps hkv)
  | evictBlocks ids =>
    obtain ⟨kv, hkv, hok⟩ := bind_eq_ok.1 h
    cases hok
    exact b.of_keeps (evictBlocks_keeps hkv)
  | resetPrefixCache => cases h; exact b.of_keeps (resetPrefixCache_keeps _)
  | newStepStarts => cases h; exact b.of_keeps (newStepStarts_keeps _)
  | stepScheduled =>
    cases h
    rw [stepScheduled]
    split <;> exact b
  | stepProcessed => cases h; exact stepProcessed_balanced b

theorem run_balanced {cfg : KVCacheConfig} (hc : 0 < cfg.maxModelLen) {ops : List (KVOp H)}
    {s s' : KVState H} (b : s.Balanced) (hv : RunValid cfg ops s) (h : run cfg ops s = .ok s') :
    s'.Balanced := by
  induction ops generalizing s with
  | nil => cases h; exact b
  | cons op ops ih =>
    obtain ⟨s1, hs1, h⟩ := bind_eq_ok.1 h
    exact ih (step_balanced hc b hv.1 hs1) (hv.2 s1 hs1) h

section

omit [DecidableEq H]

variable (s : KVState H) (b : BlockId)

/-- Occurrences of a block in the managers' block tables. -/
def tableCount : ℕ :=
  (s.kv.managers.map fun gm => gm.2.reqToBlocks.values.flatten.count b).sum

/-- Retentions of a block by pending copies, as a source or as a target. -/
def cowCount : ℕ :=
  (s.kv.managers.map fun gm => (copyEnds gm.2.pendingCowCopies).count b).sum

/-- Pins of a block for partial-tail hand-offs. -/
def pinCount : ℕ :=
  s.kv.partialTailPins.values.flatten.count b

/-- Occurrences of a block among the deferred frees. -/
def deferredCount : ℕ := s.deferredBlocks.count b

end

/-- Every count is explained by its holders, and the free queue lists exactly the
blocks nobody holds. -/
structure BlockAccounting (s : KVState H) : Prop where
  refCnt_eq : ∀ b, b ≠ nullBlock → b < s.kv.pool.numGpuBlocks → s.kv.pool.refCnt b
    = ((s.tableCount b + s.cowCount b + s.pinCount b + s.deferredCount b : ℕ) : ℤ)
  mem_queue : ∀ b, b ∈ s.kv.pool.refs.queue ↔
    b ≠ nullBlock ∧ b < s.kv.pool.numGpuBlocks ∧ s.kv.pool.refCnt b = 0
  nodup : s.kv.pool.refs.queue.Nodup
  numFreeBlocks_eq : s.kv.pool.getNumFreeBlocks = s.kv.pool.refs.queue.length
  null_notMem : nullBlock ∉ s.kv.pool.refs.queue

omit [DecidableEq H] in
theorem count_heldAll {b : BlockId} (h : b ≠ nullBlock) (ms : List (Managed H)) :
    (heldAll ms).count b = (ms.map fun gm => gm.2.reqToBlocks.values.flatten.count b).sum
      + (ms.map fun gm => (copyEnds gm.2.pendingCowCopies).count b).sum := by
  induction ms with
  | nil => simp [heldAll]
  | cons gm ms ih =>
    simp only [heldAll_cons, Multiset.count_add, ih, Manager.held, tableRefs, count_real h,
      map_cons, sum_cons]
    omega

omit [DecidableEq H] in
theorem Balanced.blockAccounting {s : KVState H} (b : s.Balanced) : s.BlockAccounting where
  refCnt_eq c h0 hn := by
    have h := b.accounts.refCnt_eq c ⟨h0, hn⟩
    rw [BlockPool.refCnt, h, held, Multiset.count_add, Multiset.count_add,
      count_heldAll h0, count_real h0, tableRefs, count_real h0, tableCount, cowCount, pinCount,
      deferredCount]
    omega
  mem_queue c := (b.accounts.mem_queue c).trans and_assoc
  nodup := b.accounts.nodup
  numFreeBlocks_eq := b.accounts.numFree_eq
  null_notMem := b.accounts.notMem_queue fun h => h.1 rfl

/-- **Block reference accounting.** After every run of the operations the scheduler
issues, from a fresh manager over any groups, each non-null block's count is the
number of its occurrences in the block tables plus its copy retentions, pins and
deferred frees; the free queue lists exactly the non-null blocks with count zero,
each once, and its counter is its length. -/
theorem block_accounting (cfg : KVCacheConfig) (hc : 0 < cfg.maxModelLen) (numBlocks : ℕ)
    (groups : List Group) (defer : Bool) (ops : List (KVOp H)) (s : KVState H)
    (hv : RunValid cfg ops (init cfg numBlocks groups defer))
    (hrun : run cfg ops (init cfg numBlocks groups defer) = .ok s) : s.BlockAccounting :=
  (run_balanced hc (balanced_init cfg numBlocks groups defer) hv hrun).blockAccounting

/-! A full-attention and a Mamba "align" group with blocks of four tokens and hashes of
two. Request 1 caches a prompt that ends inside a block and hands its state over; request
2 hits that tail in both groups and copies it; then request 1 is freed behind a fence. -/
namespace SharedTail

def cfg : KVCacheConfig := .small true 2 4

def group (spec : KVCacheSpec) (groupId : ℕ) : Group :=
  .small cfg (by decide) spec groupId false

/-- A request with the common prefix of six tokens. -/
def req (r : ReqId) (numTokens numPromptTokens computed : ℕ) : KVRequest ℕ :=
  .small r numTokens numPromptTokens computed [10, 11, 12] (computed = 0)

def start : KVState ℕ := init cfg 10 [group .fullAttention 0, group (.mamba .align 0) 1] true

def ops : List (KVOp ℕ) :=
  [.newStepStarts, .allocateSlots (req 1 6 6 0) { numNewTokens := 6 },
    .takePartialTailOffloads, .takeKvCacheBlockCopies, .stepScheduled,
    .newStepStarts, .allocateSlots (req 1 7 6 6) { numNewTokens := 1 },
    .takePartialTailOffloads, .takeKvCacheBlockCopies, .stepScheduled, .newStepStarts,
    .allocateSlots (req 2 7 7 0)
      { numNewTokens := 1, numNewComputedTokens := 6, newComputedBlocks := [[1, 2], [0, 4]] },
    .takeKvCacheBlockCopies, .stepScheduled, .freeRequestBlocks 1 2, .stepProcessed]

def final : KVState ℕ := (run cfg ops start).toOption.getD start

end SharedTail

theorem block_accounting_sharedTail :
    run SharedTail.cfg SharedTail.ops SharedTail.start = .ok SharedTail.final ∧
      SharedTail.final.BlockAccounting ∧ SharedTail.final.kv.pool.refCnt 4 = 3 := by
  have hv : RunValid SharedTail.cfg SharedTail.ops SharedTail.start := by decide +kernel
  have hrun : run SharedTail.cfg SharedTail.ops SharedTail.start = .ok SharedTail.final :=
    eq_ok_getD SharedTail.start (by decide +kernel)
  refine ⟨hrun, ?_, by decide +kernel⟩
  exact block_accounting SharedTail.cfg (by decide) 10 _ true SharedTail.ops SharedTail.final
    hv hrun

/-! Two full-attention groups of different specs and a sliding window, with blocks of one
token. Request 1 computes five tokens; the second decode step reuses two blocks that left
its window. Request 2 shares three tokens with it: full attention hits all three, the window
only the first, and the lookup trims the first full-attention group alone. One external
token later the second group holds three blocks for two tokens. -/

namespace UntrimmedHit

def cfg : KVCacheConfig := .small true 1 1

def group (spec : KVCacheSpec) (groupId : ℕ) : Group :=
  .small cfg (by decide) spec groupId false

def req (r : ReqId) (hashes : List ℕ) (computed : ℕ) : KVRequest ℕ :=
  .small r hashes.length 4 computed hashes (computed = 0)

def start : KVState ℕ :=
  init cfg 14 [group .fullAttention 0, group .fullAttention 1, group (.slidingWindow 2 0) 2] false

/-- Request 1 from its admission to its end. -/
def history : List (KVOp ℕ) :=
  [.newStepStarts, .allocateSlots (req 1 [10, 11, 12, 13] 0) { numNewTokens := 4 },
    .takeKvCacheBlockCopies, .stepScheduled, .stepProcessed, .newStepStarts,
    .allocateSlots (req 1 [10, 11, 12, 13, 14] 4) { numNewTokens := 1 },
    .takeKvCacheBlockCopies, .stepScheduled, .stepProcessed, .freeRequestBlocks 1 2]

/-- Request 2 with the hits of its lookup and one external token. -/
def admission : KVOp ℕ :=
  .allocateSlots (req 2 [10, 11, 12, 23] 0)
    { numNewTokens := 2, numNewComputedTokens := 1,
      newComputedBlocks := [[1], [5, 6, 7], [9]], numExternalComputedTokens := 1 }

def before : KVState ℕ := (run cfg history start).toOption.getD start

def final : KVState ℕ := (run cfg (history ++ [admission]) start).toOption.getD start

end UntrimmedHit

open UntrimmedHit

theorem free_count_drifts : run cfg history start = .ok before ∧ before.kv.getComputedBlocks cfg
        (req 2 [10, 11, 12, 23] 0) = .ok ([[1], [5, 6, 7], [9]], 1, 3) ∧
      run cfg (history ++ [admission]) start = .ok final ∧ ¬ final.BlockAccounting := by
  refine ⟨eq_ok_getD start (by decide +kernel), by decide +kernel,
    eq_ok_getD start (by decide +kernel), fun h => ?_⟩
  have hne : final.kv.pool.getNumFreeBlocks
      ≠ final.kv.pool.refs.queue.length := by decide +kernel
  exact hne h.numFreeBlocks_eq

end KVState

end KVarN.Core
