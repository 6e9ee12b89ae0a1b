import KVarN.Core.Accounting

/-!
# What a step does to one manager

Every operation on the KV cache goes through the managers of the groups in turn. This
file says what an operation can do to the manager of one group: which of the manager's own
operations it runs, in which order, and that the manager is sound next to the pool it is
given. Invariants of a group's block tables are then proved for the manager's operations
alone.

## Main definitions

* `Released`, `TookComputed`, `Extended` — the phases of `allocate_slots`.
* `ManagerStep` — what an operation does to one manager.

## Main results

* `step_managers` — every step is a `ManagerStep` on every manager.
* `ManagerStep.sameFor` — an operation on one request leaves the others alone.
* `run_invariant` — the rule for invariants of runs whose operations meet a condition.
-/

namespace KVarN.Core


variable {H : Type}

/-! ## One manager of a pass -/

variable {α : Type} {ms : List (Managed H)} {p : BlockPool H} {F : Multiset BlockId} {j : ℕ}
  {g : Group} {m' : Manager H}

/-- The rule for a pass of the coordinator: every manager of the result comes from one call on
the manager it replaces, which is sound next to the pool it is given. -/
theorem KVCacheManager.Balanced.pass {f} {s : KVCacheManager H} {as : List α} (b : s.Balanced F)
    (hf : CallsConserve f 0 s.managers s.pool.numGpuBlocks)
    (h : eachManager f 0 s.managers s.pool = .ok (as, ms, p)) (hj : ms[j]? = some (g, m')) :
    ∃ m a q q' G, s.managers[j]? = some (g, m) ∧ Sound g G m q ∧ f j g m q = .ok (a, m', q') := by
  have hcalls := ((eachManager_sound hf h).2 _ b.allSound).2 j g m' hj
  rwa [Nat.zero_add] at hcalls

/-! ## The phases of a step -/

section Phases

variable [DecidableEq H] (cfg : KVCacheConfig) (req : KVRequest H) (args : AllocArgs) (g : Group)

/-- The manager has run `remove_skipped_blocks`. -/
def Released (r : ReqId) (processed : ℕ) (np : Option ℕ) (m m' : Manager H) : Prop :=
  ∃ G p p', Sound g G m p ∧ g.removeSkippedBlocks m p r processed np = .ok (m', p')

/-- The tokens of a request that are computed and processed. -/
def KVCacheManager.processedTokens : ℕ :=
  KVCacheManager.totalComputedTokens cfg req args - req.numInFlightTokens

/-- Whether `allocate_slots` is given hits or external tokens. -/
def TakesComputed : Prop :=
  (∃ bs ∈ args.newComputedBlocks, bs ≠ []) ∨ 0 < args.numExternalComputedTokens
  deriving Decidable

/-- Whether some manager knows the request already. -/
def Known (s : KVCacheManager H) (r : ReqId) : Prop :=
  ∃ gm ∈ s.managers, r ∈ gm.2.numCachedBlock

/-- The manager has taken the hits and the blocks for external tokens. -/
def TookComputed (nc : List BlockId) (m m' : Manager H) : Prop :=
  ∃ m₁ G p p', Sound g G m p ∧ g.addLocalComputedBlocks m p req.requestId nc
      (KVCacheManager.numLocalComputedTokens req args) args.numExternalComputedTokens =
        .ok (m₁, p') ∧
    ((args.numExternalComputedTokens = 0 ∧ m' = m₁) ∨ ∃ G p p', Sound g G m₁ p ∧
        g.allocateExternalComputedBlocks m₁ p req.requestId
          (KVCacheManager.numLocalComputedTokens req args) args.numExternalComputedTokens =
            .ok (m', p'))

/-- `allocate_slots` grants the slots it is asked for. -/
def KVCacheManager.Grants (s : KVCacheManager H) : Prop :=
  ∃ bs s', s.allocateSlots cfg req args = .ok (some bs, s')

instance (s : KVCacheManager H) : Decidable (KVCacheManager.Grants cfg req args s) :=
  decidable_of_iff
    ((s.allocateSlots cfg req args).toOption.any fun out => out.1.isSome) <| by
      cases h : s.allocateSlots cfg req args with
      | error e => simp [KVCacheManager.Grants, h, Except.toOption]
      | ok out =>
        obtain ⟨_ | bs, s'⟩ := out <;> simp [KVCacheManager.Grants, h, Except.toOption]

/-- The manager has run `allocate_new_blocks`. -/
def Extended (m m' : Manager H) : Prop :=
  ∃ bs G p p', 0 < KVCacheManager.numTokensMainModel cfg req args ∧ Sound g G m p ∧
    g.allocateNewBlocks m p req.requestId
      (if g.spec = .crossAttention then args.numEncoderTokens
        else KVCacheManager.numTokensNeedSlot cfg req args)
      (KVCacheManager.numTokensMainModel cfg req args) = .ok (bs, m', p')

end Phases

/-- The operations that can change what a manager holds of a request. -/
def KVOp.Concerns (r : ReqId) : KVOp H → Prop
  | .allocateSlots req _ | .cacheBlocks req _ => req.requestId = r
  | .removeSkippedBlocks r' _ _ | .free r' | .freeRequestBlocks r' _ => r' = r
  | _ => False

/-- What an operation does to one manager: nothing to its tables, or it drops a request,
releases blocks, or grants slots in the phases of `allocate_slots`. -/
inductive ManagerStep [DecidableEq H] (cfg : KVCacheConfig) (s : KVCacheManager H) (j : ℕ)
    (g : Group) (m m' : Manager H) : KVOp H → Prop
  | same {op : KVOp H} (hop : ∀ r, ¬ op.Concerns r) (h : m.SameTables m')
      (cached : m'.numCachedBlock = m.numCachedBlock) : ManagerStep cfg s j g m m' op
  | cache {req : KVRequest H} {n : ℕ} (h : m.OnlyCached req.requestId m') :
      ManagerStep cfg s j g m m' (.cacheBlocks req n)
  | free {r : ReqId} (h : m' = (g.popBlocksForFree m r).2) : ManagerStep cfg s j g m m' (.free r)
  | freeRequest {r : ReqId} {seq : ℕ} (h : m' = (g.popBlocksForFree m r).2) :
      ManagerStep cfg s j g m m' (.freeRequestBlocks r seq)
  | release {r : ReqId} {n : ℕ} {np : Option ℕ} (h : Released g r n np m m') :
      ManagerStep cfg s j g m m' (.removeSkippedBlocks r n np)
  | decline {req : KVRequest H} {args : AllocArgs} (refused : ¬ s.Grants cfg req args)
      (h : m' = m) : ManagerStep cfg s j g m m' (.allocateSlots req args)
  | refuse {req : KVRequest H} {args : AllocArgs} (refused : ¬ s.Grants cfg req args)
      (h : Released g req.requestId (KVCacheManager.processedTokens cfg req args)
        (some req.numPromptTokens) m m') :
      ManagerStep cfg s j g m m' (.allocateSlots req args)
  | grant {req : KVRequest H} {args : AllocArgs} {m₁ m₂ m₃ : Manager H}
      (granted : s.Grants cfg req args)
      (released : Released g req.requestId (KVCacheManager.processedTokens cfg req args)
        (some req.numPromptTokens) m m₁)
      (computed : m₂ = m₁ ∧ (¬ TakesComputed args ∨ Known s req.requestId) ∨
        TakesComputed args ∧ TookComputed req args g (args.newComputedBlocks.getD j []) m₁ m₂)
      (extended : Extended cfg req args g m₂ m₃) (cached : m₃.OnlyCached req.requestId m') :
      ManagerStep cfg s j g m m' (.allocateSlots req args)

variable {m : Manager H}

/-- The table of a request after `allocate_new_computed_blocks`. -/
theorem TookComputed.table [DecidableEq H] {req : KVRequest H} {args : AllocArgs}
    {nc : List BlockId} (hg : g.spec ≠ .crossAttention)
    (hnc : nc.length ≤ cdiv (KVCacheManager.numLocalComputedTokens req args) g.blockSize)
    (h : TookComputed req args g nc m m') {total : ℕ}
    (htotal : total = KVCacheManager.numLocalComputedTokens req args
      + args.numExternalComputedTokens) : m.blocksOf req.requestId = [] ∧
      ∃ ext, m'.blocksOf req.requestId = List.replicate (g.numSkippedBlocks total) nullBlock ++
            nc.drop (g.numSkippedBlocks total) ++ ext ∧ (∀ b ∈ ext, b ≠ nullBlock) ∧
        (ext ≠ [] → (m'.blocksOf req.requestId).length = cdiv total g.blockSize) ∧
        m'.lastStateBlockIdx = m.lastStateBlockIdx ∧
        m'.allocatedBlockReqs = m.allocatedBlockReqs := by
  subst htotal
  obtain ⟨m₁, G, p, p', hG, hlocal, hext⟩ := h
  have hbase : g.addLocalBase m p req.requestId nc (KVCacheManager.numLocalComputedTokens req args)
      args.numExternalComputedTokens = .ok (m₁, p') := by
    simpa only [Group.addLocalComputedBlocks] using hlocal
  obtain ⟨hnil, htable, hlast, hallocated⟩ := Group.addLocalBase_table hbase
  refine ⟨hnil, ?_⟩
  obtain ⟨-, rfl⟩ | ⟨G', q, q', hG', hcall⟩ := hext
  · exact ⟨[], by rw [htable, List.append_nil], by simp, by simp, hlast, hallocated⟩
  · obtain ⟨ext, hgrown, hlen⟩ := Group.allocateExternalComputedBlocks_table hg hG'.accounts
      (fun hpos => KVCacheManager.length_of_addLocal hg hpos
        (hnc.trans (Nat.div_le_div_right (by omega))) hlocal) hcall
    exact ⟨ext, by rw [hgrown.blocksOf, htable], hgrown.ne_null, hlen,
      hgrown.lastStateBlockIdx.trans hlast, hgrown.allocatedBlockReqs.trans hallocated⟩

/-! ## Every step is one -/

/-- An operation on another request changes nothing for this one. -/
theorem ManagerStep.sameFor [DecidableEq H] {cfg : KVCacheConfig} {s : KVCacheManager H}
    {op : KVOp H} {r : ReqId}
    (h : ManagerStep cfg s j g m m' op) (hr : ¬ op.Concerns r) : m.SameFor r m' := by
  have hreleased : ∀ {r' n np} {m m' : Manager H}, r ≠ r' → Released g r' n np m m' →
      m.SameFor r m' := by
    rintro r' n np m m' hne ⟨_, _, _, _, hcall⟩
    exact (Group.removeSkippedBlocks_released hcall).1.sameFor hne
  cases h with
  | same hop h cached => exact h.sameFor (by rw [cached])
  | cache h => exact h.sameTables.sameFor (h.others r (Ne.symm hr))
  | free h => exact h ▸ Group.popBlocksForFree_sameFor (Ne.symm hr)
  | freeRequest h => exact h ▸ Group.popBlocksForFree_sameFor (Ne.symm hr)
  | release h => exact hreleased (Ne.symm hr) h
  | decline refused h => exact h ▸ .refl r m
  | refuse refused h => exact hreleased (Ne.symm hr) h
  | @grant req args m₁ m₂ m₃ granted released computed extended cached =>
    have hcomputed : m₁.SameFor r m₂ := by
      obtain ⟨rfl, -⟩ | ⟨-, m₀, _, _, _, -, hlocal, hext⟩ := computed
      · exact .refl r m₂
      · refine (Group.addLocalComputedBlocks_sameFor (Ne.symm hr) hlocal).trans ?_
        obtain ⟨-, rfl⟩ | ⟨_, _, _, -, hcall⟩ := hext
        · exact .refl r m₂
        · exact Group.allocateExternalComputedBlocks_sameFor (Ne.symm hr) hcall
    have hextended : m₂.SameFor r m₃ := by
      obtain ⟨_, _, _, _, hpos, -, hcall⟩ := extended
      exact (Group.allocateNewBlocks_serves hpos hcall).others r (Ne.symm hr)
    exact (((hreleased (Ne.symm hr) released).trans hcomputed).trans hextended).trans
      (cached.sameTables.sameFor (cached.others r (Ne.symm hr)))

namespace KVCacheManager

variable {s s' : KVCacheManager H}

theorem removeSkippedBlocks_managers {r : ReqId} {n : ℕ} {np : Option ℕ} (b : s.Balanced F)
    (h : s.removeSkippedBlocks r n np = .ok s') (hj : s'.managers[j]? = some (g, m')) :
    ∃ m, s.managers[j]? = some (g, m) ∧ Released g r n np m m' := by
  obtain ⟨⟨_, ms, p⟩, hpass, hok⟩ := bind_eq_ok.1 h
  cases hok
  obtain ⟨m, _, q, q', G, hm, hG, hcall⟩ := b.pass (fun j g m _ q _ a m' q' hq' =>
    (Group.removeSkippedBlocks_released (noOutput_eq_ok.1 hq')).2) hpass hj
  exact ⟨m, hm, G, q, q', hG, noOutput_eq_ok.1 hcall⟩

/-- Releasing blocks does not change which requests are known. -/
theorem removeSkippedBlocks_known {r r' : ReqId} {n : ℕ} {np : Option ℕ}
    (h : s.removeSkippedBlocks r n np = .ok s') (hknown : Known s' r') : Known s r' := by
  obtain ⟨⟨_, ms, p⟩, hpass, hok⟩ := bind_eq_ok.1 h
  cases hok
  obtain ⟨⟨g, m'⟩, hmem, hr'⟩ := hknown
  obtain ⟨i, hi⟩ := List.mem_iff_getElem?.1 hmem
  obtain ⟨m, _, q, q', hm, hcall⟩ := eachManager_getElem? hpass hi
  refine ⟨(g, m), List.mem_of_getElem? hm, ?_⟩
  have honly := (Group.removeSkippedBlocks_released (noOutput_eq_ok.1 hcall)).1
  rw [← honly.numCachedBlock]
  exact hr'

variable [DecidableEq H] {cfg : KVCacheConfig} {req : KVRequest H} {args : AllocArgs}

theorem takeComputedBlocks_managers (b : s.Balanced F)
    (hv : ValidHits s args.newComputedBlocks (numLocalComputedTokens req args)
      args.numExternalComputedTokens)
    (h : s.takeComputedBlocks req args = .ok s') (hj : s'.managers[j]? = some (g, m')) :
    ∃ m, s.managers[j]? = some (g, m) ∧ (m' = m ∧ (¬ TakesComputed args ∨ Known s req.requestId) ∨
        TakesComputed args ∧ TookComputed req args g (args.newComputedBlocks.getD j []) m m') := by
  rw [takeComputedBlocks] at h
  split at h
  next htakes =>
    rw [allocateNewComputedBlocks] at h
    split at h
    next hknown =>
      obtain ⟨-, -, hok⟩ := bind_eq_ok.1 h
      cases hok
      exact ⟨m', hj, Or.inl ⟨rfl, Or.inr hknown⟩⟩
    next =>
      simp only [addLocalComputedBlocks, bind_eq_ok] at h
      obtain ⟨s₁, ⟨⟨_, ms, p⟩, hlocal, hok⟩, hext⟩ := h
      cases hok
      rw [allocateExternalComputedBlocks] at hext
      split at hext
      next =>
        obtain ⟨⟨_, ms', p'⟩, hpass, hok⟩ := bind_eq_ok.1 hext
        cases hok
        have hmid := (keeps_eachManager (addLocal_conserve hv) hlocal).2 F b
        obtain ⟨m₁, _, q₁, q₁', G₁, hm₁, hG₁, hcall₁⟩ :=
          hmid.pass (allocateExternal_conserve hv hlocal) hpass hj
        obtain ⟨m, _, q, q', G, hm, hG, hcall⟩ := b.pass (addLocal_conserve hv) hlocal hm₁
        exact ⟨m, hm, Or.inr ⟨htakes, m₁, G, q, q', hG, noOutput_eq_ok.1 hcall,
          Or.inr ⟨G₁, q₁, q₁', hG₁, noOutput_eq_ok.1 hcall₁⟩⟩⟩
      next hnone =>
        cases hext
        obtain ⟨m, _, q, q', G, hm, hG, hcall⟩ := b.pass (addLocal_conserve hv) hlocal hj
        exact ⟨m, hm, Or.inr ⟨htakes, m', G, q, q', hG, noOutput_eq_ok.1 hcall,
          Or.inl ⟨by omega, rfl⟩⟩⟩
  next htakes =>
    cases h
    exact ⟨m', hj, Or.inl ⟨rfl, Or.inl htakes⟩⟩

theorem takeComputedBlocks_keeps (hv : ValidHits s args.newComputedBlocks
      (numLocalComputedTokens req args) args.numExternalComputedTokens)
    (h : s.takeComputedBlocks req args = .ok s') : Keeps s s' := by
  rw [takeComputedBlocks] at h
  split at h
  · exact allocateNewComputedBlocks_keeps hv h
  · cases h
    exact .refl s

theorem allocateNewBlocks_managers {bs : List (List BlockId)} (b : s.Balanced F)
    (hpos : 0 < numTokensMainModel cfg req args)
    (h : s.allocateNewBlocks req.requestId (numTokensNeedSlot cfg req args)
      (numTokensMainModel cfg req args) args.numEncoderTokens = .ok (bs, s'))
    (hj : s'.managers[j]? = some (g, m')) :
    ∃ m, s.managers[j]? = some (g, m) ∧ Extended cfg req args g m m' := by
  obtain ⟨⟨_, ms, p⟩, hpass, hok⟩ := bind_eq_ok.1 h
  cases hok
  obtain ⟨m, bs, q, q', G, hm, hG, hcall⟩ := b.pass (fun j g m _ q _ a m' q' hq' =>
    (Group.allocateNewBlocks_serves hpos hq').conserves) hpass hj
  exact ⟨m, hm, bs, G, q, q', hpos, hG, hcall⟩

theorem coordinatorCacheBlocks_managers {n : ℕ} (h : s.coordinatorCacheBlocks cfg req n = .ok s')
    (hj : s'.managers[j]? = some (g, m')) :
    ∃ m, s.managers[j]? = some (g, m) ∧ m.OnlyCached req.requestId m' := by
  obtain ⟨⟨_, ms, p⟩, hpass, hok⟩ := bind_eq_ok.1 h
  cases hok
  obtain ⟨m, _, q, q', hm, hcall⟩ := eachManager_getElem? hpass hj
  exact ⟨m, hm, (Group.cacheBlocks_cached (noOutput_eq_ok.1 hcall)).1⟩

theorem cacheScheduled_managers (h : s.cacheScheduled cfg req args = .ok s')
    (hj : s'.managers[j]? = some (g, m')) :
    ∃ m, s.managers[j]? = some (g, m) ∧ m.OnlyCached req.requestId m' := by
  rw [cacheScheduled] at h
  split at h
  · cases h
    exact ⟨m', hj, .refl _ m'⟩
  · exact coordinatorCacheBlocks_managers h hj

/-- What `allocate_slots` does to one manager. -/
theorem allocateSlots_managers {out : Option (List (List BlockId))} (hc : 0 < cfg.maxModelLen)
    (b : s.Balanced F) (hv : ValidHits s args.newComputedBlocks (numLocalComputedTokens req args)
      args.numExternalComputedTokens)
    (h : s.allocateSlots cfg req args = .ok (out, s')) (hj : s'.managers[j]? = some (g, m')) :
    ∃ m, s.managers[j]? = some (g, m) ∧ ManagerStep cfg s j g m m' (.allocateSlots req args) := by
  have hcall := h
  have hrefused : out = none → ¬ s.Grants cfg req args := by
    rintro rfl ⟨bs, s'', hgrant⟩
    rw [hcall] at hgrant
    cases hgrant
  simp only [allocateSlots] at h
  split at h
  · cases h
  next hnz =>
    obtain ⟨fits, -, h⟩ := bind_eq_ok.1 h
    split at h
    · cases h
      exact ⟨m', hj, .decline (hrefused rfl) rfl⟩
    simp only [bind_eq_ok] at h
    obtain ⟨s₁, hskip, n, -, h⟩ := h
    have hkeeps := removeSkippedBlocks_keeps hskip
    have hb₁ : s₁.Balanced F := hkeeps.2 F b
    split at h
    · cases h
      obtain ⟨m, hm, hreleased⟩ := removeSkippedBlocks_managers b hskip hj
      exact ⟨m, hm, .refuse (hrefused rfl) hreleased⟩
    simp only [commitSlots, bind_eq_ok] at h
    obtain ⟨⟨bs, s₅⟩, ⟨s₂, hcomp, ⟨bs', s₃⟩, hnew, s₄, hcache, hok⟩, hok'⟩ := h
    cases hok
    cases hok'
    have hv₁ := hv.congr hkeeps.1 fun j g m' hj => removeSkippedBlocks_groups hskip hj
    have hb₂ : s₂.Balanced F := (takeComputedBlocks_keeps hv₁ hcomp).2 F hb₁
    -- the phases, last to first
    obtain ⟨m₃, hm₃, hcached⟩ := cacheScheduled_managers hcache hj
    obtain ⟨m₂, hm₂, hextended⟩ :=
      allocateNewBlocks_managers hb₂ (numTokensMainModel_pos hc hnz) hnew hm₃
    obtain ⟨m₁, hm₁, hcomputed⟩ := takeComputedBlocks_managers hb₁ hv₁ hcomp hm₂
    obtain ⟨m, hm, hreleased⟩ := removeSkippedBlocks_managers b hskip hm₁
    refine ⟨m, hm, .grant ⟨bs', _, hcall⟩ hreleased ?_ hextended hcached⟩
    refine hcomputed.imp_left fun hnone => ⟨hnone.1, ?_⟩
    exact hnone.2.imp_right (removeSkippedBlocks_known hskip)

section

omit [DecidableEq H]

theorem free_managers {r : ReqId} (h : s.free r = .ok s') (hj : s'.managers[j]? = some (g, m')) :
    ∃ m, s.managers[j]? = some (g, m) ∧ m' = (g.popBlocksForFree m r).2 := by
  obtain ⟨⟨_, ms, p⟩, hpass, hok⟩ := bind_eq_ok.1 h
  cases hok
  obtain ⟨m, _, q, q', hm, hcall⟩ := eachManager_getElem? hpass hj
  refine ⟨m, hm, ?_⟩
  have hout := congrArg (fun x => x.2.1) (Except.ok.inj hcall)
  exact hout.symm

theorem popBlocksForFree_managers {r : ReqId}
    (hj : (s.popBlocksForFree r).2.managers[j]? = some (g, m')) :
    ∃ m, s.managers[j]? = some (g, m) ∧ m' = (g.popBlocksForFree m r).2 := by
  simp only [popBlocksForFree, List.getElem?_zip_eq_some, List.getElem?_map,
    Option.map_eq_some_iff] at hj
  obtain ⟨⟨⟨g', m⟩, hm, rfl⟩, x, ⟨⟨g'', m''⟩, hm'', rfl⟩, rfl⟩ := hj
  rw [hm] at hm''
  cases hm''
  exact ⟨m, hm, rfl⟩

/-- A pass that rewrites each manager without touching its tables. -/
theorem map_managers {f : Managed H → Manager H}
    (hf : ∀ gm : Managed H, gm.2.SameTables (f gm) ∧ (f gm).numCachedBlock = gm.2.numCachedBlock)
    (hj : (s.managers.map fun gm => (gm.1, f gm))[j]? = some (g, m')) :
    ∃ m, s.managers[j]? = some (g, m) ∧ m.SameTables m' ∧ m'.numCachedBlock = m.numCachedBlock := by
  simp only [List.getElem?_map, Option.map_eq_some_iff] at hj
  obtain ⟨⟨g', m⟩, hm, heq⟩ := hj
  cases heq
  exact ⟨m, hm, hf (g', m)⟩

theorem pinOffloads_managers {es : List (ReqId × ℕ × BlockId × ℕ)}
    (h : pinOffloads es s = .ok s') : s'.managers = s.managers := by
  induction es generalizing s with
  | nil =>
    cases h
    rfl
  | cons e es ih =>
    obtain ⟨p, -, h⟩ := bind_eq_ok.1 h
    have hrest := ih h
    exact hrest

end

end KVCacheManager

open KVCacheManager

namespace KVState

variable [DecidableEq H] {cfg : KVCacheConfig} {s s' : KVState H}

/-- **Every operation** is a step of each manager. -/
theorem step_managers (hc : 0 < cfg.maxModelLen)
    {op : KVOp H} (b : s.Balanced) (hv : s.OpValid op) (h : s.step cfg op = .ok s')
    (hj : s'.kv.managers[j]? = some (g, m')) :
    ∃ m, s.kv.managers[j]? = some (g, m) ∧ ManagerStep cfg s.kv j g m m' op := by
  -- most operations change no table
  have hsame : (∀ r, ¬ op.Concerns r) → (∃ m, s.kv.managers[j]? = some (g, m) ∧
        m.SameTables m' ∧ m'.numCachedBlock = m.numCachedBlock) →
      ∃ m, s.kv.managers[j]? = some (g, m) ∧ ManagerStep cfg s.kv j g m m' op :=
    fun hop ⟨m, hm, htables, hcached⟩ => ⟨m, hm, .same hop htables hcached⟩
  cases op with
  | allocateSlots req args =>
    obtain ⟨⟨out, kv⟩, hkv, hok⟩ := bind_eq_ok.1 h
    cases hok
    exact allocateSlots_managers hc b hv hkv hj
  | cacheBlocks req n =>
    simp only [step, bind_eq_ok, cacheBlocks] at h
    obtain ⟨kv, hkv, hok⟩ := h
    cases hok
    split at hkv
    · obtain ⟨m, hm, hcached⟩ := coordinatorCacheBlocks_managers hkv hj
      exact ⟨m, hm, .cache hcached⟩
    · cases hkv
      exact ⟨m', hj, .cache (.refl _ m')⟩
  | removeSkippedBlocks r n np =>
    obtain ⟨kv, hkv, hok⟩ := bind_eq_ok.1 h
    cases hok
    obtain ⟨m, hm, hreleased⟩ := removeSkippedBlocks_managers b hkv hj
    exact ⟨m, hm, .release hreleased⟩
  | free r =>
    obtain ⟨kv, hkv, hok⟩ := bind_eq_ok.1 h
    cases hok
    obtain ⟨m, hm, hpop⟩ := free_managers hkv hj
    exact ⟨m, hm, .free hpop⟩
  | freeRequestBlocks r seq =>
    simp only [step, freeRequestBlocks] at h
    split at h
    · obtain ⟨kv, hkv, hok⟩ := bind_eq_ok.1 h
      cases hok
      obtain ⟨m, hm, hpop⟩ := free_managers hkv hj
      exact ⟨m, hm, .freeRequest hpop⟩
    · cases h
      obtain ⟨m, hm, hpop⟩ := popBlocksForFree_managers hj
      exact ⟨m, hm, .freeRequest hpop⟩
  | takeKvCacheBlockCopies =>
    cases h
    refine hsame (fun _ => id) (map_managers (s := s.kv)
      (f := fun gm => { gm.2 with pendingCowCopies := [] }) (fun _ => ⟨⟨rfl, rfl, rfl⟩, rfl⟩) ?_)
    simp only [takeCopies, freeCowRetainedBlocks] at hj
    split at hj
    · exact hj
    · split at hj <;> exact hj
  | takePartialTailOffloads =>
    simp only [step, bind_eq_ok, takePartialTailOffloads] at h
    obtain ⟨⟨es, kv⟩, ⟨kv', hpins, hok'⟩, hok⟩ := h
    cases hok'
    cases hok
    refine hsame (fun _ => id) (map_managers (s := s.kv)
      (f := fun gm => { gm.2 with pendingPartialTailOffloads := [] })
      (fun _ => ⟨⟨rfl, rfl, rfl⟩, rfl⟩) ?_)
    rw [pinOffloads_managers hpins] at hj
    exact hj
  | takeNewBlockIds =>
    cases h
    exact hsame (fun _ => id) (map_managers
      (f := fun gm => { gm.2 with newBlockIds := [] }) (fun _ => ⟨⟨rfl, rfl, rfl⟩, rfl⟩) hj)
  | recordBlocksForZeroing r t =>
    simp only [step, recordBlocksForZeroing, bind_eq_ok] at h
    obtain ⟨kv, ⟨-, -, hok'⟩, hok⟩ := h
    cases hok'
    cases hok
    refine hsame (fun _ => id) (map_managers (fun gm => ?_) hj)
    split
    · exact ⟨⟨rfl, rfl, rfl⟩, rfl⟩
    · exact ⟨.refl gm.2, rfl⟩
  | evictBlocks ids =>
    simp only [step, KVCacheManager.evictBlocks, bind_eq_ok] at h
    obtain ⟨kv, ⟨p, -, hok'⟩, hok⟩ := h
    cases hok'
    cases hok
    exact hsame (fun _ => id) ⟨m', hj, .refl m', rfl⟩
  | resetPrefixCache =>
    cases h
    exact hsame (fun _ => id) ⟨m', hj, .refl m', rfl⟩
  | newStepStarts =>
    cases h
    exact hsame (fun _ => id) (map_managers
      (f := fun gm => { gm.2 with cachedBlocksThisStep := [] })
      (fun _ => ⟨⟨rfl, rfl, rfl⟩, rfl⟩) hj)
  | stepScheduled =>
    cases h
    refine hsame (fun _ => id) ⟨m', ?_, .refl m', rfl⟩
    rw [stepScheduled] at hj
    split at hj <;> exact hj
  | stepProcessed =>
    cases h
    refine hsame (fun _ => id) ⟨m', ?_, .refl m', rfl⟩
    rw [stepProcessed] at hj
    split at hj <;> exact hj

/-- The hits that `allocate_slots` is given for a group are blocks of the local computed
tokens. -/
def HitsWithin (j : ℕ) (s : KVState H) : KVOp H → Prop
  | .allocateSlots req args => ∀ gm ∈ s.kv.managers[j]?, (args.newComputedBlocks.getD j []).length ≤
        cdiv (numLocalComputedTokens req args) gm.1.blockSize
  | _ => True

instance (j : ℕ) (s : KVState H) (op : KVOp H) : Decidable (s.HitsWithin j op) := by
  induction op using KVOp.casesOn with
  | allocateSlots _ _ => exact inferInstanceAs (Decidable (∀ gm ∈ s.kv.managers[j]?, _))
  | _ => exact isTrue trivial

/-- Every operation of a run meets a condition where it is issued; `next` is what is
remembered of the operations before. -/
def RunTracks {σ : Type} (cfg : KVCacheConfig) (next : σ → KVState H → KVOp H → σ)
    (C : σ → KVState H → KVOp H → Prop) : σ → List (KVOp H) → KVState H → Prop
  | _, [], _ => True
  | t, op :: ops, s =>
    C t s op ∧ ∀ s', s.step cfg op = .ok s' → RunTracks cfg next C (next t s op) ops s'

instance decidableRunTracks {σ : Type} (cfg : KVCacheConfig)
    (next : σ → KVState H → KVOp H → σ) (C : σ → KVState H → KVOp H → Prop)
    [∀ t s op, Decidable (C t s op)] :
    (t : σ) → (ops : List (KVOp H)) → (s : KVState H) → Decidable (RunTracks cfg next C t ops s)
  | _, [], _ => isTrue trivial
  | t, op :: ops, s =>
    let _ := decidableRunTracks cfg next C (next t s op) ops
    inferInstanceAs (Decidable (_ ∧ ∀ s', s.step cfg op = .ok s' → _))

/-- **The rule for invariants of runs** whose operations meet a condition. -/
theorem run_invariant {σ : Type} {next : σ → KVState H → KVOp H → σ}
    {C : σ → KVState H → KVOp H → Prop} {I : σ → KVState H → Prop}
    (hstep : ∀ t s op s', I t s → C t s op → s.step cfg op = .ok s' → I (next t s op) s')
    {t : σ} {ops : List (KVOp H)} (hi : I t s)
    (htracks : RunTracks cfg next C t ops s) (hrun : run cfg ops s = .ok s') : ∃ t', I t' s' := by
  induction ops generalizing t s with
  | nil =>
    cases hrun
    exact ⟨t, hi⟩
  | cons op ops ih =>
    obtain ⟨s₁, hs₁, hrun⟩ := bind_eq_ok.1 hrun
    exact ih (hstep t s op s₁ hi htracks.1 hs₁) (htracks.2 s₁ hs₁) hrun

/-- Every operation of a run meets a condition where it is issued. -/
def RunMeets (cfg : KVCacheConfig) (C : KVState H → KVOp H → Prop) (ops : List (KVOp H))
    (s : KVState H) : Prop :=
  RunTracks cfg (fun _ _ _ => ()) (fun _ => C) () ops s

instance (cfg : KVCacheConfig) (C : KVState H → KVOp H → Prop) [∀ s op, Decidable (C s op)]
    (ops : List (KVOp H)) (s : KVState H) : Decidable (RunMeets cfg C ops s) :=
  decidableRunTracks cfg (fun _ _ _ => ()) (fun _ => C) () ops s

end KVState

end KVarN.Core
