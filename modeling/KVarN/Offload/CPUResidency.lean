import KVarN.Offload.CPUManager

/-!
# Residency in the CPU offload tier

Which blocks are resident, which slots they have, and who is reading or writing them. The
transfers that were prepared and not completed are kept next to the manager: a block is
written exactly while a store of its key is outstanding, and its reference count is otherwise
the number of outstanding loads. From this follow the counters, the partition of the slots
and that no block with an outstanding transfer is evicted, for every lawful policy.

## Main definitions

* `Transfers` — the outstanding loads and stores.
* `CPUOffloadingManager.Valid` — the invariant.
* `CPUOffloadingManager.Meets` — what the calls of the interface assume.

## Main results

* `CPUOffloadingManager.Valid.prepareStore` — eviction, allocation and insertion.
* `CPUOffloadingManager.track_valid` — the invariant holds after every sequence of calls.
* `residency_invariant` — what it says about the slots, the counters and evictions.
-/

namespace KVarN.Offload

open KVarN.Lib LawfulCachePolicy BlockStatus Multiset
open KVarN.Core (Fault orRaise assert)

/-- The keys of outstanding loads and stores. -/
structure Transfers (K : Type) where
  loads : Multiset K
  stores : Multiset K

variable {K σ : Type} [DecidableEq K] [CachePolicy K σ] [LawfulCachePolicy K σ]

/-- The reference count of a block is that of the outstanding transfers. -/
def Transfers.Explains (t : Transfers K) (e : K × BlockStatus) : Prop :=
  e.2.refCnt = -1 ∧ e.1 ∈ t.stores ∧ e.1 ∉ t.loads ∨ e.2.refCnt = t.loads.count e.1 ∧ e.1 ∉ t.stores

/-! ## Exchanging one entry -/

section Exchange

variable {s s' : Multiset (K × BlockStatus)} {k : K} {b b' : BlockStatus}

section

variable (h : (k, b) ::ₘ s' = (k, b') ::ₘ s)

omit [DecidableEq K]

include h

theorem mem_of_exchange {e : K × BlockStatus} (hne : e.1 ≠ k) : e ∈ s' ↔ e ∈ s := by
  have hb : e ≠ (k, b) := fun he => hne (congrArg Prod.fst he)
  have hb' : e ≠ (k, b') := fun he => hne (congrArg Prod.fst he)
  have hmem : e ∈ (k, b) ::ₘ s' ↔ e ∈ (k, b') ::ₘ s := by rw [h]
  simpa [hb, hb'] using hmem

theorem mem_self_of_exchange (hb : (k, b) ∈ s) : (k, b') ∈ s' := by
  have hmem : (k, b') ∈ (k, b) ::ₘ s' := by rw [h]; exact mem_cons_self _ _
  rcases mem_cons.1 hmem with he | hmem
  · rw [← he] at h hb
    rw [(cons_inj_right _).1 h]
    exact hb
  · exact hmem

theorem exists_mem_of_exchange (hb : (k, b) ∈ s) (k' : K) :
    (∃ c, (k', c) ∈ s') ↔ ∃ c, (k', c) ∈ s := by
  by_cases hk : k' = k
  · subst hk
    exact ⟨fun _ => ⟨b, hb⟩, fun _ => ⟨b', mem_self_of_exchange h hb⟩⟩
  · exact exists_congr fun c => mem_of_exchange (e := (k', c)) h hk

end

end Exchange

namespace CPUOffloadingManager


/-- The resident keys with their blocks. -/
def resident (m : CPUOffloadingManager K σ) : Multiset (K × BlockStatus) := held m.policy

/-- The parameters of a manager, which no call changes. -/
def config (m : CPUOffloadingManager K σ) : ℕ × ℕ × ℕ × Bool :=
  (m.numBlocks, m.storeThreshold, m.maxTrackerSize, m.counts.isSome)

/-- The invariant of the manager, next to the outstanding transfers. -/
structure Valid (t : Transfers K) (m : CPUOffloadingManager K σ) : Prop where
  consistent : Consistent (K := K) m.policy
  allocated_le : m.numAllocatedBlocks ≤ m.numBlocks
  slots : m.resident.map (fun e => e.2.blockId) + ↑m.freeList = ↑(List.range m.numAllocatedBlocks)
  evictable : m.numEvictableCacheBlocks = m.resident.countP fun e => e.2.refCnt = 0
  writePending : m.numWritePendingBlocks = m.resident.countP fun e => e.2.refCnt = -1
  explained : ∀ e ∈ m.resident, t.Explains e
  held : ∀ k, k ∈ t.loads ∨ k ∈ t.stores → ∃ b, (k, b) ∈ m.resident
  nodup : t.stores.Nodup
  bounded : ∀ k, t.loads.count k < 2 ^ 31

variable {t t' : Transfers K} {m m' : CPUOffloadingManager K σ} {k : K} {b b' : BlockStatus}

theorem Valid.get_eq_some_iff (h : m.Valid t) : m.get k = some b ↔ (k, b) ∈ m.resident :=
  LawfulCachePolicy.get_eq_some_iff h.consistent

theorem Valid.get_eq_none_iff (h : m.Valid t) : m.get k = none ↔ ∀ b, (k, b) ∉ m.resident := by
  rw [Option.eq_none_iff_forall_ne_some]
  exact forall_congr' fun b => not_congr h.get_eq_some_iff

theorem valid_of_empty (hcons : Consistent (K := K) m.policy) (hres : m.resident = 0)
    (hallocated : m.numAllocatedBlocks = 0) (hfree : m.freeList = [])
    (hev : m.numEvictableCacheBlocks = 0) (hpend : m.numWritePendingBlocks = 0) :
    m.Valid ⟨0, 0⟩ := by
  refine ⟨hcons, by omega, ?_, ?_, ?_, ?_, by simp, nodup_zero, by simp⟩ <;> rw [hres]
  · rw [hallocated, hfree]
    rfl
  · exact hev
  · exact hpend
  · simp

theorem valid_init (n : ℕ) (events : Bool) (threshold size : ℕ) :
    (init n events threshold size : CPUOffloadingManager K σ).Valid ⟨0, 0⟩ :=
  valid_of_empty (init_consistent n) (held_init n) rfl rfl rfl rfl

/-- The fields that a change of reference counts leaves alone. -/
structure SameSlots (m m' : CPUOffloadingManager K σ) : Prop where
  numBlocks : m'.numBlocks = m.numBlocks
  numAllocatedBlocks : m'.numAllocatedBlocks = m.numAllocatedBlocks
  freeList : m'.freeList = m.freeList

/-- **Some blocks make way for others**, and the transfers of their keys change with them. -/
theorem Valid.replace (h : m.Valid t) (out new : Multiset (K × BlockStatus)) (P : K → Prop)
    (hcons : Consistent (K := K) m'.policy) (hle : m'.numAllocatedBlocks ≤ m'.numBlocks)
    (hheld : out + m'.resident = new + m.resident)
    (hslots : new.map (fun e => e.2.blockId) + ↑m'.freeList + ↑(List.range m.numAllocatedBlocks) =
      out.map (fun e => e.2.blockId) + ↑m.freeList + ↑(List.range m'.numAllocatedBlocks))
    (hev : m'.numEvictableCacheBlocks + out.countP (fun e => e.2.refCnt = 0) =
      m.numEvictableCacheBlocks + new.countP fun e => e.2.refCnt = 0)
    (hpend : m'.numWritePendingBlocks + out.countP (fun e => e.2.refCnt = -1) =
      m.numWritePendingBlocks + new.countP fun e => e.2.refCnt = -1)
    (hout : ∀ e ∈ out, P e.1) (hnew : ∀ e ∈ new, P e.1)
    (hother : ∀ k, ¬ P k → t'.loads.count k = t.loads.count k ∧ (k ∈ t'.stores ↔ k ∈ t.stores))
    (hexplained : ∀ e ∈ m'.resident, P e.1 → t'.Explains e)
    (hbusy : ∀ k, P k → k ∈ t'.loads ∨ k ∈ t'.stores → ∃ b, (k, b) ∈ m'.resident)
    (hnodup : t'.stores.Nodup) (hbounded : ∀ k, P k → t'.loads.count k < 2 ^ 31) : m'.Valid t' := by
  have hloads : ∀ k, ¬ P k → (k ∈ t'.loads ↔ k ∈ t.loads) := fun k hk => by
    rw [← count_pos, ← count_pos, (hother k hk).1]
  have hkept : ∀ e : K × BlockStatus, ¬ P e.1 → (e ∈ m'.resident ↔ e ∈ m.resident) := by
    intro e hk
    have hmem : e ∈ out + m'.resident ↔ e ∈ new + m.resident := by rw [hheld]
    rwa [mem_add, mem_add, or_iff_right fun he => hk (hout e he),
      or_iff_right fun he => hk (hnew e he)] at hmem
  have hcount : ∀ (p : K × BlockStatus → Prop) [DecidablePred p],
      out.countP p + m'.resident.countP p = new.countP p + m.resident.countP p := fun p _ => by
    rw [← countP_add, hheld, countP_add]
  refine ⟨hcons, hle, ?_, ?_, ?_, fun e he => ?_, fun k hk => ?_, hnodup, fun k => ?_⟩
  · have hmap := congrArg (Multiset.map fun e => e.2.blockId) hheld
    rw [map_add, map_add] at hmap
    refine add_right_cancel (b := out.map (fun e => e.2.blockId) +
      ↑(List.range m.numAllocatedBlocks)) ?_
    calc _ = out.map (fun e => e.2.blockId) + m'.resident.map (fun e => e.2.blockId) +
          (↑m'.freeList + ↑(List.range m.numAllocatedBlocks)) := by abel
      _ = m.resident.map (fun e => e.2.blockId) + (new.map (fun e => e.2.blockId) +
          ↑m'.freeList + ↑(List.range m.numAllocatedBlocks)) := by rw [hmap]; abel
      _ = _ := by rw [hslots, ← h.slots]; abel
  · have := hcount fun e => e.2.refCnt = 0
    have := h.evictable
    omega
  · have := hcount fun e => e.2.refCnt = -1
    have := h.writePending
    omega
  · by_cases hk : P e.1
    · exact hexplained e he hk
    · have hold := h.explained e ((hkept e hk).1 he)
      rw [Transfers.Explains] at hold ⊢
      rwa [(hother e.1 hk).1, (hother e.1 hk).2, hloads e.1 hk]
  · by_cases hP : P k
    · exact hbusy k hP hk
    · rw [hloads k hP, (hother k hP).2] at hk
      obtain ⟨b, hb⟩ := h.held k hk
      exact ⟨b, (hkept (k, b) hP).2 hb⟩
  · by_cases hP : P k
    · exact hbounded k hP
    · rw [(hother k hP).1]
      exact h.bounded k

/-- **One block changes its reference count**: the counters follow, and the transfers of other
keys are as before. -/
theorem Valid.exchange (h : m.Valid t) (hb : m.get k = some b) (hsame : SameSlots m m')
    (hcons : Consistent (K := K) m'.policy)
    (hheld : (k, b) ::ₘ m'.resident = (k, b') ::ₘ m.resident) (hid : b'.blockId = b.blockId)
    (hev : m'.numEvictableCacheBlocks + (if b.refCnt = 0 then 1 else 0) =
      m.numEvictableCacheBlocks + if b'.refCnt = 0 then 1 else 0)
    (hpend : m'.numWritePendingBlocks + (if b.refCnt = -1 then 1 else 0) =
      m.numWritePendingBlocks + if b'.refCnt = -1 then 1 else 0)
    (hother : ∀ k' ≠ k, t'.loads.count k' = t.loads.count k' ∧ (k' ∈ t'.stores ↔ k' ∈ t.stores))
    (hnew : t'.Explains (k, b')) (hnodup : t'.stores.Nodup)
    (hbounded : t'.loads.count k < 2 ^ 31) : m'.Valid t' := by
  have hmem := mem_self_of_exchange hheld (h.get_eq_some_iff.1 hb)
  refine h.replace {(k, b)} {(k, b')} (· = k) hcons ?_ hheld ?_
    (by simpa [← cons_zero, countP_cons] using hev)
    (by simpa [← cons_zero, countP_cons] using hpend)
    (by simp) (by simp) hother ?_ (fun k' hk' _ => ⟨b', hk' ▸ hmem⟩) hnodup
    (fun k' hk' => hk' ▸ hbounded)
  · rw [hsame.numAllocatedBlocks, hsame.numBlocks]
    exact h.allocated_le
  · rw [map_singleton, map_singleton, hid, hsame.freeList, hsame.numAllocatedBlocks]
  · rintro ⟨k', c⟩ he rfl
    have hget := (LawfulCachePolicy.get_eq_some_iff hcons).2 he
    rw [(LawfulCachePolicy.get_eq_some_iff hcons).2 hmem] at hget
    cases hget
    exact hnew

/-- A ready block has as many references as loads. -/
theorem Valid.refCnt_of_ready (h : m.Valid t) (hb : m.get k = some b) (hready : b.IsReady) :
    b.refCnt = t.loads.count k ∧ k ∉ t.stores := by
  rcases h.explained _ (h.get_eq_some_iff.1 hb) with ⟨hneg, -⟩ | hcount
  · rw [BlockStatus.IsReady, hneg] at hready
    exact absurd hready (by decide)
  · exact hcount

/-- The block of a key is there and ready. -/
def Ready (m : CPUOffloadingManager K σ) (k : K) : Prop := ∃ b ∈ m.get k, b.IsReady

omit [DecidableEq K] [LawfulCachePolicy K σ] in
theorem ready_iff_lookupResult : m.Ready k ↔ m.lookupResult k = .hit := by
  rw [Ready, lookupResult]
  cases m.get k with
  | none => simp
  | some b => by_cases hb : b.IsReady <;> simp [hb]

omit [LawfulCachePolicy K σ] in
instance (m : CPUOffloadingManager K σ) (k : K) : Decidable (m.Ready k) :=
  decidable_of_iff _ ready_iff_lookupResult.symm

/-- The ready blocks are those without an outstanding store. -/
theorem Valid.ready_iff (h : m.Valid t) :
    m.Ready k ↔ (∃ b, (k, b) ∈ m.resident) ∧ k ∉ t.stores := by
  constructor
  · rintro ⟨b, hb, hready⟩
    exact ⟨⟨b, h.get_eq_some_iff.1 hb⟩, (h.refCnt_of_ready hb hready).2⟩
  · rintro ⟨⟨b, hb⟩, hstore⟩
    refine ⟨b, h.get_eq_some_iff.2 hb, ?_⟩
    rcases h.explained _ hb with ⟨-, hin, -⟩ | ⟨hcount, -⟩
    · exact absurd hin hstore
    · rw [BlockStatus.IsReady, hcount]
      exact Int.natCast_nonneg _

/-! ## Loads -/

/-- One more reader of a ready block. -/
theorem Valid.loadOne (h : m.Valid t) (hready : m.Ready k)
    (hbounded : t.loads.count k + 1 < 2 ^ 31) :
    ∃ id m', m.loadOne k = .ok (id, m') ∧ m'.Valid { t with loads := k ::ₘ t.loads } ∧
      m'.config = m.config ∧ ∀ k', (∃ b, (k', b) ∈ m'.resident) ↔ ∃ b, (k', b) ∈ m.resident := by
  obtain ⟨b, hb, hr⟩ := hready
  have hget : m.get k = some b := hb
  obtain ⟨href, hstore⟩ := h.refCnt_of_ready hb hr
  have hset : (b.setRefCnt (b.refCnt + 1)).refCnt = b.refCnt + 1 :=
    setRefCnt_refCnt (by omega) (by omega)
  have hbusy : (b.setRefCnt (b.refCnt + 1)).refCnt ≠ 0 := by
    rw [hset]
    omega
  have hnew : ({ t with loads := k ::ₘ t.loads } : Transfers K).Explains
      (k, b.setRefCnt (b.refCnt + 1)) := by
    refine Or.inr ⟨?_, hstore⟩
    rw [hset, href, count_cons_self]
    push_cast
    rfl
  have hother : ∀ k' ≠ k, (k ::ₘ t.loads).count k' = t.loads.count k' ∧
      (k' ∈ t.stores ↔ k' ∈ t.stores) :=
    fun k' hk' => ⟨count_cons_of_ne hk' _, Iff.rfl⟩
  have hcount : (k ::ₘ t.loads).count k < 2 ^ 31 := by
    rw [count_cons_self]
    exact hbounded
  simp only [CPUOffloadingManager.loadOne, hget, orRaise, assert, if_pos hr, ok_bind]
  by_cases hzero : b.refCnt = 0
  · obtain ⟨policy, hmark, hcons, hheld⟩ := acquire h.consistent hget hzero
      hbusy
    have hpos : 0 < m.resident.countP fun e => e.2.refCnt = 0 :=
      countP_pos.2 ⟨_, h.get_eq_some_iff.1 hget, hzero⟩
    have hev := h.evictable
    rw [if_pos hzero, hmark]
    simp only [if_pos (show 0 ≤ m.numEvictableCacheBlocks - 1 by omega), pure_eq_ok]
    refine ⟨_, _, rfl, h.exchange hget ⟨rfl, rfl, rfl⟩ hcons hheld rfl ?_ ?_ hother hnew h.nodup
      hcount, rfl, exists_mem_of_exchange hheld (h.get_eq_some_iff.1 hget)⟩
    · rw [if_pos hzero, if_neg (by rw [hset]; omega)]
      dsimp only
      omega
    · rw [if_neg (by omega), if_neg (by rw [hset]; omega)]
  · obtain ⟨hcons, hheld⟩ := write h.consistent hget hzero hbusy
    rw [if_neg hzero]
    simp only [pure_eq_ok]
    refine ⟨_, _, rfl, h.exchange hget ⟨rfl, rfl, rfl⟩ hcons hheld rfl ?_ ?_ hother hnew h.nodup
      hcount, rfl, exists_mem_of_exchange hheld (h.get_eq_some_iff.1 hget)⟩
    · rw [if_neg hzero, if_neg (by rw [hset]; omega)]
    · rw [if_neg (by omega), if_neg (by rw [hset]; omega)]

variable {ks : List K} {n : ℕ}

/-- **Preparing a load** of ready blocks. -/
theorem Valid.prepareLoad (h : m.Valid t) (hready : ∀ k ∈ ks, m.Ready k)
    (hbounded : ∀ k, (↑ks + t.loads).count k < 2 ^ 31) :
    ∃ ids m', CPUOffloadingManager.prepareLoad ks m = .ok (ids, m') ∧
      m'.Valid { t with loads := ↑ks + t.loads } ∧ m'.config = m.config := by
  induction ks generalizing m t with
  | nil => exact ⟨[], m, rfl, by simpa using h, rfl⟩
  | cons k ks ih =>
    have hsplit : (↑(k :: ks) + t.loads : Multiset K) = ↑ks + k ::ₘ t.loads := by
      rw [← cons_coe, cons_add, add_cons]
    rw [hsplit] at hbounded ⊢
    have hone : t.loads.count k + 1 < 2 ^ 31 := by
      have hall := hbounded k
      rw [count_add, count_cons_self] at hall
      omega
    obtain ⟨id, m₁, hok, hvalid, hconfig, hres⟩ := h.loadOne (hready k List.mem_cons_self) hone
    have hready' : ∀ k' ∈ ks, m₁.Ready k' := by
      intro k' hk'
      rw [hvalid.ready_iff, hres k']
      exact h.ready_iff.1 (hready k' (List.mem_cons_of_mem k hk'))
    obtain ⟨ids, m', hrest, hvalid', hconfig'⟩ := ih hvalid hready' hbounded
    refine ⟨id :: ids, m', ?_, hvalid', hconfig'.trans hconfig⟩
    simp only [CPUOffloadingManager.prepareLoad, hok, hrest, ok_bind, pure_eq_ok]

/-- A reader is done. -/
theorem Valid.unloadOne (h : m.Valid t) (hload : k ∈ t.loads) :
    ∃ m', m.unloadOne k = .ok m' ∧ m'.Valid { t with loads := t.loads.erase k } ∧
      m'.config = m.config := by
  obtain ⟨b, hmem⟩ := h.held k (Or.inl hload)
  have hget := h.get_eq_some_iff.2 hmem
  have hpos := count_pos.2 hload
  have hbound := h.bounded k
  obtain ⟨href, hstore⟩ : b.refCnt = t.loads.count k ∧ k ∉ t.stores := by
    rcases h.explained _ hmem with ⟨-, -, hno⟩ | hcount
    · exact absurd hload hno
    · exact hcount
  have hset : (b.setRefCnt (b.refCnt - 1)).refCnt = b.refCnt - 1 :=
    setRefCnt_refCnt (by omega) (by omega)
  have hnew : ({ t with loads := t.loads.erase k } : Transfers K).Explains
      (k, b.setRefCnt (b.refCnt - 1)) := by
    refine Or.inr ⟨?_, hstore⟩
    rw [hset, href]
    dsimp only
    rw [count_erase_self]
    omega
  have hother : ∀ k' ≠ k, (t.loads.erase k).count k' = t.loads.count k' ∧
      (k' ∈ t.stores ↔ k' ∈ t.stores) :=
    fun k' hk' => ⟨count_erase_of_ne hk' _, Iff.rfl⟩
  have hcount : (t.loads.erase k).count k < 2 ^ 31 := by
    rw [count_erase_self]
    omega
  simp only [CPUOffloadingManager.unloadOne, hget, orRaise, assert,
    if_pos (show 0 < b.refCnt by omega), ok_bind, pure_eq_ok]
  by_cases hlast : (b.setRefCnt (b.refCnt - 1)).refCnt = 0
  · obtain ⟨hcons, hheld⟩ := release h.consistent hget (by omega) hlast
    rw [if_pos hlast]
    refine ⟨_, rfl, h.exchange hget ⟨rfl, rfl, rfl⟩ hcons hheld rfl ?_ ?_ hother hnew h.nodup
      hcount, rfl⟩
    · rw [if_neg (by omega), if_pos hlast]
      dsimp only
      omega
    · rw [if_neg (by omega), if_neg (by omega)]
  · obtain ⟨hcons, hheld⟩ := write h.consistent hget (by omega) hlast
    rw [if_neg hlast]
    refine ⟨_, rfl, h.exchange hget ⟨rfl, rfl, rfl⟩ hcons hheld rfl ?_ ?_ hother hnew h.nodup
      hcount, rfl⟩
    · rw [if_neg (by omega), if_neg hlast]
    · rw [if_neg (by omega), if_neg (by omega)]

/-- **Completing a load.** -/
theorem Valid.completeLoad (h : m.Valid t) (hks : ↑ks ≤ t.loads) :
    ∃ m', CPUOffloadingManager.completeLoad ks m = .ok m' ∧
      m'.Valid { t with loads := t.loads - ↑ks } ∧ m'.config = m.config := by
  induction ks generalizing m t with
  | nil => exact ⟨m, rfl, by simpa using h, rfl⟩
  | cons k ks ih =>
    rw [← cons_coe] at hks ⊢
    have hmem : k ∈ t.loads := mem_of_le hks (mem_cons_self k _)
    obtain ⟨m₁, hok, hvalid, hconfig⟩ := h.unloadOne hmem
    have hrest : ↑ks ≤ t.loads.erase k := by simpa using erase_le_erase k hks
    obtain ⟨m', hok', hvalid', hconfig'⟩ := ih hvalid hrest
    refine ⟨m', ?_, ?_, hconfig'.trans hconfig⟩
    · simp only [CPUOffloadingManager.completeLoad, hok, hok', ok_bind]
    · rw [sub_cons]
      exact hvalid'

/-! ## Completed stores -/

/-- The block of the first of some outstanding stores is there and not ready. -/
theorem Valid.get_of_store (h : m.Valid t) (hks : k ::ₘ ↑ks ≤ t.stores) : ↑ks ≤ t.stores.erase k ∧
      ∃ b, m.get k = some b ∧ b.refCnt = -1 ∧ ¬ b.IsReady ∧ k ∉ t.loads := by
  have hstore : k ∈ t.stores := mem_of_le hks (mem_cons_self k _)
  obtain ⟨b, hmem⟩ := h.held k (Or.inr hstore)
  refine ⟨by simpa using erase_le_erase k hks, b, h.get_eq_some_iff.2 hmem, ?_⟩
  rcases h.explained _ hmem with ⟨hneg, -, hload⟩ | ⟨-, hno⟩
  · exact ⟨hneg, by rw [BlockStatus.IsReady, hneg]; decide, hload⟩
  · exact absurd hstore hno

omit [CachePolicy K σ] [LawfulCachePolicy K σ] in
theorem mem_erase_of_nodup (hnodup : t.stores.Nodup) :
    k ∉ t.stores.erase k ∧ ∀ k' ≠ k, (k' ∈ t.stores.erase k ↔ k' ∈ t.stores) :=
  ⟨fun hin => ((Multiset.Nodup.mem_erase_iff hnodup).1 hin).1 rfl, fun _ hk' => mem_erase_of_ne hk'⟩

section

variable (h : m.Valid t)

include h

theorem Valid.markStored (hget : m.get k = some b) (hneg : b.refCnt = -1)
    (hload : k ∉ t.loads) : (m.markStored k b).Valid { t with stores := t.stores.erase k } := by
  have hset : (b.setRefCnt 0).refCnt = 0 := setRefCnt_refCnt (by decide) (by decide)
  obtain ⟨hcons, hheld⟩ := release h.consistent hget (by omega) hset
  obtain ⟨hself, hothers⟩ := mem_erase_of_nodup (k := k) h.nodup
  refine h.exchange hget ⟨rfl, rfl, rfl⟩ hcons hheld rfl ?_ ?_
    (fun k' hk' => ⟨rfl, hothers k' hk'⟩) (Or.inr ⟨?_, hself⟩) (h.nodup.erase k) (h.bounded k)
  · rw [if_neg (by omega), if_pos hset]
    exact add_zero _
  · rw [if_pos hneg, if_neg (by omega)]
    show m.numWritePendingBlocks - 1 + 1 = m.numWritePendingBlocks + 0
    omega
  · rw [hset]
    exact (congrArg Nat.cast (count_eq_zero.2 hload)).symm

/-- **A store has succeeded**: its blocks become ready. -/
theorem Valid.storeSucceeded (hks : ↑ks ≤ t.stores) :
    (CPUOffloadingManager.storeSucceeded ks m).2.Valid { t with stores := t.stores - ↑ks } ∧
      (CPUOffloadingManager.storeSucceeded ks m).2.config = m.config := by
  induction ks generalizing m t with
  | nil => exact ⟨by simpa [CPUOffloadingManager.storeSucceeded] using h, rfl⟩
  | cons k ks ih =>
    rw [← cons_coe] at hks ⊢
    obtain ⟨hrest, b, hget, hneg, hnot, hload⟩ := h.get_of_store hks
    simp only [CPUOffloadingManager.storeSucceeded, hget, if_neg hnot]
    rw [sub_cons]
    exact ih (h.markStored hget hneg hload) hrest

theorem Valid.dropStored (hget : m.get k = some b) (hneg : b.refCnt = -1) (hload : k ∉ t.loads) :
    ∃ m', m.dropStored k b = .ok m' ∧ m'.Valid { t with stores := t.stores.erase k } ∧
      m'.config = m.config := by
  obtain ⟨policy, hok, hcons, hheld⟩ := remove h.consistent hget
  have hres : m.resident = (k, b) ::ₘ LawfulCachePolicy.held policy := hheld
  obtain ⟨hself, hothers⟩ := mem_erase_of_nodup (k := k) h.nodup
  refine ⟨{ m with
    policy := policy
    numWritePendingBlocks := m.numWritePendingBlocks - 1
    freeList := m.freeList ++ [b.blockId] }, ?_, ?_, rfl⟩
  · simp only [CPUOffloadingManager.dropStored, hok, ok_bind, pure_eq_ok]
  refine h.replace {(k, b)} 0 (· = k) hcons h.allocated_le
    (by rw [hres, zero_add]; rfl) ?_ ?_ ?_ (by simp) (by simp) (fun k' hk' => ⟨rfl, hothers k' hk'⟩)
    (fun e he hk => ?_) (fun k' hk' hin => ?_) (h.nodup.erase k) fun k' _ => h.bounded k'
  · dsimp only
    rw [← coe_add, map_singleton, map_zero, coe_singleton]
    abel
  · simp [← cons_zero, hneg]
  · simp [← cons_zero, hneg]
  · -- no other resident block has this key
    have hnodup := nodup_keys h.consistent
    rw [hheld, map_cons, nodup_cons] at hnodup
    exact absurd (mem_map.2 ⟨e, he, hk⟩) hnodup.1
  · subst hk'
    exact absurd hin (not_or.2 ⟨hload, hself⟩)

/-- **A store has failed**: its blocks go back to the free list. -/
theorem Valid.storeFailed (hks : ↑ks ≤ t.stores) :
    ∃ m', CPUOffloadingManager.storeFailed ks m = .ok m' ∧
      m'.Valid { t with stores := t.stores - ↑ks } ∧ m'.config = m.config := by
  induction ks generalizing m t with
  | nil => exact ⟨m, rfl, by simpa using h, rfl⟩
  | cons k ks ih =>
    rw [← cons_coe] at hks ⊢
    obtain ⟨hrest, b, hget, hneg, hnot, hload⟩ := h.get_of_store hks
    obtain ⟨m₁, hok, hvalid, hconfig⟩ := h.dropStored hget hneg hload
    obtain ⟨m', hok', hvalid', hconfig'⟩ := ih hvalid hrest
    refine ⟨m', ?_, ?_, hconfig'.trans hconfig⟩
    · simp only [CPUOffloadingManager.storeFailed, hget, if_neg hnot, hok, hok', ok_bind]
    · rw [sub_cons]
      exact hvalid'

/-- The fields of the invariant do not depend on events, sizes and counts. -/
theorem Valid.congr (hpolicy : m'.policy = m.policy)
    (hsame : SameSlots m m') (hev : m'.numEvictableCacheBlocks = m.numEvictableCacheBlocks)
    (hpend : m'.numWritePendingBlocks = m.numWritePendingBlocks) : m'.Valid t := by
  have hres : m'.resident = m.resident := by rw [resident, hpolicy, resident]
  refine ⟨?_, ?_, ?_, ?_, ?_, ?_, ?_, h.nodup, h.bounded⟩
  · rw [hpolicy]
    exact h.consistent
  · rw [hsame.numAllocatedBlocks, hsame.numBlocks]
    exact h.allocated_le
  · rw [hres, hsame.freeList, hsame.numAllocatedBlocks]
    exact h.slots
  · rw [hres, hev]
    exact h.evictable
  · rw [hres, hpend]
    exact h.writePending
  · rw [hres]
    exact h.explained
  · rw [hres]
    exact h.held

theorem Valid.emit (ks : List K) (removed : Bool) :
    (m.emit ks removed).Valid t ∧ (m.emit ks removed).config = m.config := by
  rw [CPUOffloadingManager.emit]
  split
  · exact ⟨h, rfl⟩
  · exact ⟨h.congr rfl ⟨rfl, rfl, rfl⟩ rfl rfl, rfl⟩

/-- **Completing a store**, with or without success. -/
theorem Valid.completeStore (hks : ↑ks ≤ t.stores) (success : Bool) :
    ∃ m', m.completeStore ks success = .ok m' ∧
      m'.Valid { t with stores := t.stores - ↑ks } ∧ m'.config = m.config := by
  rw [CPUOffloadingManager.completeStore]
  split
  · obtain ⟨h', hconfig⟩ := h.storeSucceeded hks
    exact ⟨_, rfl, (h'.emit _ _).1, (h'.emit _ _).2.trans hconfig⟩
  · exact h.storeFailed hks

end

/-! ## New stores -/

omit [DecidableEq K] [CachePolicy K σ] [LawfulCachePolicy K σ] in
/-- As many slots as asked for come from the end of the free list. -/
theorem popFree_spec (free : List ℕ) (hn : n ≤ free.length) :
    ∃ ids free', popFree n free = .ok (ids, free') ∧ ids.length = n ∧
      (ids : Multiset ℕ) + free' = free := by
  induction n generalizing free with
  | zero => exact ⟨[], free, rfl, rfl, by simp⟩
  | succ n ih =>
    have hne : free ≠ [] := by
      rintro rfl
      simp at hn
    obtain ⟨ids, free', hok, hlen, heq⟩ := ih free.dropLast (by
      rw [List.length_dropLast]
      omega)
    refine ⟨free.getLast hne :: ids, free', ?_, by simp [hlen], ?_⟩
    · simp only [popFree, List.getLast?_eq_some_getLast hne, orRaise, hok, ok_bind, pure_eq_ok]
    · rw [← cons_coe, cons_add, heq, cons_coe, coe_eq_coe]
      conv_rhs => rw [← List.dropLast_append_getLast hne]
      exact (List.perm_append_singleton _ _).symm

omit [DecidableEq K] [CachePolicy K σ] [LawfulCachePolicy K σ] in
/-- New slots were never used or are free. -/
theorem allocateBlocks_spec (hle : m.numAllocatedBlocks ≤ m.numBlocks)
    (hn : (n : ℤ) ≤ m.getNumFreeBlocks) :
    ∃ ids free' alloc', m.allocateBlocks n = .ok (ids, { m with
        numAllocatedBlocks := alloc'
        freeList := free' }) ∧ ids.length = n ∧ alloc' ≤ m.numBlocks ∧
      (ids : Multiset ℕ) + free' + ↑(List.range m.numAllocatedBlocks) =
        m.freeList + ↑(List.range alloc') := by
  rw [getNumFreeBlocks] at hn
  obtain ⟨fresh, hfresh⟩ : ∃ fresh, min n (m.numBlocks - m.numAllocatedBlocks) = fresh := ⟨_, rfl⟩
  obtain ⟨ids, free', hok, hlen, heq⟩ := popFree_spec (n := n - fresh) m.freeList
    (by omega)
  refine ⟨List.range' m.numAllocatedBlocks fresh ++ ids, free', m.numAllocatedBlocks + fresh,
    ?_, ?_, by omega, ?_⟩
  · simp only [allocateBlocks, hfresh, assert,
      if_pos (show n - fresh ≤ m.freeList.length by omega), hok, ok_bind, pure_eq_ok]
  · rw [List.length_append, List.length_range', hlen]
    omega
  · have hrange : (List.range (m.numAllocatedBlocks + fresh) : Multiset ℕ) =
        ↑(List.range m.numAllocatedBlocks) + ↑(List.range' m.numAllocatedBlocks fresh) := by
      rw [coe_add, List.range_eq_range', List.range_eq_range', ← List.range'_append_1]
      simp
    rw [hrange, ← heq, ← coe_add]
    abel

omit [DecidableEq K] in
/-- New keys with their blocks, all of them being written. -/
theorem insertAll_spec (kbs : List (K × ℕ)) (hcons : Consistent (K := K) m.policy)
    (hnodup : (kbs.map Prod.fst).Nodup) (hnew : ∀ kb ∈ kbs, m.get kb.1 = none) :
    Consistent (K := K) (m.insertAll kbs).policy ∧ (m.insertAll kbs).resident =
        ↑(kbs.map fun kb => (kb.1, new kb.2)) + m.resident := by
  induction kbs generalizing m with
  | nil => exact ⟨hcons, by simp [insertAll, resident]⟩
  | cons kb kbs ih =>
    obtain ⟨hkb, hnodup⟩ := List.nodup_cons.1 hnodup
    obtain ⟨hcons₁, hheld₁⟩ := insert hcons (hnew kb List.mem_cons_self)
      (b := new kb.2) (by simp [new])
    have hnew₁ : ∀ kb' ∈ kbs, CachePolicy.get
        (CachePolicy.insert m.policy kb.1 (new kb.2)) kb'.1 = none := by
      intro kb' hkb'
      have hne : kb'.1 ≠ kb.1 := fun he => hkb (he ▸ List.mem_map_of_mem hkb')
      rw [Option.eq_none_iff_forall_ne_some]
      intro c hc
      rw [get_eq_some_iff hcons₁, hheld₁, mem_cons] at hc
      have hold := hc.resolve_left fun he => hne (Prod.mk.inj he).1
      have hget := (get_eq_some_iff hcons).2 hold
      exact absurd hget (by
        rw [show CachePolicy.get m.policy kb'.1 = none from
          hnew kb' (List.mem_cons_of_mem kb hkb')]
        simp)
    obtain ⟨hcons', hheld'⟩ := ih (m := { m with
      policy := CachePolicy.insert m.policy kb.1 (new kb.2) }) hcons₁ hnodup hnew₁
    refine ⟨hcons', hheld'.trans ?_⟩
    rw [List.map_cons, ← cons_coe, cons_add, resident, hheld₁, add_cons]
    rfl

/-- Evicting makes room by giving the slots of idle, unprotected blocks to the free list. -/
theorem Valid.makeRoom (h : m.Valid t) (ks : List K) (n : ℤ) :
    m.makeRoom ks n = .ok none ∨ ∃ evicted m', m.makeRoom ks n = .ok (some (evicted, m')) ∧
      m'.Valid t ∧ m'.config = m.config ∧ m'.getNumFreeBlocks = m.getNumFreeBlocks + max n 0 ∧
      (∀ k, m.get k = none → m'.get k = none) ∧
      ∀ k ∈ evicted, k ∉ ks ∧ k ∉ t.loads ∧ k ∉ t.stores ∧ ∃ b, (k, b) ∈ m.resident := by
  rw [CPUOffloadingManager.makeRoom]
  split
  next hpos =>
    split
    · exact Or.inl rfl
    next hev =>
      rcases evict n.toNat ks h.consistent with hnone |
        ⟨out, policy, hok, hcons, hlen, hheld, hidle⟩
      · refine Or.inl ?_
        rw [hnone]
        rfl
      have hres : m.resident = (↑out : Multiset (K × BlockStatus)) +
          LawfulCachePolicy.held policy := hheld
      have hnum : 0 ≤ m.numEvictableCacheBlocks - out.length := by omega
      rw [hok]
      simp only [ok_bind, assert, if_pos hnum, pure_eq_ok]
      have hbusy : ∀ e ∈ out, e.1 ∉ t.loads ∧ e.1 ∉ t.stores := by
        intro e he
        have hin : e ∈ m.resident := by
          rw [hres]
          exact mem_add.2 (Or.inl he)
        rcases h.explained e hin with ⟨hneg, -⟩ | ⟨hcount, hstore⟩
        · rw [(hidle e he).1] at hneg
          exact absurd hneg (by decide)
        · refine ⟨fun hload => ?_, hstore⟩
          have hpos' := count_pos.2 hload
          rw [(hidle e he).1] at hcount
          omega
      have hall : (out : Multiset (K × BlockStatus)).countP (fun e => e.2.refCnt = 0) =
          out.length := by
        rw [coe_countP, List.countP_eq_length]
        exact fun e he => decide_eq_true (hidle e he).1
      have hnone : (out : Multiset (K × BlockStatus)).countP (fun e => e.2.refCnt = -1) = 0 := by
        rw [countP_eq_zero]
        intro e he
        rw [(hidle e he).1]
        decide
      refine Or.inr ⟨_, _, rfl, h.replace ↑out 0
        (fun k => k ∉ t.loads ∧ k ∉ t.stores) hcons h.allocated_le (by rw [hres, zero_add]; rfl)
        ?_ ?_ ?_ hbusy (by simp) (fun _ _ => ⟨rfl, Iff.rfl⟩) (fun e he _ => h.explained e ?_)
        (fun k hk hin => absurd hin (not_or.2 hk)) h.nodup fun k _ => h.bounded k, rfl, ?_,
        fun k hk => ?_, fun k hk => ?_⟩
      · dsimp only
        rw [← coe_add, map_coe, map_zero]
        abel
      · rw [hall]
        simp
      · rw [hnone]
        rfl
      · rw [hres]
        exact mem_add.2 (Or.inr he)
      · simp only [getNumFreeBlocks, List.length_append, List.length_map, hlen]
        push_cast
        omega
      · rw [Option.eq_none_iff_forall_ne_some]
        intro c hc
        have hin : (k, c) ∈ m.resident := by
          rw [hres]
          exact mem_add.2 (Or.inr ((LawfulCachePolicy.get_eq_some_iff hcons).1 hc))
        exact h.get_eq_none_iff.1 hk c hin
      · obtain ⟨e, he, rfl⟩ := List.mem_map.1 hk
        refine ⟨(hidle e he).2, (hbusy e he).1, (hbusy e he).2, e.2, ?_⟩
        rw [hres]
        exact mem_add.2 (Or.inl he)
  next hpos =>
    exact Or.inr ⟨[], m, rfl, h, rfl, by rw [max_eq_right (by omega), add_zero], fun _ hk => hk,
      by simp⟩

omit [CachePolicy K σ] [LawfulCachePolicy K σ] in
/-- The keys that pass the threshold are those counted often enough. -/
theorem passThreshold_eq (m : CPUOffloadingManager K σ) (ks : List K) :
    ∃ skipped, m.passThreshold ks =
      (ks.filter fun k => m.Counted k, { m with storesSkipped := skipped }) := by
  rw [passThreshold]
  split
  next hcounts =>
    refine ⟨m.storesSkipped, ?_⟩
    rw [List.filter_eq_self.2 fun k _ => decide_eq_true ?_]
    simp [Counted, hcounts]
  next => exact ⟨_, rfl⟩

/-- New blocks enter the cache as outstanding stores. -/
theorem Valid.beginStore (h : m.Valid t) (hks : ks.Nodup)
    (hnew : ∀ k ∈ ks, m.get k = none) (hroom : (ks.length : ℤ) ≤ m.getNumFreeBlocks) :
    ∃ ids m₁, m.allocateBlocks ks.length = .ok (ids, m₁) ∧ ids.length = ks.length ∧
      m₁.config = m.config ∧
        Valid { t with stores := ↑ks + t.stores } { m₁.insertAll (ks.zip ids) with
        numWritePendingBlocks := (m₁.insertAll (ks.zip ids)).numWritePendingBlocks +
          ks.length } := by
  obtain ⟨ids, free, alloc, hok, hlen, halloc, hslots⟩ := allocateBlocks_spec h.allocated_le hroom
  refine ⟨ids, _, hok, hlen, rfl, ?_⟩
  have hfst : (ks.zip ids).map Prod.fst = ks := List.map_fst_zip hlen.ge
  have hsnd : (ks.zip ids).map Prod.snd = ids := List.map_snd_zip hlen.le
  obtain ⟨hcons, hheld⟩ := insertAll_spec (ks.zip ids) (m := { m with
    numAllocatedBlocks := alloc, freeList := free }) h.consistent (by rw [hfst]; exact hks)
    fun kb hkb => hnew kb.1 (by rw [← hfst]; exact List.mem_map_of_mem hkb)
  obtain ⟨new, hnewdef⟩ : ∃ new : List (K × BlockStatus),
    (ks.zip ids).map (fun kb => (kb.1, BlockStatus.new kb.2)) = new := ⟨_, rfl⟩
  rw [hnewdef] at hheld
  have hnewlen : new.length = ks.length := by
    rw [← hnewdef, List.length_map, List.length_zip, hlen, min_self]
  have hnewkeys : ∀ e ∈ new, e.1 ∈ ks ∧ e.2.refCnt = -1 := by
    intro e he
    rw [← hnewdef] at he
    obtain ⟨kb, hkb, rfl⟩ := List.mem_map.1 he
    exact ⟨by rw [← hfst]; exact List.mem_map_of_mem hkb, rfl⟩
  have hnotres : ∀ k ∈ ks, ∀ b, (k, b) ∉ m.resident := fun k hk => h.get_eq_none_iff.1 (hnew k hk)
  have hnotbusy : ∀ k ∈ ks, k ∉ t.loads ∧ k ∉ t.stores := by
    intro k hk
    refine ⟨fun hload => ?_, fun hstore => ?_⟩
    · obtain ⟨b, hb⟩ := h.held k (Or.inl hload)
      exact hnotres k hk b hb
    · obtain ⟨b, hb⟩ := h.held k (Or.inr hstore)
      exact hnotres k hk b hb
  have hids : new.map (fun e => e.2.blockId) = ids := by
    rw [← hnewdef, List.map_map]
    exact hsnd
  have hnone : (new : Multiset (K × BlockStatus)).countP (fun e => e.2.refCnt = 0) = 0 := by
    rw [countP_eq_zero]
    intro e he
    rw [(hnewkeys e he).2]
    decide
  have hall : (new : Multiset (K × BlockStatus)).countP (fun e => e.2.refCnt = -1) = ks.length := by
    rw [coe_countP, ← hnewlen, List.countP_eq_length]
    exact fun e he => decide_eq_true (hnewkeys e he).2
  refine h.replace 0 ↑new (· ∈ ks) hcons halloc (by rwa [zero_add]) ?_ ?_ ?_
    (by simp) (fun e he => (hnewkeys e he).1) (fun k hk => ⟨rfl, by simp [hk]⟩) (fun e he hk => ?_)
    (fun k hk _ => ?_) ?_ fun k _ => h.bounded k
  · rw [map_coe, hids, map_zero, zero_add]
    exact hslots
  · rw [hnone]
    rfl
  · rw [hall]
    exact add_zero _
  · have hin := mem_add.1 (mem_of_le hheld.le he)
    exact Or.inl ⟨(hnewkeys e (hin.resolve_right (hnotres e.1 hk e.2))).2, mem_add.2 (Or.inl hk),
      (hnotbusy e.1 hk).1⟩
  · rw [← hfst] at hk
    obtain ⟨kb, hkb, rfl⟩ := List.mem_map.1 hk
    refine ⟨BlockStatus.new kb.2, mem_of_le hheld.ge (mem_add.2 (Or.inl ?_))⟩
    rw [← hnewdef]
    exact mem_coe.2 (List.mem_map.2 ⟨kb, hkb, rfl⟩)
  · exact (nodup_add.2 ⟨coe_nodup.2 hks, h.nodup, disjoint_left.2 fun hk => (hnotbusy _ hk).2⟩)

/-- What the caller of a store learns, and what it may rely on: the invariant with the new
stores, nothing moved if the call declines, and only unprotected blocks without a transfer
evicted. -/
structure StoreOutcome (t : Transfers K) (m : CPUOffloadingManager K σ) (guarded : K → Prop)
    (out : Option (PrepareStoreOutput K)) (m' : CPUOffloadingManager K σ) : Prop where
  valid : m'.Valid { t with
    stores := ↑((out.map PrepareStoreOutput.keysToStore).getD []) + t.stores }
  declined : out = none → m'.policy = m.policy ∧ m'.freeList = m.freeList ∧
    m'.numAllocatedBlocks = m.numAllocatedBlocks
  evicted : ∀ o ∈ out, ∀ k ∈ o.evictedKeys,
    ¬ guarded k ∧ k ∉ t.loads ∧ k ∉ t.stores ∧ ∃ b, (k, b) ∈ m.resident

theorem Valid.evictAndInsert (h : m.Valid t) (ks : List K) {new : List K} (hnodup : new.Nodup)
    (hnone : ∀ k ∈ new, m.get k = none) :
    ∃ out m', m.evictAndInsert ks new = .ok (out, m') ∧ m'.config = m.config ∧
      StoreOutcome t m (· ∈ ks) out m' := by
  rw [CPUOffloadingManager.evictAndInsert]
  rcases h.makeRoom ks (new.length - m.getNumFreeBlocks) with hroom |
    ⟨evicted, m₂, hroom, h₂, hconfig, hfree, hget, hevicted⟩
  · rw [hroom]
    exact ⟨none, m, rfl, rfl, by simpa using h, fun _ => ⟨rfl, rfl, rfl⟩, by simp⟩
  rw [hroom]
  have hemit : (m₂.emit evicted true).policy = m₂.policy ∧
      (m₂.emit evicted true).getNumFreeBlocks = m₂.getNumFreeBlocks := by
    rw [CPUOffloadingManager.emit]
    split <;> exact ⟨rfl, rfl⟩
  have hget₃ : ∀ k ∈ new, (m₂.emit evicted true).get k = none := by
    intro k hk
    rw [CPUOffloadingManager.get, hemit.1]
    exact hget k (hnone k hk)
  have hfree₃ : (new.length : ℤ) ≤ (m₂.emit evicted true).getNumFreeBlocks := by
    have hmax := le_max_left ((new.length : ℤ) - m.getNumFreeBlocks) 0
    rw [hemit.2, hfree]
    omega
  obtain ⟨h₃, hconfig₃⟩ := h₂.emit evicted true
  obtain ⟨ids, m₄, halloc, hlen, hconfig₄, h₄⟩ := h₃.beginStore hnodup hget₃ hfree₃
  simp only [ok_bind, halloc, assert, if_pos hlen, pure_eq_ok]
  refine ⟨_, _, rfl, hconfig₄.trans (hconfig₃.trans hconfig), h₄, by simp, ?_⟩
  rintro o ⟨⟩ k hk
  exact hevicted k hk

/-- **Preparing a store** never fails; the keys that pass the threshold are protected. -/
theorem Valid.prepareStore (h : m.Valid t) (hks : ks.Nodup) :
    ∃ out m', m.prepareStore ks = .ok (out, m') ∧ m'.config = m.config ∧
      StoreOutcome t m (fun k => k ∈ ks ∧ m.Counted k) out m' := by
  obtain ⟨skipped, hpass⟩ := passThreshold_eq m ks
  have hmem : ∀ k, k ∈ ks.filter (fun k => m.Counted k) ↔ k ∈ ks ∧ m.Counted k := by
    intro k
    rw [List.mem_filter, decide_eq_true_iff]
  obtain ⟨kept, hkept⟩ : ∃ kept, ks.filter (fun k => m.Counted k) = kept := ⟨_, rfl⟩
  have hnodup : kept.Nodup := hkept ▸ hks.filter _
  rw [hkept] at hpass hmem
  rw [CPUOffloadingManager.prepareStore, hpass, storeNew]
  have hskip : Valid t ({ m with storesSkipped := skipped } : CPUOffloadingManager K σ) :=
    h.congr rfl ⟨rfl, rfl, rfl⟩ rfl rfl
  split
  · refine ⟨_, _, rfl, rfl, by simpa using hskip, by simp, ?_⟩
    rintro o ⟨⟩ k hk
    simp at hk
  next =>
    obtain ⟨new, hnew⟩ : ∃ new, kept.filter (fun k => (m.get k).isNone) = new := ⟨_, rfl⟩
    have hsizes : Valid t ({ m with
        storesSkipped := skipped
        allocationSizes := m.allocationSizes ++ [new.length] } : CPUOffloadingManager K σ) :=
      h.congr rfl ⟨rfl, rfl, rfl⟩ rfl rfl
    have hnone : ∀ k ∈ new, m.get k = none := by
      intro k hk
      rw [← hnew] at hk
      simpa using (List.mem_filter.1 hk).2
    obtain ⟨out, m', hok, hconfig, hout⟩ :=
      hsizes.evictAndInsert kept (hnew ▸ hnodup.filter _) hnone
    refine ⟨out, m', ?_, hconfig, hout.valid, hout.declined, fun o ho k hk => ?_⟩
    · rw [← hok, ← hnew]
      rfl
    · obtain ⟨hnot, hrest⟩ := hout.evicted o ho k hk
      exact ⟨fun hin => hnot ((hmem k).2 hin), hrest⟩

/-! ## Sequences of calls -/

theorem Valid.touch (h : m.Valid t) (ks : List K) : (m.touch ks).Valid t := by
  obtain ⟨hcons, hheld⟩ := LawfulCachePolicy.touch ks h.consistent
  have hres : (m.touch ks).resident = m.resident := hheld
  refine ⟨hcons, h.allocated_le, ?_, ?_, ?_, ?_, ?_, h.nodup, h.bounded⟩ <;> rw [hres]
  exacts [h.slots, h.evictable, h.writePending, h.explained, h.held]

theorem valid_resetCache (m : CPUOffloadingManager K σ) : m.resetCache.Valid ⟨0, 0⟩ :=
  valid_of_empty clear.1 clear.2 rfl rfl rfl rfl

/-- **A lookup** changes the tracker only, and fails only in a tracker without room. -/
theorem Valid.lookup (h : m.Valid t) (k : K) :
    (∃ r m', m.lookup k = .ok (r, m') ∧ m'.Valid t ∧ m'.config = m.config) ∨
      m.lookup k = .error .keyError ∧ m.maxTrackerSize = 0 ∧ m.counts ≠ none := by
  rw [CPUOffloadingManager.lookup]
  split
  next => exact Or.inl ⟨_, _, rfl, h, rfl⟩
  next counts hcounts =>
    rcases htrack : trackLookup m.maxTrackerSize k counts with e | counts'
    · refine Or.inr ⟨?_, ?_, by simp [hcounts]⟩
      · rw [trackLookup] at htrack
        split at htrack
        · cases htrack
        · split_ifs at htrack
          cases htrack
          rfl
      · rw [trackLookup] at htrack
        split at htrack
        · cases htrack
        · split_ifs at htrack with hfull hnil
          rw [hnil] at hfull
          simpa using hfull
    · refine Or.inl ⟨_, _, rfl, h.congr rfl ⟨rfl, rfl, rfl⟩ rfl rfl, ?_⟩
      simp [config, hcounts]

/-- What the interface assumes of a call: loads are of ready blocks, fewer than fit into the
count; completions are of outstanding transfers; the keys of a store are distinct. -/
def Meets (t : Transfers K) (m : CPUOffloadingManager K σ) : CPUOp K → Prop
  | .prepareLoad ks => (∀ k ∈ ks, m.Ready k) ∧ ∀ k ∈ ks, (↑ks + t.loads).count k < 2 ^ 31
  | .completeLoad ks => ↑ks ≤ t.loads
  | .prepareStore ks => ks.Nodup
  | .completeStore ks _ => ↑ks ≤ t.stores
  | _ => True

instance (t : Transfers K) (m : CPUOffloadingManager K σ) (op : CPUOp K) :
    Decidable (m.Meets t op) :=
  match op with
  | .prepareLoad ks => inferInstanceAs (Decidable ((∀ k ∈ ks, _) ∧ ∀ k ∈ ks, _))
  | .completeLoad ks => inferInstanceAs (Decidable (↑ks ≤ t.loads))
  | .prepareStore ks => inferInstanceAs (Decidable ks.Nodup)
  | .completeStore ks _ => inferInstanceAs (Decidable (↑ks ≤ t.stores))
  | .lookup _ | .touch _ | .resetCache => inferInstanceAs (Decidable True)

/-- The outstanding transfers after a call that has begun to store some keys. -/
def nextTransfers (t : Transfers K) (begun : List K) : CPUOp K → Transfers K
  | .prepareLoad ks => { t with loads := ↑ks + t.loads }
  | .completeLoad ks => { t with loads := t.loads - ↑ks }
  | .prepareStore _ => { t with stores := ↑begun + t.stores }
  | .completeStore ks _ => { t with stores := t.stores - ↑ks }
  | .resetCache => ⟨0, 0⟩
  | _ => t

/-- A sequence of calls, with the transfers that are outstanding after it. -/
def track : List (CPUOp K) → Transfers K → CPUOffloadingManager K σ →
    Except Fault (Transfers K × CPUOffloadingManager K σ)
  | [], t, m => .ok (t, m)
  | op :: ops, t, m => do
      let (begun, m) ← m.exec op
      track ops (nextTransfers t begun op) m

/-- Every call of a sequence meets what the interface assumes of it. -/
def AllMeet : List (CPUOp K) → Transfers K → CPUOffloadingManager K σ → Prop
  | [], _, _ => True
  | op :: ops, t, m => m.Meets t op ∧
      ∀ r ∈ (m.exec op).toOption, AllMeet ops (nextTransfers t r.1 op) r.2

instance decidableAllMeet : (ops : List (CPUOp K)) → (t : Transfers K) →
    (m : CPUOffloadingManager K σ) → Decidable (AllMeet ops t m)
  | [], _, _ => inferInstanceAs (Decidable True)
  | op :: ops, t, m =>
    let _ : ∀ r : List K × CPUOffloadingManager K σ,
        Decidable (AllMeet ops (nextTransfers t r.1 op) r.2) :=
      fun r => decidableAllMeet ops (nextTransfers t r.1 op) r.2
    inferInstanceAs (Decidable (_ ∧ ∀ r ∈ (m.exec op).toOption, _))

/-- **One call** keeps the invariant; only a lookup in a tracker without room fails. -/
theorem Valid.exec {op : CPUOp K} (h : m.Valid t) (hop : m.Meets t op) :
    (∃ begun m', m.exec op = .ok (begun, m') ∧ m'.Valid (nextTransfers t begun op) ∧
      m'.config = m.config) ∨
      m.exec op = .error .keyError ∧ m.maxTrackerSize = 0 ∧ m.counts ≠ none := by
  cases op with
  | lookup k =>
    rcases h.lookup k with ⟨r, m', hok, h'⟩ | ⟨herr, hrest⟩
    · exact Or.inl ⟨[], m', by rw [CPUOffloadingManager.exec, hok]; rfl, h'⟩
    · exact Or.inr ⟨by rw [CPUOffloadingManager.exec, herr]; rfl, hrest⟩
  | touch ks => exact Or.inl ⟨_, _, rfl, h.touch ks, rfl⟩
  | prepareLoad ks =>
    obtain ⟨hready, hbound⟩ := hop
    have hall : ∀ k, (↑ks + t.loads).count k < 2 ^ 31 := by
      intro k
      by_cases hk : k ∈ ks
      · exact hbound k hk
      · rw [count_add, count_eq_zero.2 (by simpa using hk), zero_add]
        exact h.bounded k
    obtain ⟨ids, m', hok, h'⟩ := h.prepareLoad hready hall
    exact Or.inl ⟨[], m', by rw [CPUOffloadingManager.exec, hok]; rfl, h'⟩
  | completeLoad ks =>
    obtain ⟨m', hok, h'⟩ := h.completeLoad hop
    exact Or.inl ⟨[], m', by rw [CPUOffloadingManager.exec, hok]; rfl, h'⟩
  | prepareStore ks =>
    obtain ⟨out, m', hok, hconfig, hout⟩ := h.prepareStore hop
    exact Or.inl ⟨_, m', by rw [CPUOffloadingManager.exec, hok]; rfl, hout.valid, hconfig⟩
  | completeStore ks success =>
    obtain ⟨m', hok, h'⟩ := h.completeStore hop success
    exact Or.inl ⟨[], m', by rw [CPUOffloadingManager.exec, hok]; rfl, h'⟩
  | resetCache => exact Or.inl ⟨_, _, rfl, valid_resetCache m, rfl⟩

/-- **A sequence of calls** keeps the invariant. -/
theorem track_valid {ops : List (CPUOp K)} (h : m.Valid t) (hops : AllMeet ops t m) :
    (∃ t' m', track ops t m = .ok (t', m') ∧ m'.Valid t' ∧ m'.config = m.config) ∨
      track ops t m = .error .keyError ∧ m.maxTrackerSize = 0 ∧ m.counts ≠ none := by
  induction ops generalizing t m with
  | nil => exact Or.inl ⟨t, m, rfl, h, rfl⟩
  | cons op ops ih =>
    rcases h.exec hops.1 with ⟨begun, m₁, hok, h₁, hconfig⟩ | ⟨herr, hrest⟩
    · have hops₁ : AllMeet ops (nextTransfers t begun op) m₁ :=
        hops.2 (begun, m₁) (by rw [hok]; rfl)
      simp only [track, hok, ok_bind]
      rcases ih h₁ hops₁ with ⟨t', m', hrun, h', hconfig'⟩ | ⟨herr, hsize, hcounts⟩
      · exact Or.inl ⟨t', m', hrun, h', hconfig'.trans hconfig⟩
      · simp only [config, Prod.mk.injEq] at hconfig
        refine Or.inr ⟨herr, hconfig.2.2.1 ▸ hsize, fun hnone => hcounts ?_⟩
        rw [hnone] at hconfig
        simpa using hconfig.2.2.2
    · exact Or.inr ⟨by rw [track, herr]; rfl, hrest⟩

end CPUOffloadingManager

open CPUOffloadingManager

/-! ## The CPU tier with its policies -/

/-- **Residency in the CPU tier.** After every sequence of calls in which loads are of ready
blocks and completions match earlier preparations, the slots of resident blocks, the free list
and the slots that were never used partition the slots; keys are resident once; the counters
count the idle and the pending blocks; and a further store raises nothing, evicts no block
with an outstanding transfer and no key of its own that passes the store threshold, and moves
nothing if it declines. The one failure of a sequence is a lookup in a tracker of size 0. -/
theorem residency_invariant (name : PolicyName) (numBlocks : ℕ) (enableEvents : Bool)
    (storeThreshold maxTrackerSize : ℕ) (ops : List (CPUOp K))
    (hops : AllMeet ops ⟨0, 0⟩ (init numBlocks enableEvents storeThreshold maxTrackerSize :
      CPUOffloadingManager K (PolicyState K name))) :
    (∃ t m, track ops ⟨0, 0⟩ (init numBlocks enableEvents storeThreshold maxTrackerSize :
        CPUOffloadingManager K (PolicyState K name)) = .ok (t, m) ∧
      m.resident.map (fun e => e.2.blockId) + ↑m.freeList +
          ↑(List.range' m.numAllocatedBlocks (numBlocks - m.numAllocatedBlocks)) =
        (↑(List.range numBlocks) : Multiset ℕ) ∧ (m.resident.map Prod.fst).Nodup ∧
      (∀ k b, m.get k = some b ↔ (k, b) ∈ m.resident) ∧
      m.numEvictableCacheBlocks = m.resident.countP (fun e => e.2.refCnt = 0) ∧
      m.numWritePendingBlocks = m.resident.countP (fun e => e.2.refCnt = -1) ∧
      (∀ e ∈ m.resident, t.Explains e) ∧
      (∀ k, k ∈ t.loads ∨ k ∈ t.stores → ∃ b, (k, b) ∈ m.resident) ∧
      ∀ ks : List K, ks.Nodup → ∃ out m', m.prepareStore ks = .ok (out, m') ∧
        (out = none → m'.policy = m.policy ∧ m'.freeList = m.freeList ∧
          m'.numAllocatedBlocks = m.numAllocatedBlocks) ∧ ∀ o ∈ out, ∀ k ∈ o.evictedKeys,
          k ∉ t.loads ∧ k ∉ t.stores ∧ (m.Counted k → k ∉ ks)) ∨
    track ops ⟨0, 0⟩ (init numBlocks enableEvents storeThreshold maxTrackerSize :
        CPUOffloadingManager K (PolicyState K name)) = .error .keyError ∧
      maxTrackerSize = 0 ∧ 2 ≤ storeThreshold := by
  rcases track_valid (valid_init numBlocks enableEvents storeThreshold maxTrackerSize) hops with
    ⟨t, m, hok, h, hconfig⟩ | ⟨herr, hsize, hcounts⟩
  · have hnum : m.numBlocks = numBlocks := congrArg Prod.fst hconfig
    refine Or.inl ⟨t, m, hok, ?_, nodup_keys h.consistent,
      fun k b => h.get_eq_some_iff, h.evictable, h.writePending, h.explained, h.held,
      fun ks hks => ?_⟩
    · have hle := h.allocated_le
      have hsplit := List.range'_append_1 (s := 0) (m := m.numAllocatedBlocks)
        (n := numBlocks - m.numAllocatedBlocks)
      rw [zero_add, Nat.add_sub_cancel' (hnum ▸ hle)] at hsplit
      rw [h.slots, coe_add, List.range_eq_range', List.range_eq_range', hsplit]
    · obtain ⟨out, m', hstore, -, hout⟩ := h.prepareStore hks
      refine ⟨out, m', hstore, hout.declined, fun o ho k hk => ?_⟩
      obtain ⟨hguard, hload, hstores, -⟩ := hout.evicted o ho k hk
      exact ⟨hload, hstores, fun hcounted hin => hguard ⟨hin, hcounted⟩⟩
  · refine Or.inr ⟨herr, hsize, ?_⟩
    by_contra hlow
    exact hcounts (if_neg hlow)

/-- With ARC, two blocks are stored, one of them is read, and the other one is evicted. -/
theorem residency_invariant_stored : ∃ t m, track [.prepareStore [0, 1], .completeStore [0, 1] true,
        .prepareLoad [0], .prepareStore [2]] ⟨0, 0⟩ (init 2 false 1 0 :
          CPUOffloadingManager ℕ (PolicyState ℕ .arc)) = .ok (t, m) ∧
      m.numEvictableCacheBlocks = m.resident.countP fun e => e.2.refCnt = 0 := by
  have hmeet : CPUOffloadingManager.AllMeet [.prepareStore [0, 1], .completeStore [0, 1] true,
      .prepareLoad [0], .prepareStore [2]] ⟨0, 0⟩ (init 2 false 1 0 :
        CPUOffloadingManager ℕ (PolicyState ℕ .arc)) := by
    decide +kernel
  rcases residency_invariant .arc 2 false 1 0 _ hmeet with ⟨t, m, hok, -, -, -, hev, -⟩ | hno
  · exact ⟨t, m, hok, hev⟩
  · exact absurd hno.2.2 (by decide)

/-- A key that the bounded tracker has forgotten is not protected: with room for one block, a
tracker of one key and a threshold of two, storing `0` and `1` evicts `0`. -/
theorem prepareStore_evicts_own_key :
    CPUOffloadingManager.AllMeet [.lookup 0, .lookup 0, .prepareStore [0], .completeStore [0] true,
      .lookup 1, .lookup 1, .prepareStore [0, 1]] ⟨0, 0⟩ (init 1 false 2 1 :
        CPUOffloadingManager ℕ (PolicyState ℕ .lru)) ∧
    ∃ t m, track [.lookup 0, .lookup 0, .prepareStore [0],
        .completeStore [0] true, .lookup 1, .lookup 1] ⟨0, 0⟩ (init 1 false 2 1 :
          CPUOffloadingManager ℕ (PolicyState ℕ .lru)) = .ok (t, m) ∧
      ∃ out m', m.prepareStore [0, 1] = .ok (some out, m') ∧ out.evictedKeys = [0] :=
  ⟨by decide +kernel, _, _, rfl, _, _, rfl, rfl⟩

end KVarN.Offload
