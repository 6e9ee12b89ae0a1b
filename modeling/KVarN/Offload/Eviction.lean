import KVarN.Offload.CachePolicy

/-!
# When eviction succeeds

A policy evicts `n` blocks or none. LRU finds them whenever enough idle blocks are outside the
protected set. ARC takes from its first part only while that part is not below its target size,
so that it can give up although the first part still has idle blocks.

## Main definitions

* `Reached` — the states of a policy.
* `T1Room` — the blocks are found without taking the first part below its target.

## Main results

* `evict_complete` — **eviction is complete** exactly where there is room.
* `arc_gives_up` — an idle block that ARC does not evict.
-/

namespace KVarN.Offload

open KVarN.Lib Dict CachePolicy Multiset
open KVarN.Core (bind_eq_ok orRaise_eq_ok assert_eq_ok)

variable {K : Type} [DecidableEq K]

/-- An idle block outside the protected set. -/
abbrev Evictable (ks : List K) (e : K × BlockStatus) : Prop := e.2.refCnt = 0 ∧ e.1 ∉ ks

/-- The states of a policy whose callers insert blocks that are not resident, remove blocks that
are, and tell the policy when a block becomes idle or ceases to be. -/
inductive Reached {σ : Type} [CachePolicy K σ] : σ → Prop
  | init (n : ℕ) : Reached (init K n)
  | insert {s} {k : K} (b : BlockStatus) : Reached s → get s k = none → Reached (insert s k b)
  | remove {s s' b} {k : K} : Reached s → get s k = some b → remove s k = .ok s' → Reached s'
  | touch {s} (ks : List K) : Reached s → Reached (touch s ks)
  | evict {s s' n out} {ks : List K} : Reached s → evict s n ks = .ok (some (out, s')) → Reached s'
  | acquire {s s' b b'} {k : K} : Reached s → get s k = some b → b.refCnt = 0 → b'.refCnt ≠ 0 →
      markNonEvictable s k = .ok s' → Reached (write s' k b')
  | write {s b b'} {k : K} : Reached s → get s k = some b → b.refCnt ≠ 0 → b'.refCnt ≠ 0 →
      Reached (write s k b')
  | release {s b b'} {k : K} : Reached s → get s k = some b → b.refCnt ≠ 0 → b'.refCnt = 0 →
      Reached (markEvictable (write s k b') k)

theorem LRUCachePolicy.insert_idle {s : LRUCachePolicy K} {k : K} {b : BlockStatus}
    (h : s.Consistent) (hb : b.refCnt = 0) : Consistent (insert s k b) := by
  intro k'
  simp only [CachePolicy.insert, if_pos hb, mem_set, get?_set]
  by_cases hk : k' = k
  · simp [hk, hb]
  · simpa [hk] using h k'

open LawfulCachePolicy in
/-- **Run**: the bookkeeping of both policies agrees with the reference counts. -/
theorem Reached.consistent {name : PolicyName} {s : PolicyState K name} (h : Reached (K := K) s) :
    Consistent K s := by
  induction h with
  | init n => exact init_consistent n
  | @insert s k b _ hnone ih =>
    by_cases hb : b.refCnt = 0
    · cases name with
      | lru => exact LRUCachePolicy.insert_idle ih hb
      | arc => exact (ARCCachePolicy.insert_spec ih hnone).1
    · exact (LawfulCachePolicy.insert ih hnone hb).1
  | remove _ hb hcall ih =>
    obtain ⟨s', hok, h', -⟩ := LawfulCachePolicy.remove ih hb
    cases hok.symm.trans hcall
    exact h'
  | touch ks _ ih => exact (LawfulCachePolicy.touch ks ih).1
  | evict _ hcall ih =>
    obtain hnone | ⟨out, s', hok, h', -⟩ := LawfulCachePolicy.evict _ _ ih
    · cases hnone.symm.trans hcall
    · cases hok.symm.trans hcall
      exact h'
  | acquire _ hb hzero hne hcall ih =>
    obtain ⟨s', hok, h', -⟩ := LawfulCachePolicy.acquire ih hb hzero hne
    cases hok.symm.trans hcall
    exact h'
  | write _ hb hne hne' ih => exact (LawfulCachePolicy.write ih hb hne hne').1
  | release _ hb hne hzero ih => exact (LawfulCachePolicy.release ih hb hne hzero).1

/-! ## LRU -/

namespace LRUCachePolicy

/-- The scan stops early only where there are `n` candidates. -/
theorem length_scan {blocks : Dict K BlockStatus} {protected_ ks : List K} {n : ℕ}
    {out : List (K × BlockStatus)} (h : scan blocks protected_ n ks = .ok out) :
    out.length = min n (ks.countP (· ∉ protected_)) := by
  induction ks generalizing n out with
  | nil => cases n <;> cases h <;> simp
  | cons k ks ih =>
    cases n with
    | zero =>
      cases h
      simp
    | succ n =>
      rw [scan] at h
      split at h
      next hp => simpa [hp] using ih h
      next hp =>
        simp only [bind_eq_ok, orRaise_eq_ok, assert_eq_ok] at h
        obtain ⟨b, -, -, -, rest, hrest, hout⟩ := h
        cases hout
        simp [hp, ih hrest]

theorem card_evictable {s : LRUCachePolicy K} (h : s.Consistent) (ks : List K) :
    s.blocks.entries.countP (Evictable ks ·) = s.evictableBlocks.keys.countP (· ∉ ks) := by
  have hperm : ((s.blocks.entries.filter (Evictable ks ·)).map Prod.fst).Perm
      (s.evictableBlocks.keys.filter (· ∉ ks)) := by
    refine (List.perm_ext_iff_of_nodup ((List.filter_sublist.map _).nodup s.blocks.nodup)
      (s.evictableBlocks.nodup_keys.filter _)).2 fun k => ?_
    rw [List.mem_filter, ← mem_def, h k]
    simp only [List.mem_map, List.mem_filter, get?_eq_some_iff, decide_eq_true_eq]
    constructor
    · rintro ⟨e, ⟨hb, hzero, hk⟩, rfl⟩
      exact ⟨⟨e.2, hb, hzero⟩, hk⟩
    · rintro ⟨⟨b, hb, hzero⟩, hk⟩
      exact ⟨(k, b), ⟨hb, hzero, hk⟩, rfl⟩
  rw [List.countP_eq_length_filter, List.countP_eq_length_filter, ← hperm.length_eq,
    List.length_map]

theorem lt_of_evict_eq_none {s : LRUCachePolicy K} (h : s.Consistent) {n : ℕ} {ks : List K}
    (hnone : s.evict n ks = .ok none) : s.blocks.entries.countP (Evictable ks ·) < n := by
  rw [evict] at hnone
  split at hnone
  · cases hnone
  · obtain ⟨out, hscan, hnone⟩ := bind_eq_ok.1 hnone
    have hlen := length_scan hscan
    split at hnone
    · rw [card_evictable h]
      omega
    · cases hnone

end LRUCachePolicy

/-! ## ARC -/

namespace ARCCachePolicy

/-- A scan finds a candidate if there is one. -/
theorem countP_nextCandidate (ks : List K) (l : List (K × BlockStatus)) :
    l.countP (Evictable ks ·) = (nextCandidate ks l).1.elim 0 fun _ =>
      (nextCandidate ks l).2.countP (Evictable ks ·) + 1 := by
  induction l with
  | nil => rfl
  | cons e l ih =>
    by_cases he : Evictable ks e
    · rw [List.countP_cons_of_pos (by simpa using he), nextCandidate, if_pos he]
      rfl
    · rw [List.countP_cons_of_neg (by simpa using he), nextCandidate, if_neg he]
      exact ih

/-- The selection finds `n` blocks exactly if the second part has them, together with those of
the first that do not take it below its target. -/
theorem pick_ne_none_iff {ks : List K} {target : ℤ} {n v : ℕ} {l1 l2 : List (K × BlockStatus)}
    (hv : l1.countP (Evictable ks ·) ≤ v) : pick ks target n v l1 l2 ≠ none ↔
      n ≤ l2.countP (Evictable ks ·) + min (l1.countP (Evictable ks ·)) (v + 1 - target).toNat := by
  induction n generalizing v l1 l2 with
  | zero => simp [pick]
  | succ n ih =>
    have h1 := countP_nextCandidate ks l1
    have h2 := countP_nextCandidate ks l2
    rw [pick]
    rcases hr1 : (if target ≤ v then nextCandidate ks l1 else (none, l1)) with ⟨_ | e, l1'⟩
    · -- the second part is asked where the first one gives nothing
      have hle : l1'.countP (Evictable ks ·) ≤ l1.countP (Evictable ks ·) ∧
          min (l1.countP (Evictable ks ·)) (v + 1 - target).toNat = 0 := by
        split_ifs at hr1 with htarget
        · have hsub := (nextCandidate_spec ks l1).1.countP_le (p := (Evictable ks ·))
          simp only [hr1, Option.elim_none] at h1 hsub
          omega
        · cases hr1
          omega
      rcases hr2 : nextCandidate ks l2 with ⟨_ | e, l2'⟩
      · simp only [hr2, Option.elim_none] at h2
        simp only [ne_eq, not_true, false_iff]
        omega
      · simp only [hr2, Option.elim_some] at h2
        simp only [ne_eq, Option.map_eq_none_iff]
        rw [← ne_eq, ih (by omega)]
        omega
    · split_ifs at hr1 with htarget
      · simp only [hr1, Option.elim_some] at h1
        simp only [ne_eq, Option.map_eq_none_iff]
        rw [← ne_eq, ih (by omega)]
        omega
      · cases hr1

/-- ARC gives up where idle blocks are missing, or are in the first part below its target. -/
theorem evict_eq_none_iff {s : ARCCachePolicy K} {n : ℕ} {ks : List K} : s.evict n ks = none ↔
    (n ≤ s.t1.entries.countP (Evictable ks ·) + s.t2.entries.countP (Evictable ks ·) →
      ¬ n ≤ s.t2.entries.countP (Evictable ks ·) +
        (s.t1.entries.length + 1 - s.targetT1Size.floor).toNat) := by
  rw [evict]
  split
  · simp
    omega
  · have hpick : pick ks s.targetT1Size.floor n s.t1.entries.length s.t1.entries s.t2.entries
        ≠ none ↔ _ := pick_ne_none_iff List.countP_le_length
    split
    next hnone =>
      rw [hnone] at hpick
      simp only [ne_eq, not_true, false_iff] at hpick
      simp only [true_iff]
      omega
    next hsome =>
      rw [hsome] at hpick
      simp only [ne_eq, reduceCtorEq, not_false_eq_true, true_iff] at hpick
      simp only [reduceCtorEq, false_iff]
      omega

end ARCCachePolicy

/-! ## Both policies -/

/-- ARC finds `n` blocks in its second part and those of the first part down to its target. -/
def T1Room (n : ℕ) (ks : List K) : {name : PolicyName} → PolicyState K name → Prop
  | .lru, _ => True
  | .arc, (s : ARCCachePolicy K) => n ≤ s.t2.entries.countP (Evictable ks ·) +
      (s.t1.entries.length + 1 - s.targetT1Size.floor).toNat

section

open LawfulCachePolicy

/-- What is evicted was idle. -/
theorem le_card_of_evict {name : PolicyName} {s s' : PolicyState K name} {ks : List K}
    {out : List (K × BlockStatus)} (hheld : held s = (out : Multiset (K × BlockStatus)) + held s')
    (hout : ∀ e ∈ out, Evictable ks e) : out.length ≤ ((held s).filter (Evictable ks)).card := by
  rw [hheld, filter_add, filter_eq_self.2 hout, card_add]
  exact Nat.le_add_right _ _

theorem evict_eq_none_iff {name : PolicyName} {s : PolicyState K name} (hc : Consistent K s)
    {n : ℕ} {ks : List K} : evict s n ks = .ok none ↔
      (n ≤ ((held s).filter (Evictable ks)).card → ¬ T1Room n ks s) := by
  rw [← countP_eq_card_filter]
  cases name with
  | lru =>
    constructor
    · intro hnone hle
      exact absurd hle (not_le.2 (LRUCachePolicy.lt_of_evict_eq_none hc hnone))
    · intro hfew
      obtain hnone | ⟨out, s', -, -, hlen, hheld, hout⟩ := LawfulCachePolicy.evict n ks hc
      · exact hnone
      · have hle := le_card_of_evict hheld hout
        rw [← countP_eq_card_filter, hlen] at hle
        exact absurd trivial (hfew hle)
  | arc =>
    have hheld : countP (Evictable ks) (held s) = countP (Evictable ks) _ + _ := countP_add _ _ _
    rw [hheld]
    constructor
    · intro hnone
      exact ARCCachePolicy.evict_eq_none_iff.1 (Except.ok.inj hnone)
    · intro hfew
      exact congrArg Except.ok (ARCCachePolicy.evict_eq_none_iff.2 hfew)

/-- **Eviction is complete**, that is, it takes `n` idle blocks that are not protected, and
nothing else, where there are so many, and does nothing where there are not, exactly if there
is room in the first part of ARC. -/
theorem evict_complete {name : PolicyName} {s : PolicyState K name} (hs : Reached (K := K) s)
    (n : ℕ) (ks : List K) :
    ((n ≤ ((held s).filter (Evictable ks)).card →
        ∃ out s', evict s n ks = .ok (some (out, s')) ∧ out.length = n ∧
          (out.map Prod.fst).Nodup ∧ (∀ e ∈ out, Evictable ks e) ∧
          held s = (out : Multiset (K × BlockStatus)) + held s') ∧
      (((held s).filter (Evictable ks)).card < n → evict s n ks = .ok none)) ↔
    (n ≤ ((held s).filter (Evictable ks)).card → T1Room n ks s) := by
  have hc := hs.consistent
  have hiff : evict s n ks = .ok none ↔ _ := evict_eq_none_iff hc
  obtain hnone | ⟨out, s', hok, -, hlen, hheld, hout⟩ := LawfulCachePolicy.evict n ks hc
  · constructor
    · intro h hle
      obtain ⟨out, s', hok, -⟩ := h.1 hle
      cases hnone.symm.trans hok
    · intro hroom
      exact ⟨fun hle => absurd (hroom hle) (hiff.1 hnone hle), fun _ => hnone⟩
  · have hnodup : (out.map Prod.fst).Nodup := by
      have hkeys := nodup_keys hc
      rw [hheld, map_add] at hkeys
      exact (nodup_add.1 hkeys).1
    constructor
    · intro _ hle
      by_contra hroom
      cases hok.symm.trans (hiff.2 fun _ => hroom)
    · intro _
      refine ⟨fun _ => ⟨out, s', hok, hlen, hnodup, hout, hheld⟩, fun hlt => ?_⟩
      have := le_card_of_evict hheld hout
      omega

end

/-- A block is written and becomes idle. -/
def store {name : PolicyName} (s : PolicyState ℕ name) (k : ℕ) : PolicyState ℕ name :=
  markEvictable (write (insert s k ⟨-1, k⟩) k ⟨0, k⟩) k

/-- Three idle blocks, of which block 2 is used again. -/
def stored (name : PolicyName) : PolicyState ℕ name :=
  touch (store (store (store (init ℕ 4) 1) 2) 3) [2]

theorem reached_store_init (name : PolicyName) :
    Reached (K := ℕ) (store (init ℕ 4 : PolicyState ℕ name) 1) := by
  cases name <;> exact .release (b := ⟨-1, 1⟩) (.insert _ (.init 4) rfl) rfl (by decide) rfl

theorem reached_stored (name : PolicyName) : Reached (K := ℕ) (stored name) := by
  cases name <;>
    exact .touch _ (.release (b := ⟨-1, 3⟩) (.insert _ (.release (b := ⟨-1, 2⟩)
      (.insert _ (reached_store_init _) rfl) rfl (by decide) rfl) rfl) rfl (by decide) rfl)

theorem evict_complete_stored : ∃ out s', evict (stored .arc) 2 [3] =
    .ok (some (out, s')) ∧ out.length = 2 ∧ (out.map Prod.fst).Nodup ∧
      (∀ e ∈ out, Evictable [3] e) ∧ LawfulCachePolicy.held (stored .arc) =
        (out : Multiset (ℕ × BlockStatus)) + LawfulCachePolicy.held s' :=
  ((evict_complete (reached_stored .arc) 2 [3]).2
    fun _ => by unfold T1Room; decide +kernel).1 (by decide +kernel)

/-- Block 1 was evicted from the first part and is asked for twice, which raises the target to
two blocks: the idle block 2, alone in the first part, is not evicted. -/
theorem arc_gives_up : ∃ s : PolicyState ℕ .arc, Reached (K := ℕ) s ∧
    1 ≤ ((LawfulCachePolicy.held s).filter (Evictable ([] : List ℕ))).card ∧
    evict s 1 ([] : List ℕ) = .ok none := by
  have hevict : evict (store (init ℕ 4 : PolicyState ℕ .arc) 1) 1 ([] : List ℕ) =
    .ok (some (_, _)) := rfl
  refine ⟨_, .insert (k := 2) ⟨0, 1⟩ (.touch [1, 1] (.evict (reached_store_init .arc) hevict)) rfl,
    by decide +kernel, congrArg Except.ok (Option.isNone_iff_eq_none.1 ?_)⟩
  decide +kernel

end KVarN.Offload
