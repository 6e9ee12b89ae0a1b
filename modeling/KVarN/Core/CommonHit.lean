import KVarN.Core.HitSearch

/-!
# The common cache hit of several groups

The hybrid coordinator asks each kind of attention in turn to accept the candidate
length or to shorten it, until a pass over all of them changes nothing. Valid lengths
are not closed downwards for windows and states, so this is a descent to the greatest
length at which every group has a hit.

The blocks of full attention are looked up once and trimmed at the end, but only those of
the first spec: those of a second full-attention spec may be longer than the hit.

## Main definitions

* `KVCacheManager.groupProbe` — the lookup of one group alone.
* `KVCacheManager.Stored` — what the reconciliation knows about the hits it keeps.
* `KVCacheManager.Returns`, `KVCacheManager.Exact` — what a lookup should return, and where.

## Main results

* `KVCacheManager.reconcile_spec` — the descent ends at the greatest common hit of the specs.
* `KVCacheManager.findLongestCacheHitHybrid_greatest` — the lookup is right exactly there.
-/

namespace KVarN.Core

open KVarN.Lib Probe HashIndex List

variable {H : Type}

/-! ## Lookups of one and of several groups -/

theorem BlockPool.isSome_getCachedBlock (p : BlockPool H) (h : H) (ids : List ℕ) :
    (p.getCachedBlock h ids).isSome = true ↔ ∀ i ∈ ids, (p.getCachedBlock h [i]).isSome = true := by
  induction ids with
  | nil => simp [getCachedBlock]
  | cons i ids ih =>
    have hone : (p.getCachedBlock h [i]).isSome = (p.index.getOneBlock (h, i)).isSome := by
      cases hb : p.index.getOneBlock (h, i) <;> simp [getCachedBlock, hb, pure]
    rw [forall_mem_cons, ← ih, getCachedBlock_cons, hone]
    cases p.index.getOneBlock (h, i) <;> cases p.getCachedBlock h ids <;> simp

/-- The block of one group in a row. -/
theorem BlockPool.getD_of_getCachedBlock {p : BlockPool H} {h : H} {ids : List ℕ} {row : Row}
    {i : ℕ} (hrow : p.getCachedBlock h ids = some row) (hi : i ∈ ids) :
    p.getCachedBlock h [i] = some [row.getD (ids.idxOf i) nullBlock] := by
  induction ids generalizing row with
  | nil => cases hi
  | cons j ids ih =>
    simp only [getCachedBlock_cons, Option.bind_eq_some_iff, Option.some.injEq] at hrow
    obtain ⟨b, hb, bs, hbs, rfl⟩ := hrow
    rcases eq_or_ne i j with rfl | hne
    · simp [getCachedBlock, hb, pure]
    · rw [idxOf_cons_ne _ hne.symm]
      simpa using ih hbs ((mem_cons.1 hi).resolve_left hne)

namespace KVCacheManager

/-- The lookup of one group alone. -/
def groupProbe (cfg : KVCacheConfig) (s : KVCacheManager H) (hashes : List H) (i : ℕ) (g : Group) :
    Probe H where
  groupIds := [i]
  hashes := hashes
  hashBlockSize := cfg.hashBlockSize
  blockSize := g.blockSize
  alignmentTokens := cacheHitAlignmentTokens cfg s

section SpecGroups

variable {cfg : KVCacheConfig} {s : KVCacheManager H} {hashes : List H}

/-- What the spec groups are, after the groups in `done` were added. -/
structure Split (done : List (Managed H × ℕ)) (as : List SpecGroup) : Prop where
  rep : ∀ a ∈ as, ∃ x ∈ done, x.1.1 = a.rep
  members : ∀ a ∈ as, ∀ i ∈ a.groupIds, ∃ x ∈ done, x.2 = i ∧ x.1.1.spec = a.rep.spec ∧
    x.1.1.blockSize = a.rep.blockSize ∧ (x.1.1.useEagle = true → a.useEagle = true)
  nonempty : ∀ a ∈ as, a.groupIds ≠ []
  eagle : ∀ a ∈ as, a.useEagle = true → ∃ x ∈ done, x.1.1.useEagle = true
  perm : (as.flatMap SpecGroup.groupIds).Perm (done.map Prod.snd)

variable {as : List SpecGroup}

theorem mem_joinSpecGroup {g : Group} {i : ℕ} {b : SpecGroup} (h : b ∈ joinSpecGroup g i as) :
    b ∈ as ∨ b = ⟨g, [i], g.useEagle⟩ ∨ ∃ a ∈ as, a.rep.spec = g.spec ∧
      a.rep.blockSize = g.blockSize ∧ b = { a with
        groupIds := a.groupIds ++ [i]
        useEagle := a.useEagle || g.useEagle } := by
  induction as with
  | nil => exact .inr (.inl (by simpa [joinSpecGroup] using h))
  | cons a as ih =>
    rw [joinSpecGroup] at h
    split at h
    · next hsame =>
      rcases mem_cons.1 h with rfl | h
      · exact .inr (.inr ⟨a, mem_cons_self, hsame.1, hsame.2.2, rfl⟩)
      · exact .inl (mem_cons_of_mem _ h)
    · rcases mem_cons.1 h with rfl | h
      · exact .inl mem_cons_self
      · rcases ih h with h | h | ⟨a', ha', h⟩
        · exact .inl (mem_cons_of_mem _ h)
        · exact .inr (.inl h)
        · exact .inr (.inr ⟨a', mem_cons_of_mem _ ha', h⟩)

theorem flatMap_joinSpecGroup (g : Group) (i : ℕ) (as : List SpecGroup) :
    ((joinSpecGroup g i as).flatMap SpecGroup.groupIds).Perm
      (as.flatMap SpecGroup.groupIds ++ [i]) := by
  induction as with
  | nil => simp [joinSpecGroup]
  | cons a as ih =>
    rw [joinSpecGroup]
    split
    · simp only [flatMap_cons, append_assoc]
      exact perm_append_comm.append_left _
    · simp only [flatMap_cons, append_assoc]
      exact ih.append_left _

theorem Split.join {done : List (Managed H × ℕ)} (h : Split done as)
    (x : Managed H × ℕ) : Split (done ++ [x]) (joinSpecGroup x.1.1 x.2 as) := by
  have hx : x ∈ done ++ [x] := mem_append_right _ (mem_singleton_self x)
  have hdone {y : Managed H × ℕ} (hy : y ∈ done) : y ∈ done ++ [x] := mem_append_left _ hy
  refine ⟨?_, ?_, ?_, ?_, ?_⟩
  · intro b hb
    rcases mem_joinSpecGroup hb with hb | rfl | ⟨a, ha, -, -, rfl⟩
    · obtain ⟨y, hy, he⟩ := h.rep b hb
      exact ⟨y, hdone hy, he⟩
    · exact ⟨x, hx, rfl⟩
    · obtain ⟨y, hy, he⟩ := h.rep a ha
      exact ⟨y, hdone hy, he⟩
  · intro b hb i hi
    rcases mem_joinSpecGroup hb with hb | rfl | ⟨a, ha, hspec, hsize, rfl⟩
    · obtain ⟨y, hy, he⟩ := h.members b hb i hi
      exact ⟨y, hdone hy, he⟩
    · obtain rfl := mem_singleton.1 hi
      exact ⟨x, hx, rfl, rfl, rfl, id⟩
    · rcases mem_append.1 hi with hi | hi
      · obtain ⟨y, hy, hyi, hs, hb, he⟩ := h.members a ha i hi
        exact ⟨y, hdone hy, hyi, hs, hb, fun hu => by simp [he hu]⟩
      · obtain rfl := mem_singleton.1 hi
        exact ⟨x, hx, rfl, hspec.symm, hsize.symm, fun hu => by simp [hu]⟩
  · intro b hb
    rcases mem_joinSpecGroup hb with hb | rfl | ⟨a, ha, -, -, rfl⟩
    · exact h.nonempty b hb
    · simp
    · simp
  · intro b hb hu
    rcases mem_joinSpecGroup hb with hb | rfl | ⟨a, ha, -, -, rfl⟩
    · obtain ⟨y, hy, he⟩ := h.eagle b hb hu
      exact ⟨y, hdone hy, he⟩
    · exact ⟨x, hx, hu⟩
    · simp only [Bool.or_eq_true] at hu
      rcases hu with hu | hu
      · obtain ⟨y, hy, he⟩ := h.eagle a ha hu
        exact ⟨y, hdone hy, he⟩
      · exact ⟨x, hx, hu⟩
  · rw [map_append]
    exact (flatMap_joinSpecGroup _ _ _).trans (h.perm.append_right _)

theorem Split.foldl {done todo : List (Managed H × ℕ)} (h : Split done as) :
    Split (done ++ todo) (todo.foldl (fun as x => joinSpecGroup x.1.1 x.2 as) as) := by
  induction todo generalizing done as with
  | nil => simpa using h
  | cons x todo ih =>
    have := ih (h.join x)
    rwa [append_assoc, singleton_append] at this

/-- **The spec groups of a coordinator** partition its groups by their specs. -/
theorem split_attentionGroups (s : KVCacheManager H) :
    Split s.managers.zipIdx s.attentionGroups := by
  have hnil : Split ([] : List (Managed H × ℕ)) [] :=
    ⟨by simp, by simp, by simp, by simp, by simp⟩
  have h : Split s.managers.zipIdx _ := hnil.foldl
  have hmem (a : SpecGroup) : a ∈ s.attentionGroups ↔
      a ∈ s.managers.zipIdx.foldl (fun as x => joinSpecGroup x.1.1 x.2 as) [] := by
    simp only [attentionGroups, mem_append, mem_filter]
    cases a.rep.isFullAttention <;> simp
  refine ⟨fun a ha => h.rep a ((hmem a).1 ha), fun a ha => h.members a ((hmem a).1 ha),
    fun a ha => h.nonempty a ((hmem a).1 ha), fun a ha => h.eagle a ((hmem a).1 ha), ?_⟩
  exact ((filter_append_perm _ _).flatMap_right _).trans h.perm

/-- Every group is in one spec group. -/
theorem exists_mem_attentionGroups {i : ℕ} {gm : Managed H} (h : s.managers[i]? = some gm) :
    ∃ a ∈ s.attentionGroups, i ∈ a.groupIds := by
  rw [← mem_flatMap, (split_attentionGroups s).perm.mem_iff]
  exact mem_map.2 ⟨(gm, i), mem_zipIdx_iff_getElem?.2 h, rfl⟩

theorem nodup_groupIds (s : KVCacheManager H) :
    (s.attentionGroups.flatMap SpecGroup.groupIds).Nodup := by
  rw [(split_attentionGroups s).perm.nodup_iff, zipIdx_map_snd]
  exact nodup_range'

/-- Full attention comes first. -/
theorem isFullAttention_of_le {i j : ℕ} {a b : SpecGroup} (hij : i ≤ j)
    (ha : s.attentionGroups[i]? = some a) (hb : s.attentionGroups[j]? = some b)
    (hfull : b.rep.isFullAttention = true) : a.rep.isFullAttention = true := by
  have hsorted : s.attentionGroups.Pairwise fun a b =>
      b.rep.isFullAttention = true → a.rep.isFullAttention = true := by
    rw [attentionGroups, pairwise_append]
    refine ⟨?_, ?_, fun a ha b hb _ => (mem_filter.1 ha).2⟩
    · exact pairwise_of_forall_mem_list fun a ha b hb _ => (mem_filter.1 ha).2
    · refine pairwise_of_forall_mem_list fun a ha b hb hfull => ?_
      have := (mem_filter.1 hb).2
      simp [hfull] at this
  obtain ⟨hi, rfl⟩ := List.getElem?_eq_some_iff.1 ha
  obtain ⟨hj, rfl⟩ := List.getElem?_eq_some_iff.1 hb
  rcases hij.eq_or_lt with rfl | hlt
  · exact hfull
  · exact pairwise_iff_getElem.1 hsorted i j hi hj hlt hfull

end SpecGroups

/-! ## The descent -/

section Descent

variable (cfg : KVCacheConfig) (s : KVCacheManager H) (hashes : List H)

/-- The lookup of a spec group at its own block size. -/
abbrev specProbe (a : SpecGroup) : Probe H := probe cfg s hashes a a.rep.blockSize

/-- A length at which the search of every spec group has a hit. -/
def Common (as : List SpecGroup) (L : ℕ) : Prop :=
  cacheHitAlignmentTokens cfg s ∣ L ∧
    ∀ a ∈ as, (specProbe cfg s hashes a).Valid s.pool a.rep.spec.searched L

/-- Spec groups without EAGLE whose hits end at block boundaries, for a request with
enough hashes. -/
structure Plain (as : List SpecGroup) (maxLength : ℕ) : Prop where
  coarse : ∀ a ∈ as, (specProbe cfg s hashes a).Coarse
  plain : ∀ a ∈ as, a.rep.spec.Plain
  no_eagle : ∀ a ∈ as, a.useEagle = false
  hashed : ∀ a ∈ as, (specProbe cfg s hashes a).Hashed (maxLength / a.rep.blockSize)

/-- What is known during the descent: no common hit was passed, and the hits that are kept
are valid. -/
structure Stored (as : List SpecGroup) (maxLength : ℕ) (st : Reconciling) : Prop where
  le : st.currHitLength ≤ maxLength
  above : ∀ L, Common cfg s hashes as L → L ≤ maxLength → L ≤ st.currHitLength
  hits : ∀ idx a hit, as[idx]? = some a → st.hits idx = some hit →
    (specProbe cfg s hashes a).alignmentTokens ∣ hit.hitLength ∧
    (specProbe cfg s hashes a).Valid s.pool a.rep.spec.searched hit.hitLength ∧
    hit.rows = (specProbe cfg s hashes a).rowsFor s.pool a.rep.spec.searched hit.hitLength ∧
    ∀ L, Common cfg s hashes as L → L ≤ maxLength → L ≤ hit.hitLength

variable {cfg s hashes} {as : List SpecGroup} {maxLength idx : ℕ} {a : SpecGroup}
  {st : Reconciling}

/-- The blocks of full attention are those below the hit. -/
theorem needs_of_isFullAttention {g : Group} (h : g.isFullAttention = true) (bs L i : ℕ) :
    g.spec.searched.Needs bs L i ↔ i * bs < L := by
  rw [Group.isFullAttention] at h
  cases hspec : g.spec <;> simp_all [KVCacheSpec.Needs, KVCacheSpec.searched]

/-- Hits of full attention are closed downwards. -/
theorem Valid.mono {L L' : ℕ} (hfull : a.rep.isFullAttention = true) (hle : L ≤ L')
    (h : (specProbe cfg s hashes a).Valid s.pool a.rep.spec.searched L') :
    (specProbe cfg s hashes a).Valid s.pool a.rep.spec.searched L := by
  intro i hi
  rw [needs_of_isFullAttention hfull] at hi
  exact h i ((needs_of_isFullAttention hfull _ _ _).2 (hi.trans_le hle))

/-- What one spec group's turn leaves. -/
structure Turned (cfg : KVCacheConfig) (s : KVCacheManager H) (hashes : List H) (idx : ℕ)
    (a : SpecGroup) (st st' : Reconciling) (hit : CacheHit) : Prop where
  hit_eq : st'.hits idx = some hit
  frame : ∀ k ≠ idx, st'.hits k = st.hits k
  kept : ∀ h, a.rep.isFullAttention = true → st.hits idx = some h → hit = h
  curr_le : st'.currHitLength ≤ st.currHitLength
  curr_le_hit : st'.currHitLength ≤ hit.hitLength
  eq_hit : a.rep.isFullAttention = false → hit.hitLength = st'.currHitLength
  longest_le : st.longestHitLength ≤ st'.longestHitLength
  longest_eq : st.currHitLength ≤ st.longestHitLength → st'.longestHitLength = st.longestHitLength
  curr_le_longest : st.hits idx = none → st'.currHitLength ≤ st'.longestHitLength
  finds : st.hits idx = none → hit.hitLength = st'.currHitLength ∧
    IsGreatest ((specProbe cfg s hashes a).Hits s.pool a.rep.spec.searched st.currHitLength)
      st'.currHitLength

/-- **A turn without EAGLE**: the kept hit of full attention, or a new search below the
current length. -/
theorem reconcileGroup_spec (hp : Plain cfg s hashes as maxLength) (ha : as[idx]? = some a)
    (h : Stored cfg s hashes as maxLength st)
    (haligned : cacheHitAlignmentTokens cfg s ∣ st.currHitLength ∨ st.hits idx = none) :
    ∃ st' hit, reconcileGroup cfg s hashes maxLength idx a st = .ok st' ∧
      Turned cfg s hashes idx a st st' hit ∧ Stored cfg s hashes as maxLength st' ∧
      cacheHitAlignmentTokens cfg s ∣ st'.currHitLength := by
  have hmem := mem_of_getElem? ha
  rw [reconcileGroup]
  cases hcase : (if a.rep.isFullAttention then st.hits idx else none) with
  | some hit =>
    have hfull : a.rep.isFullAttention = true := by
      by_contra hf
      rw [if_neg hf] at hcase
      cases hcase
    rw [if_pos hfull] at hcase
    obtain ⟨hdvd, hvalid, hrows, hmax⟩ := h.hits idx a hit ha hcase
    have hkept (hnone : st.hits idx = none) : False := by
      rw [hcase] at hnone
      cases hnone
    refine ⟨_, hit, rfl, ⟨hcase, fun _ _ => rfl, ?_, min_le_left _ _, min_le_right _ _, ?_,
      le_rfl, fun _ => rfl, fun hnone => (hkept hnone).elim, fun hnone => (hkept hnone).elim⟩,
      ⟨(min_le_left _ _).trans h.le, ?_, h.hits⟩, ?_⟩
    · intro h' _ hh
      rw [hcase] at hh
      exact Option.some.inj hh
    · intro hf
      rw [hf] at hfull
      cases hfull
    · exact fun L hL hLmax => le_min (h.above L hL hLmax) (hmax L hL hLmax)
    · have hcur := haligned.resolve_right (by simp [hcase])
      show cacheHitAlignmentTokens cfg s ∣ min st.currHitLength hit.hitLength
      rcases min_choice st.currHitLength hit.hitLength with he | he <;> rw [he]
      · exact hcur
      · exact hdvd
  | none =>
    have hno := hp.no_eagle a hmem
    obtain ⟨hit, hfind, ⟨⟨hdvd, hvalid, hle⟩, hmax⟩, hrows⟩ :
        ∃ hit, a.rep.findLongestCacheHit s.pool (specProbe cfg s hashes a) st.currHitLength false
          (if a.rep.isFullAttention then cfg.dcpWorldSize else 1) = .ok hit ∧
          (specProbe cfg s hashes a).Finds s.pool a.rep.spec.searched st.currHitLength hit :=
      Group.finds_findLongestCacheHit (hp.plain a hmem) (hp.coarse a hmem)
        (fun i hi => hp.hashed a hmem i (hi.trans_le (Nat.div_le_div_right h.le)))
        (fun hf => by simp [hf]) s.pool
    have hmax' : ∀ L, Common cfg s hashes as L → L ≤ maxLength → L ≤ hit.hitLength :=
      fun L hL hLmax => hmax ⟨hL.1, hL.2 a hmem, h.above L hL hLmax⟩
    simp only [hno, Bool.false_and, Bool.false_eq_true, false_and, if_false, hfind]
    refine ⟨_, hit, rfl, ⟨by simp, fun k hk => by simp [hk], ?_, hle, le_rfl, fun _ => rfl,
      le_max_left _ _, fun hlong => max_eq_left (hle.trans hlong), fun _ => le_max_right _ _,
      fun _ => ⟨rfl, ⟨hdvd, hvalid, hle⟩, hmax⟩⟩,
      ⟨hle.trans h.le, hmax', ?_⟩, hdvd⟩
    · intro h' hf hh
      rw [if_pos hf, hh] at hcase
      cases hcase
    · intro k b hit' hb hhit'
      rcases eq_or_ne k idx with rfl | hne
      · obtain rfl := Option.some.inj (ha.symm.trans hb)
        simp only [Function.update_self, Option.some.injEq] at hhit'
        subst hhit'
        exact ⟨hdvd, hvalid, hrows, hmax'⟩
      · simp only [Function.update_of_ne hne] at hhit'
        exact h.hits k b hit' hb hhit'

/-- What a pass over the spec groups `l`, which start at position `idx`, leaves. -/
structure Passed (cfg : KVCacheConfig) (s : KVCacheManager H) (hashes : List H) (idx : ℕ)
    (l : List SpecGroup) (st st' : Reconciling) : Prop where
  frame : ∀ k < idx, st'.hits k = st.hits k
  kept : ∀ k a hit, l[k]? = some a → a.rep.isFullAttention = true →
    st.hits (idx + k) = some hit → st'.hits (idx + k) = some hit
  curr_le : st'.currHitLength ≤ st.currHitLength
  hits : ∀ k a, l[k]? = some a → ∃ hit, st'.hits (idx + k) = some hit ∧
    st'.currHitLength ≤ hit.hitLength ∧ (a.rep.isFullAttention = false →
      st'.currHitLength = st.currHitLength ∨ k + 1 = l.length → hit.hitLength = st'.currHitLength)
  longest_eq : st.currHitLength ≤ st.longestHitLength → st'.longestHitLength = st.longestHitLength
  curr_le_longest : l ≠ [] → (∀ k, st.hits (idx + k) = none) →
    st'.currHitLength ≤ st'.longestHitLength
  finds : (∀ k, st.hits (idx + k) = none) → ∀ k < l.length,
    (∀ a ∈ l.take (k + 1), a.rep.isFullAttention = true) → ∃ hit, st'.hits (idx + k) = some hit ∧
      IsGreatest {L | L ≤ st.currHitLength ∧ Common cfg s hashes (l.take (k + 1)) L} hit.hitLength

/-- **A pass without EAGLE.** -/
theorem reconcilePass_spec {done l : List SpecGroup} (hp : Plain cfg s hashes as maxLength)
    (has : as = done ++ l) (h : Stored cfg s hashes as maxLength st)
    (haligned : cacheHitAlignmentTokens cfg s ∣ st.currHitLength ∨
      ∀ k, st.hits (done.length + k) = none) :
    ∃ st', reconcilePass cfg s hashes maxLength done.length l st = .ok st' ∧
      Passed cfg s hashes done.length l st st' ∧ Stored cfg s hashes as maxLength st' ∧
      (l ≠ [] → cacheHitAlignmentTokens cfg s ∣ st'.currHitLength) := by
  induction l generalizing done st with
  | nil =>
    exact ⟨st, rfl, ⟨fun _ _ => rfl, by simp, le_rfl, by simp, fun _ => rfl, by simp, by simp⟩, h,
      by simp⟩
  | cons a l ih =>
    have ha : as[done.length]? = some a := by simp [has]
    obtain ⟨st₁, hit, hturn, ht, h₁, hd₁⟩ := reconcileGroup_spec hp ha h
      (haligned.imp id fun hnone => by simpa using hnone 0)
    have hlen : (done ++ [a]).length = done.length + 1 := by simp
    obtain ⟨st', hpass, hq, h', hd'⟩ := @ih st₁ (done ++ [a]) (by simp [has]) h₁ (.inl hd₁)
    rw [hlen] at hpass hq
    have hhit : st'.hits done.length = some hit := by
      rw [hq.frame _ (Nat.lt_succ_self _), ht.hit_eq]
    have hlast : l = [] → st' = st₁ := by
      rintro rfl
      cases hpass
      rfl
    refine ⟨st', bind_eq_ok.2 ⟨st₁, hturn, hpass⟩, ⟨?_, ?_, hq.curr_le.trans ht.curr_le, ?_, ?_, ?_,
      ?_⟩, h', fun _ => ?_⟩
    · intro k hk
      rw [hq.frame k (by omega), ht.frame k (by omega)]
    · intro k b hit' hb hf hh
      cases k with
      | zero =>
        obtain rfl : a = b := by simpa using hb
        rw [Nat.add_zero] at hh ⊢
        rw [hhit, ht.kept hit' hf hh]
      | succ k =>
        rw [← Nat.add_assoc, Nat.add_right_comm] at hh ⊢
        exact hq.kept k b hit' (by simpa using hb) hf (by rwa [ht.frame _ (by omega)])
    · intro k b hb
      cases k with
      | zero =>
        obtain rfl : a = b := by simpa using hb
        refine ⟨hit, hhit, hq.curr_le.trans ht.curr_le_hit, fun hf hor => ?_⟩
        rw [ht.eq_hit hf]
        have h₁le := ht.curr_le
        have h'le := hq.curr_le
        rcases hor with he | he
        · omega
        · rw [hlast (by simpa using he)]
      | succ k =>
        obtain ⟨hit', hhit', hle, heq⟩ := hq.hits k b (by simpa using hb)
        rw [← Nat.add_assoc, Nat.add_right_comm]
        refine ⟨hit', hhit', hle, fun hf hor => heq hf ?_⟩
        have h₁le := ht.curr_le
        have h'le := hq.curr_le
        rcases hor with he | he
        · exact .inl (by omega)
        · exact .inr (by simpa using he)
    · intro hlong
      have h₁ := ht.longest_eq hlong
      rw [← h₁]
      exact hq.longest_eq (by rw [h₁]; exact ht.curr_le.trans hlong)
    · intro _ hnone
      have h₁ := ht.curr_le_longest (by simpa using hnone 0)
      rw [hq.longest_eq h₁]
      exact hq.curr_le.trans h₁
    · intro hnone k hk hfull
      obtain ⟨heq, ⟨hdvd, hvalid, hle⟩, hmax⟩ := ht.finds (by simpa using hnone 0)
      cases k with
      | zero =>
        refine ⟨hit, hhit, ⟨heq ▸ hle, heq ▸ hdvd, by simpa [heq] using hvalid⟩, ?_⟩
        rintro L ⟨hL, hcommon⟩
        exact heq ▸ hmax ⟨hcommon.1, hcommon.2 a (by simp), hL⟩
      | succ k =>
        rw [← Nat.add_assoc, Nat.add_right_comm]
        obtain ⟨hit', hhit', ⟨hle', hdvd', hall⟩, hmax'⟩ := hq.finds (fun j => by
          rw [ht.frame _ (by omega), Nat.add_assoc]
          exact hnone _) k (by simpa using hk) fun b hb => hfull b (by simp [hb])
        refine ⟨hit', hhit', ⟨hle'.trans hle, hdvd', fun b hb => ?_⟩, ?_⟩
        · rcases mem_cons.1 (by simpa using hb) with rfl | hb
          · exact Valid.mono (hfull b (by simp)) hle' hvalid
          · exact hall b hb
        · rintro L ⟨hL, hcommon⟩
          exact hmax' ⟨hmax ⟨hcommon.1, hcommon.2 a (by simp), hL⟩, hcommon.1,
            fun b hb => hcommon.2 b (by simp [hb])⟩
    · rcases eq_or_ne l [] with hl | hl
      · rw [hlast hl]
        exact hd₁
      · exact hd' hl

/-- The hits that belong to the length `L`; those of full attention may be longer. -/
def Settled (cfg : KVCacheConfig) (s : KVCacheManager H) (hashes : List H) (as : List SpecGroup)
    (L : ℕ) (st : Reconciling) : Prop :=
  ∀ idx a, as[idx]? = some a → ∃ hit, st.hits idx = some hit ∧ L ≤ hit.hitLength ∧
    (specProbe cfg s hashes a).Valid s.pool a.rep.spec.searched hit.hitLength ∧
    hit.rows = (specProbe cfg s hashes a).rowsFor s.pool a.rep.spec.searched hit.hitLength ∧
    (a.rep.isFullAttention = false → hit.hitLength = L)

theorem Stored.settled {st' : Reconciling} (h : Stored cfg s hashes as maxLength st')
    (hq : Passed cfg s hashes 0 as st st') (hd : cacheHitAlignmentTokens cfg s ∣ st'.currHitLength)
    (hlast : ∀ k a, as[k]? = some a → a.rep.isFullAttention = false →
      st'.currHitLength = st.currHitLength ∨ k + 1 = as.length) :
    Common cfg s hashes as st'.currHitLength ∧ Settled cfg s hashes as st'.currHitLength st' := by
  refine ⟨⟨hd, fun a ha => ?_⟩, fun idx a ha => ?_⟩
  · obtain ⟨idx, hidx⟩ := mem_iff_getElem?.1 ha
    obtain ⟨hit, hhit, hle, heq⟩ := hq.hits idx a hidx
    rw [Nat.zero_add] at hhit
    obtain ⟨-, hvalid, -⟩ := h.hits idx a hit hidx hhit
    cases hf : a.rep.isFullAttention with
    | false => exact heq hf (hlast idx a hidx hf) ▸ hvalid
    | true => exact Valid.mono hf hle hvalid
  · obtain ⟨hit, hhit, hle, heq⟩ := hq.hits idx a ha
    rw [Nat.zero_add] at hhit
    obtain ⟨-, hvalid, hrows, -⟩ := h.hits idx a hit ha hhit
    exact ⟨hit, hhit, hle, hvalid, hrows, fun hf => heq hf (hlast idx a ha hf)⟩

/-- What the reconciliation returns: the greatest common hit, with the hits that belong
to it. -/
structure Reconciled (cfg : KVCacheConfig) (s : KVCacheManager H) (hashes : List H)
    (as : List SpecGroup) (maxLength : ℕ) (st : Reconciling) (L : ℕ) (st' : Reconciling) :
    Prop where
  common : Common cfg s hashes as L
  le : L ≤ maxLength
  greatest : ∀ L', Common cfg s hashes as L' → L' ≤ maxLength → L' ≤ L
  settled : Settled cfg s hashes as L st'
  kept : ∀ k a hit, as[k]? = some a → a.rep.isFullAttention = true →
    st.hits k = some hit → st'.hits k = some hit
  longest_eq : st.currHitLength ≤ st.longestHitLength → st'.longestHitLength = st.longestHitLength
  finds : (∀ k, st.hits k = none) → ∀ k a, as[k]? = some a →
    (∀ b ∈ as.take (k + 1), b.rep.isFullAttention = true) → ∃ hit, st'.hits k = some hit ∧
      IsGreatest {L | L ≤ st.currHitLength ∧ Common cfg s hashes (as.take (k + 1)) L} hit.hitLength

/-- **The descent ends at the greatest common hit.** -/
theorem reconcile_spec (hp : Plain cfg s hashes as maxLength) (hne : as ≠ [])
    {fuel hitLength : ℕ} (hfuel : hitLength < fuel)
    (h : Stored cfg s hashes as maxLength { st with currHitLength := hitLength })
    (haligned : cacheHitAlignmentTokens cfg s ∣ hitLength ∨ ∀ k, st.hits k = none) :
    ∃ L st', reconcile cfg s hashes maxLength as false fuel hitLength st = .ok (L, st') ∧
      Reconciled cfg s hashes as maxLength { st with currHitLength := hitLength } L st' := by
  induction fuel generalizing hitLength st with
  | zero => omega
  | succ fuel ih =>
    obtain ⟨st₁, hpass, hq, h₁, hdvd⟩ := @reconcilePass_spec _ cfg s hashes as maxLength
      { st with currHitLength := hitLength } [] as hp rfl h
      (haligned.imp id fun hnone k => hnone _)
    have hd₁ : cacheHitAlignmentTokens cfg s ∣ st₁.currHitLength := hdvd hne
    have hcurr : st₁.currHitLength ≤ hitLength := hq.curr_le
    have hkept : ∀ k a hit, as[k]? = some a → a.rep.isFullAttention = true →
        st.hits k = some hit → st₁.hits k = some hit := by
      intro k a hit ha hf hhit
      have := hq.kept k a hit ha hf (by simpa using hhit)
      simpa using this
    -- full attention is searched in the first pass only
    have hfinds (hnone : ∀ k, st.hits k = none) (k : ℕ) (a : SpecGroup) (ha : as[k]? = some a)
        (hfull : ∀ b ∈ as.take (k + 1), b.rep.isFullAttention = true) :
        ∃ hit, st₁.hits k = some hit ∧ IsGreatest
          {L | L ≤ hitLength ∧ Common cfg s hashes (as.take (k + 1)) L} hit.hitLength := by
      simpa using hq.finds (fun k => hnone _) k (List.getElem?_eq_some_iff.1 ha).1 hfull
    simp only [reconcile, bind_eq_ok]
    by_cases hstop : hitLength ≤ st₁.currHitLength
    · obtain rfl : hitLength = st₁.currHitLength := le_antisymm hstop hcurr
      obtain ⟨hcommon, hsettled⟩ := h₁.settled hq hd₁ fun _ _ _ _ => .inl rfl
      refine ⟨_, st₁, ⟨st₁, hpass, by rw [if_pos hstop]; rfl⟩, hcommon, h₁.le, h₁.above, hsettled,
        hkept, hq.longest_eq, hfinds⟩
    · obtain ⟨L, st', hrec, hr⟩ := @ih st₁ st₁.currHitLength (by omega) h₁ (.inl hd₁)
      refine ⟨L, st', ⟨st₁, hpass, by rw [if_neg hstop]; exact hrec⟩, hr.common, hr.le,
        hr.greatest, hr.settled, ?_, ?_, fun hnone k a ha hfull => ?_⟩
      · exact fun k a hit ha hf hhit => hr.kept k a hit ha hf (hkept k a hit ha hf hhit)
      · intro hlong
        have hl₁ := hq.longest_eq hlong
        rw [← hl₁]
        exact hr.longest_eq (by rw [hl₁]; exact hcurr.trans hlong)
      · obtain ⟨hit, hhit, hgreatest⟩ := hfinds hnone k a ha hfull
        have hmem : a ∈ as.take (k + 1) :=
          mem_of_getElem? ((getElem?_take_of_lt (Nat.lt_succ_self k)).trans ha)
        exact ⟨hit, hr.kept k a hit ha (hfull a hmem) hhit, hgreatest⟩

/-- **The shortcut returns what the descent returns**: after the first pass nothing changes
any more. -/
theorem reconcile_simple {b : SpecGroup} (hp : Plain cfg s hashes [a, b] maxLength)
    (hfull : a.rep.isFullAttention = true) {fuel : ℕ} (hfuel : maxLength < fuel)
    (h : Stored cfg s hashes [a, b] maxLength { st with currHitLength := maxLength })
    (hnone : ∀ k, st.hits k = none) :
    ∃ L st₁ st₂, reconcile cfg s hashes maxLength [a, b] true fuel maxLength st = .ok (L, st₁) ∧
      reconcile cfg s hashes maxLength [a, b] false fuel maxLength st = .ok (L, st₂) ∧
      st₁.longestHitLength = st₂.longestHitLength ∧ ∀ k < 2, st₁.hits k = st₂.hits k := by
  obtain ⟨fuel, rfl⟩ : ∃ n, fuel = n + 1 := ⟨fuel - 1, by omega⟩
  obtain ⟨st₁, hpass, hq, h₁, hdvd⟩ := @reconcilePass_spec _ cfg s hashes [a, b] maxLength
    { st with currHitLength := maxLength } [] [a, b] hp rfl h (.inr fun k => hnone _)
  have hd₁ : cacheHitAlignmentTokens cfg s ∣ st₁.currHitLength := hdvd (by simp)
  simp only [reconcile, bind_eq_ok]
  by_cases hstop : maxLength ≤ st₁.currHitLength
  · exact ⟨maxLength, st₁, st₁, ⟨st₁, hpass, by rw [if_pos hstop]; rfl⟩,
      ⟨st₁, hpass, by rw [if_pos hstop]; rfl⟩, rfl, fun _ _ => rfl⟩
  have hlong : st₁.currHitLength ≤ st₁.longestHitLength :=
    hq.curr_le_longest (by simp) fun k => hnone _
  obtain ⟨hcommon, hsettled⟩ := h₁.settled hq hd₁ fun k c hc hf => by
    match k with
    | 0 =>
      obtain rfl : a = c := by simpa using hc
      rw [hf] at hfull
      cases hfull
    | 1 => exact .inr rfl
    | k + 2 => simp at hc
  obtain ⟨L, st₂, hrec, hr⟩ := @reconcile_spec _ cfg s hashes [a, b] maxLength st₁ hp (by simp)
    fuel st₁.currHitLength (by omega) h₁ (.inl hd₁)
  obtain rfl : L = st₁.currHitLength :=
    le_antisymm (h₁.above L hr.common hr.le) (hr.greatest _ hcommon h₁.le)
  refine ⟨_, st₁, st₂, ⟨st₁, hpass, by rw [if_neg hstop]; rfl⟩,
    ⟨st₁, hpass, by rw [if_neg hstop]; exact hrec⟩, (hr.longest_eq hlong).symm, fun k hk => ?_⟩
  obtain ⟨c, hc⟩ : ∃ c, [a, b][k]? = some c := ⟨_, getElem?_eq_getElem (by simpa using hk)⟩
  obtain ⟨hit, hhit, -, -, hrows, hlen⟩ := hsettled k c hc
  cases hf : c.rep.isFullAttention with
  | true => rw [hhit, hr.kept k c hit hc hf hhit]
  | false =>
    obtain ⟨hit', hhit', -, -, hrows', hlen'⟩ := hr.settled k c hc
    have hsame : hit = hit' := by
      cases hit
      cases hit'
      simp_all
    rw [hhit, hhit', hsame]

end Descent

/-! ## The result for each group -/

section Groups

variable {cfg : KVCacheConfig} {s : KVCacheManager H} {hashes : List H} {maxLength : ℕ}

/-- What the constructor of the coordinator has checked. -/
structure Hybrid (cfg : KVCacheConfig) (s : KVCacheManager H) : Prop where
  hash_pos : 0 < cfg.hashBlockSize
  align_pos : 0 < cfg.schedulerBlockSize
  hash_dvd : ∀ gm ∈ s.managers, cfg.hashBlockSize ∣ gm.1.blockSize
  block_dvd : ∀ gm ∈ s.managers, gm.1.blockSize ∣ cfg.schedulerBlockSize

/-- The groups of the lookups below: no EAGLE group, and hits end at block boundaries. -/
structure Groups (cfg : KVCacheConfig) (s : KVCacheManager H) : Prop extends Hybrid cfg s where
  plain : ∀ gm ∈ s.managers, gm.1.spec.Plain
  no_eagle : ∀ gm ∈ s.managers, gm.1.useEagle = false
  coarse : enablePartialHashHits cfg s = false

theorem mem_managers_of_zipIdx {x : Managed H × ℕ} (hx : x ∈ s.managers.zipIdx) :
    s.managers[x.2]? = some x.1 := by
  obtain ⟨gm, i⟩ := x
  exact mem_zipIdx_iff_getElem?.1 hx

theorem Hybrid.hashed (hs : Hybrid cfg s) {gm : Managed H} (hgm : gm ∈ s.managers)
    (hhash : maxLength / cfg.hashBlockSize ≤ hashes.length) {q : Probe H} (hq : q.hashes = hashes)
    (hb : q.hashBlockSize = cfg.hashBlockSize) (hbs : q.blockSize = gm.1.blockSize) :
    q.Hashed (maxLength / gm.1.blockSize) := by
  intro i hi
  obtain ⟨c, hc⟩ := hs.hash_dvd gm hgm
  have hpos := hs.hash_pos
  have hbspos := gm.1.blockSize_pos
  have hcpos : 0 < c := Nat.pos_of_ne_zero (by rintro rfl; simp [hc] at hbspos)
  rw [hashAt, hq, hb, hbs, hc, Nat.mul_div_cancel_left _ hpos]
  have hle : (i + 1) * c * cfg.hashBlockSize ≤ maxLength := by
    calc (i + 1) * c * cfg.hashBlockSize = (i + 1) * gm.1.blockSize := by
          rw [hc, Nat.mul_assoc, Nat.mul_comm c]
      _ ≤ maxLength / gm.1.blockSize * gm.1.blockSize := Nat.mul_le_mul_right _ hi
      _ ≤ maxLength := Nat.div_mul_le_self _ _
  have hlt := ((Nat.le_div_iff_mul_le hpos).2 hle).trans hhash
  have hone : 0 < (i + 1) * c := Nat.mul_pos (Nat.succ_pos i) hcpos
  rw [getElem?_eq_getElem (by omega)]
  rfl

theorem Groups.plain_attentionGroups (hs : Groups cfg s)
    (hhash : maxLength / cfg.hashBlockSize ≤ hashes.length) :
    Plain cfg s hashes s.attentionGroups maxLength := by
  have hsplit := split_attentionGroups s
  have hrep {a : SpecGroup} (ha : a ∈ s.attentionGroups) : ∃ gm ∈ s.managers, gm.1 = a.rep := by
    obtain ⟨x, hx, he⟩ := hsplit.rep a ha
    exact ⟨x.1, mem_of_getElem? (mem_managers_of_zipIdx hx), he⟩
  refine ⟨fun a ha => ?_, fun a ha => ?_, fun a ha => ?_, fun a ha => ?_⟩
  · obtain ⟨gm, hgm, he⟩ := hrep ha
    have hal : cacheHitAlignmentTokens cfg s = cfg.schedulerBlockSize := by
      simp [cacheHitAlignmentTokens, hs.coarse]
    refine ⟨a.rep.blockSize_pos, ?_, ?_⟩
    · show 0 < cacheHitAlignmentTokens cfg s
      rw [hal]
      exact hs.align_pos
    · show a.rep.blockSize ∣ cacheHitAlignmentTokens cfg s
      rw [hal, ← he]
      exact hs.block_dvd gm hgm
  · obtain ⟨gm, hgm, he⟩ := hrep ha
    exact he ▸ hs.plain gm hgm
  · by_contra hu
    obtain ⟨x, hx, he⟩ := hsplit.eagle a ha (by simpa using hu)
    rw [hs.no_eagle _ (mem_of_getElem? (mem_managers_of_zipIdx hx))] at he
    cases he
  · obtain ⟨gm, hgm, he⟩ := hrep ha
    rw [← he]
    exact hs.hashed hgm hhash rfl rfl (by rw [he]; rfl)

variable {i L : ℕ} {g : Group} {a : SpecGroup} {as : List SpecGroup}

theorem isSome_blockRow (hsize : g.blockSize = a.rep.blockSize)
    (hi : i ∈ a.groupIds) {k : ℕ} (h : (specProbe cfg s hashes a).Cached s.pool k) :
    (groupProbe cfg s hashes i g).blockRow s.pool k =
      some [(((specProbe cfg s hashes a).blockRow s.pool k).getD []).getD (a.groupIds.idxOf i)
        nullBlock] := by
  obtain ⟨row, hrow⟩ := Option.isSome_iff_exists.1 h
  simp only [blockRow, Option.bind_eq_some_iff] at hrow
  obtain ⟨key, hkey, hget⟩ := hrow
  have hkey' : hashAt hashes cfg.hashBlockSize g.blockSize k = some key := hsize ▸ hkey
  have hget : s.pool.getCachedBlock key a.groupIds = some row := hget
  simp only [blockRow, groupProbe, probe] at hkey ⊢
  rw [hkey', hkey, Option.bind_some, Option.bind_some, hget]
  exact BlockPool.getD_of_getCachedBlock hget hi

/-- A block is cached for a spec group when it is cached for each of its groups. -/
theorem cached_specProbe (hne : a.groupIds ≠ []) {k : ℕ}
    (h : ∀ i ∈ a.groupIds, ∃ g : Group, g.blockSize = a.rep.blockSize ∧
      (groupProbe cfg s hashes i g).Cached s.pool k) :
    (specProbe cfg s hashes a).Cached s.pool k := by
  have hkey : ∀ i ∈ a.groupIds, ∃ key,
      hashAt hashes cfg.hashBlockSize a.rep.blockSize k = some key ∧
        (s.pool.getCachedBlock key [i]).isSome = true := by
    intro i hi
    obtain ⟨g, hsize, hc⟩ := h i hi
    obtain ⟨row, hrow⟩ := Option.isSome_iff_exists.1 hc
    simp only [blockRow, groupProbe, Option.bind_eq_some_iff] at hrow
    obtain ⟨key, hkey, hget⟩ := hrow
    exact ⟨key, hsize ▸ hkey, by simp [hget]⟩
  obtain ⟨i, hi⟩ := exists_mem_of_ne_nil _ hne
  obtain ⟨key, hat, -⟩ := hkey i hi
  have hall : (s.pool.getCachedBlock key a.groupIds).isSome = true := by
    rw [BlockPool.isSome_getCachedBlock]
    intro j hj
    obtain ⟨key', hat', hsome⟩ := hkey j hj
    rw [hat] at hat'
    exact Option.some.inj hat' ▸ hsome
  simpa [Probe.Cached, blockRow, probe, hat] using hall

/-- A length at which every group alone has a hit. -/
def EveryHits (cfg : KVCacheConfig) (s : KVCacheManager H) (hashes : List H) (L : ℕ) : Prop :=
  ∀ i gm, s.managers[i]? = some gm → (groupProbe cfg s hashes i gm.1).Valid s.pool gm.1.spec L

/-- **A common hit of the searches is one of every group.** -/
theorem common_iff (s : KVCacheManager H) (L : ℕ) : Common cfg s hashes s.attentionGroups L ↔
      cacheHitAlignmentTokens cfg s ∣ L ∧ ∀ i gm, s.managers[i]? = some gm →
        (groupProbe cfg s hashes i gm.1).Valid s.pool gm.1.spec.searched L := by
  have hsplit := split_attentionGroups s
  refine and_congr_right fun _ => ⟨fun h i gm hgm k hk => ?_, fun h a ha k hk => ?_⟩
  · obtain ⟨a, ha, hi⟩ := exists_mem_attentionGroups hgm
    obtain ⟨x, hx, rfl, hspec, hsize, -⟩ := hsplit.members a ha i hi
    obtain rfl : x.1 = gm := by
      have := mem_managers_of_zipIdx hx
      rw [hgm] at this
      exact (Option.some.inj this).symm
    have hc := h a ha k (by
      rw [← hspec]
      show x.1.1.spec.searched.Needs a.rep.blockSize L k
      exact hsize ▸ hk)
    simp [Probe.Cached, isSome_blockRow hsize hi hc]
  · refine cached_specProbe (hsplit.nonempty a ha) fun i hi => ?_
    obtain ⟨x, hx, rfl, hspec, hsize, -⟩ := hsplit.members a ha i hi
    refine ⟨x.1.1, hsize, h x.2 x.1 (mem_managers_of_zipIdx hx) k ?_⟩
    rw [hspec]
    show a.rep.spec.searched.Needs x.1.1.blockSize L k
    exact hsize.symm ▸ hk

/-- The blocks of a hit of one group: cached blocks where it reads, null blocks elsewhere. -/
def hitBlocks (cfg : KVCacheConfig) (s : KVCacheManager H) (hashes : List H) (i : ℕ) (g : Group)
    (spec : KVCacheSpec) (L : ℕ) : List BlockId :=
  ((groupProbe cfg s hashes i g).rowsFor s.pool spec L).map fun row => row.getD 0 nullBlock

@[simp] theorem length_hitBlocks {spec : KVCacheSpec} :
    (hitBlocks cfg s hashes i g spec L).length = L / g.blockSize := by
  simp [hitBlocks, rowsFor, groupProbe]

/-- The blocks of one group in the rows of its spec group. -/
theorem map_rowsFor {spec : KVCacheSpec} (hsize : g.blockSize = a.rep.blockSize)
    (hi : i ∈ a.groupIds) (hvalid : (specProbe cfg s hashes a).Valid s.pool spec L) :
    ((specProbe cfg s hashes a).rowsFor s.pool spec L).map
        (fun row => row.getD (a.groupIds.idxOf i) nullBlock) =
        hitBlocks cfg s hashes i g spec L := by
  have hnull (q : Probe H) (j : ℕ) : q.nullRow.getD j nullBlock = nullBlock := by
    simp only [nullRow, map_const', getD_eq_getElem?_getD, getElem?_replicate]
    split <;> rfl
  simp only [hitBlocks, rowsFor, map_map]
  rw [show (groupProbe cfg s hashes i g).blockSize =
    (specProbe cfg s hashes a).blockSize from hsize]
  refine map_congr_left fun k _ => ?_
  simp only [Function.comp_apply]
  split
  · next hneeds =>
    have hc := hvalid k hneeds
    obtain ⟨row, hrow⟩ := Option.isSome_iff_exists.1 hc
    rw [isSome_blockRow hsize hi hc, hrow]
    simp
  · rw [hnull, hnull]

/-- The blocks of a shorter hit of full attention are the first ones. -/
theorem take_hitBlocks (hfull : g.isFullAttention = true) {L' : ℕ}
    (hle : L ≤ L') (hdvd : g.blockSize ∣ L) :
    (hitBlocks cfg s hashes i g g.spec.searched L').take (L / g.blockSize) =
      hitBlocks cfg s hashes i g g.spec.searched L := by
  have hbs := g.blockSize_pos
  have hsize : (groupProbe cfg s hashes i g).blockSize = g.blockSize := rfl
  simp only [hitBlocks, rowsFor, map_map, ← map_take, hsize, take_range,
    Nat.min_eq_left (Nat.div_le_div_right hle)]
  refine map_congr_left fun k hk => ?_
  have hkL : k * g.blockSize < L := by
    have := Nat.mul_lt_mul_of_pos_right (mem_range.1 hk) hbs
    rwa [Nat.div_mul_cancel hdvd] at this
  simp only [Function.comp_apply, needs_of_isFullAttention hfull, hkL, hkL.trans_le hle]

/-- `find_longest_cache_hit` of the hybrid coordinator with a choice of the shortcut. -/
def findHybridWith (simple : Bool) (cfg : KVCacheConfig) (s : KVCacheManager H)
    (hashes : List H) (maxLength : ℕ) : Except Fault (List (List BlockId) × ℕ × ℕ) := do
  let (L, st) ← reconcile cfg s hashes maxLength s.attentionGroups simple (maxLength + 1) maxLength
    ⟨maxLength, 0, fun _ => none, []⟩
  pure ((range s.managers.length).map (groupHitBlocks s.attentionGroups st.hits L), L,
    st.longestHitLength - L)

theorem findLongestCacheHitHybrid_eq :
    s.findLongestCacheHitHybrid cfg hashes maxLength = findHybridWith
      (decide (s.attentionGroups.length = 2) && fullAttentionFirst s.attentionGroups)
      cfg s hashes maxLength := rfl

theorem stored_init : Stored cfg s hashes as maxLength ⟨maxLength, 0, fun _ => none, []⟩ :=
  ⟨le_rfl, fun _ _ h => h, fun _ _ _ _ h => by cases h⟩

theorem groupHitBlocks_congr {f f' : ℕ → Option CacheHit}
    (h : ∀ k < as.length, f k = f' k) (L i : ℕ) :
    groupHitBlocks as f L i = groupHitBlocks as f' L i := by
  simp only [groupHitBlocks]
  cases hfind : as.zipIdx.find? fun x => x.1.groupIds.contains i with
  | none => rfl
  | some x =>
    obtain ⟨a, idx⟩ := x
    have hidx := mem_zipIdx_iff_getElem?.1 (mem_of_find?_eq_some hfind)
    simp only [h idx (List.getElem?_eq_some_iff.1 hidx).1]

/-- **The blocks of each group are those of the common hit**, but a second full-attention spec
keeps those of its own. -/
theorem Reconciled.blocks {st st' : Reconciling} {gm : Managed H} (hs : Groups cfg s)
    (hhash : maxLength / cfg.hashBlockSize ≤ hashes.length)
    (hr : Reconciled cfg s hashes s.attentionGroups maxLength st L st')
    (hi : s.managers[i]? = some gm) :
    ∃ a idx hit, s.attentionGroups[idx]? = some a ∧ i ∈ a.groupIds ∧ gm.1.spec = a.rep.spec ∧
      st'.hits idx = some hit ∧ L ≤ hit.hitLength ∧
      groupHitBlocks s.attentionGroups st'.hits L i = hitBlocks cfg s hashes i gm.1
        gm.1.spec.searched
          (if 0 < idx ∧ a.rep.isFullAttention = true then hit.hitLength else L) := by
  have hsplit := split_attentionGroups s
  have hplain := hs.plain_attentionGroups hhash
  obtain ⟨a₀, ha₀, hi₀⟩ := exists_mem_attentionGroups hi
  simp only [groupHitBlocks]
  cases hfind : s.attentionGroups.zipIdx.find? fun x => x.1.groupIds.contains i with
  | none =>
    obtain ⟨idx, hidx⟩ := mem_iff_getElem?.1 ha₀
    have := find?_eq_none.1 hfind (a₀, idx) (mem_zipIdx_iff_getElem?.2 hidx)
    exact absurd (by simpa using hi₀) this
  | some x =>
    obtain ⟨a, idx⟩ := x
    have hidx := mem_zipIdx_iff_getElem?.1 (mem_of_find?_eq_some hfind)
    have hia : i ∈ a.groupIds := by simpa using find?_some hfind
    have ha := mem_of_getElem? hidx
    obtain ⟨x, hx, rfl, hspec, hsize, -⟩ := hsplit.members a ha i hia
    obtain rfl : x.1 = gm := by
      have := mem_managers_of_zipIdx hx
      rw [hi] at this
      exact (Option.some.inj this).symm
    obtain ⟨hit, hhit, hle, hvalid, hrows, hexact⟩ := hr.settled idx a hidx
    refine ⟨a, idx, hit, hidx, hia, hspec, hhit, hle, ?_⟩
    have hdvd : x.1.1.blockSize ∣ L :=
      hsize ▸ (hplain.coarse a ha).dvd.trans hr.common.1
    have hblocks : hit.blocks (a.groupIds.idxOf x.2) =
        hitBlocks cfg s hashes x.2 x.1.1 x.1.1.spec.searched hit.hitLength := by
      rw [CacheHit.blocks, hrows, map_rowsFor hsize hia hvalid, hspec]
    simp only [hhit, hblocks]
    cases hf : a.rep.isFullAttention with
    | false => simp [hexact hf]
    | true =>
      have hfull : x.1.1.isFullAttention = true := by
        simpa only [Group.isFullAttention, hspec] using hf
      rcases Nat.eq_zero_or_pos idx with rfl | hpos
      · have hcdiv : cdiv L a.rep.blockSize = L / x.1.1.blockSize := by
          obtain ⟨e, rfl⟩ := hdvd
          rw [hsize, Nat.mul_comm, cdiv_mul_self a.rep.blockSize_pos,
            Nat.mul_div_cancel _ a.rep.blockSize_pos]
        simp [hcdiv, take_hitBlocks hfull hle hdvd]
      · simp [hpos, hpos.ne']

theorem simple_eq_true (h : (decide (as.length = 2) && fullAttentionFirst as) = true) :
    ∃ a b, as = [a, b] ∧ a.rep.isFullAttention = true := by
  simp only [Bool.and_eq_true, decide_eq_true_eq] at h
  obtain ⟨a, b, rfl⟩ := length_eq_two.1 h.1
  exact ⟨a, b, rfl, h.2⟩

/-- **The shortcut changes nothing.** -/
theorem Groups.findHybridWith_simple (hs : Groups cfg s)
    (hhash : maxLength / cfg.hashBlockSize ≤ hashes.length) {b : SpecGroup}
    (has : s.attentionGroups = [a, b]) (hfull : a.rep.isFullAttention = true) :
    findHybridWith true cfg s hashes maxLength = findHybridWith false cfg s hashes maxLength := by
  have hp := hs.plain_attentionGroups hhash
  rw [has] at hp
  have hstart : Stored cfg s hashes [a, b] maxLength
      { (⟨maxLength, 0, fun _ => none, []⟩ : Reconciling) with currHitLength := maxLength } :=
    stored_init
  obtain ⟨L, st₁, st₂, h₁, h₂, hlong, hhits⟩ :=
    reconcile_simple hp hfull (Nat.lt_succ_self _) hstart fun _ => rfl
  rw [findHybridWith, findHybridWith, has, h₁, h₂]
  simp only [ok_bind, pure_eq_ok, hlong, Except.ok.injEq, Prod.mk.injEq, and_true]
  exact map_congr_left fun i _ => @groupHitBlocks_congr [a, b] _ _ hhits L i

/-- The hits that all groups have in common. -/
def CommonHits (cfg : KVCacheConfig) (s : KVCacheManager H) (hashes : List H) (maxLength : ℕ) :
    Set ℕ :=
  {L | cfg.schedulerBlockSize ∣ L ∧ L ≤ maxLength ∧ EveryHits cfg s hashes L}

/-- Where the lookup is exact: a window is one token only if the groups have no hit in common,
and no hit of the first two full-attention specs is longer than the common ones. -/
structure Exact (cfg : KVCacheConfig) (s : KVCacheManager H) (hashes : List H) (maxLength : ℕ) :
    Prop where
  windows : ∀ gm ∈ s.managers, ∀ w extra, gm.1.spec = .slidingWindow w extra → w ≤ 1 →
    ∀ L ∈ CommonHits cfg s hashes maxLength, L = 0
  trimmed : ∀ b, s.attentionGroups[1]? = some b → b.rep.isFullAttention = true →
    ∀ L ≤ maxLength, Common cfg s hashes (s.attentionGroups.take 2) L →
      ∃ L' ∈ CommonHits cfg s hashes maxLength, L ≤ L'

/-- What the lookup returns as far as the groups' own specs go. -/
def Returns (cfg : KVCacheConfig) (s : KVCacheManager H) (hashes : List H) (maxLength L : ℕ)
    (blocks : List (List BlockId)) : Prop :=
  IsGreatest (CommonHits cfg s hashes maxLength) L ∧ ∀ i gm, s.managers[i]? = some gm →
    blocks[i]? = some (hitBlocks cfg s hashes i gm.1 gm.1.spec L)

section Returns

variable {st : Reconciling} (hs : Groups cfg s)
  (hhash : maxLength / cfg.hashBlockSize ≤ hashes.length)
  (hr : Reconciled cfg s hashes s.attentionGroups maxLength ⟨maxLength, 0, fun _ => none, []⟩ L st)

include hr

/-- Full attention of a later spec keeps the greatest hit of the specs up to its own. -/
theorem Reconciled.greatest_of_full {idx : ℕ} (ha : s.attentionGroups[idx]? = some a)
    (hfull : a.rep.isFullAttention = true) : ∃ hit, st.hits idx = some hit ∧ IsGreatest
      {L | L ≤ maxLength ∧ Common cfg s hashes (s.attentionGroups.take (idx + 1)) L}
      hit.hitLength := by
  refine hr.finds (fun _ => rfl) idx a ha fun b hb => ?_
  obtain ⟨j, hj, rfl⟩ := mem_take_iff_getElem.1 hb
  exact isFullAttention_of_le (by omega) (getElem?_eq_getElem (by omega)) ha hfull

include hs

theorem Groups.mem_commonHits : L ∈ CommonHits cfg s hashes maxLength := by
  have hal : cacheHitAlignmentTokens cfg s = cfg.schedulerBlockSize := by
    simp [cacheHitAlignmentTokens, hs.coarse]
  obtain ⟨hdvd, hevery⟩ := (common_iff s L).1 hr.common
  exact ⟨hal ▸ hdvd, hr.le, fun i gm hi k hk => hevery i gm hi k hk.searched⟩

include hhash

theorem Groups.returns_of_exact (hexact : Exact cfg s hashes maxLength) :
    Returns cfg s hashes maxLength L
      ((range s.managers.length).map (groupHitBlocks s.attentionGroups st.hits L)) := by
  have hmem := hs.mem_commonHits hr
  have hsearched {gm : Managed H} (hgm : gm ∈ s.managers) :
      gm.1.spec.searched = gm.1.spec ∨ ∀ L ∈ CommonHits cfg s hashes maxLength, L = 0 := by
    cases hspec : gm.1.spec with
    | slidingWindow w extra =>
      rcases le_or_gt w 1 with hw | hw
      · exact .inr (hexact.windows gm hgm w extra hspec hw)
      · exact .inl (by rw [KVCacheSpec.searched, max_eq_left hw])
    | _ => exact .inl rfl
  have hgreatest : IsGreatest (CommonHits cfg s hashes maxLength) L := by
    refine ⟨hmem, fun L' hL' => ?_⟩
    by_cases hzero : ∀ L ∈ CommonHits cfg s hashes maxLength, L = 0
    · rw [hzero L' hL']
      exact Nat.zero_le L
    refine hr.greatest L' ((common_iff s L').2 ⟨?_, fun i gm hi => ?_⟩) hL'.2.1
    · simpa [cacheHitAlignmentTokens, hs.coarse] using hL'.1
    · rw [(hsearched (mem_of_getElem? hi)).resolve_right hzero]
      exact hL'.2.2 i gm hi
  refine ⟨hgreatest, fun i gm hi => ?_⟩
  obtain ⟨a, idx, hit, ha, -, -, hhit, hle, hblocks⟩ := hr.blocks hs hhash hi
  have hlt := (List.getElem?_eq_some_iff.1 hi).1
  have hlength : (if 0 < idx ∧ a.rep.isFullAttention = true then hit.hitLength else L) = L := by
    split
    · next hsecond =>
      -- its hit is one of the first two specs
      obtain ⟨hit', hhit', ⟨hmax, hcommon⟩, -⟩ := hr.greatest_of_full ha hsecond.2
      obtain rfl := Option.some.inj (hhit.symm.trans hhit')
      have hidx := (List.getElem?_eq_some_iff.1 ha).1
      have hone : 1 < s.attentionGroups.length := by omega
      have hfirst := getElem?_eq_getElem hone
      obtain ⟨L', hL', hle'⟩ := hexact.trimmed _ hfirst
        (isFullAttention_of_le hsecond.1 hfirst ha hsecond.2) _ hmax
        ⟨hcommon.1, fun b hb => hcommon.2 b (take_subset_take_left _ (by omega) hb)⟩
      exact le_antisymm (hle'.trans (hgreatest.2 hL')) hle
    · rfl
  rw [hlength] at hblocks
  simp only [getElem?_map, getElem?_range hlt, Option.map_some, hblocks, Option.some.injEq]
  rcases hsearched (mem_of_getElem? hi) with he | hzero
  · rw [he]
  · simp [hitBlocks, rowsFor, hzero L hmem]

theorem Groups.exact_of_returns (hnull : s.pool.NullUncached) (h : Returns cfg s hashes maxLength L
      ((range s.managers.length).map (groupHitBlocks s.attentionGroups st.hits L))) :
    Exact cfg s hashes maxLength := by
  have hmem := hs.mem_commonHits hr
  have hblocks {i : ℕ} {gm : Managed H} (hi : s.managers[i]? = some gm) :
      groupHitBlocks s.attentionGroups st.hits L i = hitBlocks cfg s hashes i gm.1 gm.1.spec L := by
    have := h.2 i gm hi
    rw [getElem?_map, getElem?_range (List.getElem?_eq_some_iff.1 hi).1] at this
    exact Option.some.inj this
  constructor
  · intro gm hgm w extra hspec hw L' hL'
    by_contra hne
    obtain ⟨i, hi⟩ := mem_iff_getElem?.1 hgm
    obtain ⟨a, idx, hit, -, -, hrep, -, -, hcode⟩ := hr.blocks hs hhash hi
    have hfull : a.rep.isFullAttention = false := by
      rw [Group.isFullAttention, ← hrep, hspec]
    have hpos : 0 < L := (Nat.pos_of_ne_zero hne).trans_le (h.1.2 hL')
    rw [hblocks hi, if_neg (by simp [hfull]), hspec] at hcode
    refine rowsFor_searched_ne gm.1.blockSize_pos ((hs.block_dvd gm hgm).trans hmem.1) hpos hw
      (cons_ne_nil _ _) hnull ?_ hcode.symm
    rw [← hspec]
    exact ((common_iff s L).1 hr.common).2 i gm hi
  · intro b hb hfull L' hL' hcommon
    refine ⟨L, hmem, ?_⟩
    obtain ⟨hit, hhit, -, hmax⟩ := hr.greatest_of_full hb hfull
    have hbmem := mem_of_getElem? hb
    obtain ⟨i, hi⟩ := exists_mem_of_ne_nil _ ((split_attentionGroups s).nonempty b hbmem)
    obtain ⟨x, hx, rfl, -, hsize, -⟩ := (split_attentionGroups s).members b hbmem i hi
    have hgm := mem_managers_of_zipIdx hx
    obtain ⟨a, idx, hit', ha, hia, -, hhit', -, hcode⟩ := hr.blocks hs hhash hgm
    -- the groups of the second spec are no groups of another one
    obtain rfl : idx = 1 := by
      by_contra hne
      have hdisjoint := pairwise_iff_getElem.1 (nodup_flatMap.1 (nodup_groupIds s)).2
      rw [List.getElem?_eq_some_iff] at ha hb
      obtain ⟨hlt, rfl⟩ := ha
      obtain ⟨hlt', rfl⟩ := hb
      rcases Nat.lt_or_gt_of_ne hne with hlt'' | hlt''
      · exact hdisjoint idx 1 hlt hlt' hlt'' hia hi
      · exact hdisjoint 1 idx hlt' hlt hlt'' hi hia
    obtain rfl := Option.some.inj (ha.symm.trans hb)
    obtain rfl := Option.some.inj (hhit.symm.trans hhit')
    rw [hblocks hgm, if_pos ⟨Nat.one_pos, hfull⟩] at hcode
    have hlen := congrArg List.length hcode
    simp only [length_hitBlocks] at hlen
    -- both lengths have the same number of blocks
    have hbs := x.1.1.blockSize_pos
    obtain ⟨f, rfl⟩ : x.1.1.blockSize ∣ L' := by
      rw [hsize]
      exact ((hs.plain_attentionGroups hhash).coarse a hbmem).dvd.trans hcommon.1
    have hle := Nat.div_le_div_right (c := x.1.1.blockSize) (hmax ⟨hL', hcommon⟩)
    rw [Nat.mul_div_cancel_left _ hbs, ← hlen, Nat.le_div_iff_mul_le hbs, Nat.mul_comm] at hle
    exact hle

end Returns

/-- **The hybrid lookup returns the greatest common hit**, and the blocks of every group at it,
exactly where `Exact` holds; it always returns, and the shortcut returns the same. -/
theorem findLongestCacheHitHybrid_greatest (hs : Groups cfg s) (two : 2 ≤ s.attentionGroups.length)
    (hhash : maxLength / cfg.hashBlockSize ≤ hashes.length) (hnull : s.pool.NullUncached) :
    ∃ blocks L uncached,
      s.findLongestCacheHitHybrid cfg hashes maxLength = .ok (blocks, L, uncached) ∧
      findHybridWith false cfg s hashes maxLength = .ok (blocks, L, uncached) ∧
      (Returns cfg s hashes maxLength L blocks ↔ Exact cfg s hashes maxLength) := by
  have hne : s.attentionGroups ≠ [] := ne_nil_of_length_pos (by omega)
  obtain ⟨L, st, hrec, hr⟩ := @reconcile_spec _ cfg s hashes _ maxLength
    ⟨maxLength, 0, fun _ => none, []⟩ (hs.plain_attentionGroups hhash) hne _ _
    (Nat.lt_succ_self maxLength) stored_init (.inr fun _ => rfl)
  have hdescent : findHybridWith false cfg s hashes maxLength = .ok _ :=
    bind_eq_ok.2 ⟨(L, st), hrec, rfl⟩
  refine ⟨_, L, _, ?_, hdescent, hs.exact_of_returns hhash hr hnull, hs.returns_of_exact hhash hr⟩
  rw [findLongestCacheHitHybrid_eq]
  cases hsimple : decide (s.attentionGroups.length = 2) &&
    fullAttentionFirst s.attentionGroups with
  | false => exact hdescent
  | true =>
    obtain ⟨a, b, has, hfull⟩ := simple_eq_true hsimple
    rw [hs.findHybridWith_simple hhash has hfull]
    exact hdescent

end Groups

/-! ## Examples with blocks of one token -/

namespace OneToken

def cfg : KVCacheConfig := .small true 1 1

def group : KVCacheSpec → ℕ → Bool → Group := .small cfg Nat.one_pos

/-- A coordinator with the given cached blocks: for each group, hashes and blocks. -/
def coordinator (groups : List Group) (cached : ℕ → List (ℕ × BlockId)) : KVCacheManager ℕ where
  pool := { (BlockPool.init 20 true 1 : BlockPool ℕ) with
    index := { empty with
      cachedBlockHashToBlock := fun k => ((cached k.2).filter (·.1 = k.1)).map Prod.snd } }
  managers := groups.map fun g => (g, Manager.init)
  partialTailPins := Dict.empty

/-- Full attention has three blocks of a request, the window the second one. -/
def windowed : KVCacheManager ℕ :=
  coordinator [group .fullAttention 0 false, group (.slidingWindow 2 0) 1 false] fun
    | 0 => [(10, 1), (11, 2), (12, 3)]
    | _ => [(11, 4)]

/-- A second full-attention spec, and a window that has the first block only. -/
def untrimmed : KVCacheManager ℕ :=
  coordinator [group .fullAttention 0 false, group .fullAttention 1 false,
    group (.slidingWindow 2 0) 2 false] fun
    | 0 => [(10, 1), (11, 2), (12, 3)]
    | 1 => [(10, 5), (11, 6), (12, 7)]
    | _ => [(10, 9)]

theorem groups_windowed : Groups cfg windowed where
  hash_pos := by decide
  align_pos := by decide
  hash_dvd := by decide
  block_dvd := by decide
  plain := by decide
  no_eagle := by decide
  coarse := by decide

theorem nullUncached_coordinator {groups : List Group} {cached : ℕ → List (ℕ × BlockId)}
    (h : ∀ g, ∀ x ∈ cached g, x.2 ≠ nullBlock) : (coordinator groups cached).pool.NullUncached := by
  intro k hk
  obtain ⟨x, hx, hzero⟩ := mem_map.1 hk
  exact h k.2 x (mem_of_mem_filter hx) hzero

theorem greatest_hit_windowed :
    windowed.findLongestCacheHitHybrid cfg [10, 11, 12] 3 = .ok ([[1, 2], [0, 4]], 2, 1) ∧
      Returns cfg windowed [10, 11, 12] 3 2 [[1, 2], [0, 4]] := by
  obtain ⟨blocks, L, uncached, hcode, -, hiff⟩ := findLongestCacheHitHybrid_greatest
    groups_windowed (by decide) (show 3 / cfg.hashBlockSize ≤ [10, 11, 12].length by decide)
    (nullUncached_coordinator fun g => by cases g <;> simp [nullBlock])
  have hfind : windowed.findLongestCacheHitHybrid cfg [10, 11, 12] 3 =
    .ok ([[1, 2], [0, 4]], 2, 1) := by decide
  cases hfind.symm.trans hcode
  refine ⟨hfind, hiff.2 ⟨fun gm hgm w extra hspec hw => ?_, fun b hb hfull => ?_⟩⟩
  · have : ∀ gm ∈ windowed.managers,
        gm.1.spec = .fullAttention ∨ gm.1.spec = .slidingWindow 2 0 := by
      decide
    rcases this gm hgm with h | h <;> rw [h] at hspec <;> cases hspec
    omega
  · have hwindow : windowed.attentionGroups[1]?.map (·.rep.isFullAttention) = some false := by
      decide
    rw [hb, Option.map_some, hfull] at hwindow
    cases hwindow

theorem second_full_attention_untrimmed : untrimmed.findLongestCacheHitHybrid cfg [10, 11, 12] 3 =
        .ok ([[1], [5, 6, 7], [9]], 1, 2) ∧
      hitBlocks cfg untrimmed [10, 11, 12] 1 (group .fullAttention 1 false) .fullAttention 1 =
        [5] := by
  decide

end OneToken

end KVCacheManager

end KVarN.Core
