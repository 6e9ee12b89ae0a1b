import KVarN.Core.CommonHit

/-!
# The EAGLE drop of a common cache hit

A group with an EAGLE drafter recomputes the last matched unit: its search looks one
unit beyond the candidate and then drops it. The drop is made once per candidate
length, and a group that has made it counts as verified until another group shortens
the candidate.

Full attention is closed downwards, so its drop stays verified at every shorter length.
A sliding window is not, and a group that shortens the candidate by its own drop does
not unverify the others: the window is then stale, and nothing looks at the block behind
the shorter length.

## Main definitions

* `KVCacheManager.lookupTurns` — the turns of the spec groups in a lookup.
* `KVCacheManager.Turn.Stale` — a turn that leaves a window stale.
* `KVCacheManager.Dropped` — what is known about the drops during the descent.

## Main results

* `KVCacheManager.eagle_drop_verified` — at the final length the next unit is cached too,
  exactly if no turn to that length leaves the window stale with the block behind it missing.
* `Probe.slidingWindowHit_greatest` — exactly when the search of a window is the longest one.
-/

namespace KVarN.Core

open Core.Group List Nat

variable {H : Type}

namespace KVCacheManager

variable {cfg : KVCacheConfig} {s : KVCacheManager H} {hashes : List H} {maxLength : ℕ}
  {as : List SpecGroup} {idx : ℕ} {a : SpecGroup} {st st' : Reconciling}

/-- The unit that full attention drops. -/
def dropUnit (cfg : KVCacheConfig) (s : KVCacheManager H) (a : SpecGroup) : ℕ :=
  min (cacheHitAlignmentTokens cfg s) a.rep.blockSize

/-- A window has a hit at `L` and the block behind it is cached. -/
def WindowVerified (cfg : KVCacheConfig) (s : KVCacheManager H) (hashes : List H) (a : SpecGroup)
    (L : ℕ) : Prop :=
  (specProbe cfg s hashes a).Valid s.pool a.rep.spec L ∧
    (specProbe cfg s hashes a).Cached s.pool (L / a.rep.blockSize)

/-- Whether a spec group makes its drop in its turn. -/
def drops (idx : ℕ) (a : SpecGroup) (st : Reconciling) : Bool :=
  a.useEagle && !decide (idx ∈ st.eagleVerified)

/-- The bound of a spec group's search. -/
def searchBound (cfg : KVCacheConfig) (s : KVCacheManager H) (maxLength idx : ℕ) (a : SpecGroup)
    (st : Reconciling) : ℕ :=
  if drops idx a st ∧ ¬ a.rep.isMamba then
    min (st.currHitLength + eagleMargin cfg s a.rep) maxLength
  else st.currHitLength

/-- **What a spec group's turn does**: full attention keeps its hit, the others search. -/
theorem reconcileGroup_eq_ok (h : reconcileGroup cfg s hashes maxLength idx a st = .ok st') :
    (∃ hit, a.rep.isFullAttention = true ∧ st.hits idx = some hit ∧
      st' = { st with currHitLength := min st.currHitLength hit.hitLength }) ∨
    (∃ hit, (a.rep.isFullAttention = true → st.hits idx = none) ∧
      a.rep.findLongestCacheHit s.pool (specProbe cfg s hashes a)
        (searchBound cfg s maxLength idx a st) (drops idx a st)
        (if a.rep.isFullAttention then cfg.dcpWorldSize else 1) = .ok hit ∧
      st' =
        { currHitLength := hit.hitLength
          longestHitLength := max st.longestHitLength hit.hitLength
          hits := Function.update st.hits idx (some hit)
          eagleVerified :=
            if drops idx a st then idx :: st.eagleVerified
            else if hit.hitLength < st.currHitLength then [] else st.eagleVerified }) := by
  rw [reconcileGroup] at h
  split at h
  · next hit hcase =>
    cases h
    split at hcase
    · next hfull => exact .inl ⟨hit, hfull, hcase, rfl⟩
    · cases hcase
  · next hcase =>
    obtain ⟨hit, hfind, h⟩ := bind_eq_ok.1 h
    cases h
    refine .inr ⟨hit, fun hfull => ?_, hfind, rfl⟩
    rwa [if_pos hfull] at hcase

/-- The margin of a search is the unit that it drops. -/
theorem eagleMargin_le (hs : Hybrid cfg s) (ha : ∃ gm ∈ s.managers, gm.1 = a.rep) :
    eagleMargin cfg s a.rep ≤ dropUnit cfg s a := by
  obtain ⟨gm, hgm, he⟩ := ha
  have hblock : a.rep.blockSize ≤ cfg.schedulerBlockSize :=
    he ▸ le_of_dvd hs.align_pos (hs.block_dvd gm hgm)
  have hfine : enablePartialHashHits cfg s = true →
      a.rep.supportsFineGrainedHashLookup = true ∨ a.rep.blockSize = cfg.hashBlockSize := by
    intro hp
    simp only [enablePartialHashHits, Bool.and_eq_true, all_eq_true, Bool.or_eq_true,
      decide_eq_true_eq] at hp
    exact he ▸ hp.2 gm hgm
  simp only [eagleMargin, dropUnit, cacheHitAlignmentTokens]
  cases hp : enablePartialHashHits cfg s with
  | false => simp [hblock]
  | true =>
    simp only [true_and, if_true]
    split
    · omega
    · next hnot =>
      rcases hfine hp with hf | hf
      · have : ¬ cfg.hashBlockSize < a.rep.blockSize := fun hlt => hnot ⟨hf, hlt⟩
        omega
      · omega

/-! ## The turns of a lookup -/

/-- A spec group's turn, with the states before and after it. -/
structure Turn where
  idx : ℕ
  group : SpecGroup
  before : Reconciling
  after : Reconciling

/-- The spec at `idx` is verified, and another one shortens the candidate by its own drop. -/
def Turn.Stale (idx : ℕ) (t : Turn) : Prop :=
  t.idx ≠ idx ∧ drops t.idx t.group t.before = true ∧ idx ∈ t.before.eagleVerified ∧
    t.after.currHitLength < t.before.currHitLength
  deriving Decidable

/-- The turns of `reconcilePass`. -/
def passTurns (cfg : KVCacheConfig) (s : KVCacheManager H) (hashes : List H) (maxLength : ℕ) :
    ℕ → List SpecGroup → Reconciling → List Turn
  | _, [], _ => []
  | idx, a :: as, st =>
    match reconcileGroup cfg s hashes maxLength idx a st with
    | .error _ => []
    | .ok st' => ⟨idx, a, st, st'⟩ :: passTurns cfg s hashes maxLength (idx + 1) as st'

/-- The turns of `reconcile`. -/
def reconcileTurns (cfg : KVCacheConfig) (s : KVCacheManager H) (hashes : List H) (maxLength : ℕ)
    (as : List SpecGroup) (simple : Bool) : ℕ → ℕ → Reconciling → List Turn
  | 0, _, _ => []
  | n + 1, hitLength, st =>
    passTurns cfg s hashes maxLength 0 as { st with currHitLength := hitLength } ++
      match reconcilePass cfg s hashes maxLength 0 as { st with currHitLength := hitLength } with
      | .error _ => []
      | .ok st =>
        if hitLength ≤ st.currHitLength ∨ simple = true then []
        else reconcileTurns cfg s hashes maxLength as simple n st.currHitLength st

/-- The turns of `find_longest_cache_hit` of the hybrid coordinator. -/
def lookupTurns (cfg : KVCacheConfig) (s : KVCacheManager H) (hashes : List H) (maxLength : ℕ) :
    List Turn :=
  reconcileTurns cfg s hashes maxLength s.attentionGroups
    (decide (s.attentionGroups.length = 2) && fullAttentionFirst s.attentionGroups)
    (maxLength + 1) maxLength ⟨maxLength, 0, fun _ => none, []⟩

section Search

variable {n dcp : ℕ} {drop : Bool} {hit : CacheHit}

/-- **A drop of full attention** leaves a unit that is cached. -/
theorem find_fullAttention (hfull : a.rep.isFullAttention = true)
    (h : a.rep.findLongestCacheHit s.pool (specProbe cfg s hashes a) n true dcp = .ok hit)
    (hpos : 0 < hit.hitLength) : hit.hitLength + dropUnit cfg s a ≤ n ∧
      (specProbe cfg s hashes a).Covers s.pool (hit.hitLength + dropUnit cfg s a) := by
  have hhit : hit = (specProbe cfg s hashes a).fullAttentionHit s.pool n true := by
    rw [isFullAttention] at hfull
    rw [Group.findLongestCacheHit] at h
    split at h
    · cases h
      rfl
    · cases h
      rfl
    all_goals simp_all
  subst hhit
  exact (Probe.fullAttentionHit_covers a.rep.blockSize_pos n true).2.2.2 rfl hpos

/-- **A drop of a window** leaves a block that is cached. -/
theorem find_window {w extra : ℕ} (hspec : a.rep.spec = .slidingWindow w extra)
    (h : a.rep.findLongestCacheHit s.pool (specProbe cfg s hashes a) n true dcp = .ok hit)
    (hpos : 0 < hit.hitLength) :
    hit.hitLength + a.rep.blockSize ≤ n ∧ WindowVerified cfg s hashes a hit.hitLength := by
  rw [Group.findLongestCacheHit, hspec] at h
  obtain ⟨-, -, h⟩ := bind_eq_ok.1 h
  obtain ⟨⟨⟨-, hvalid, -⟩, hbehind⟩, -⟩ :=
    Probe.slidingWindowHit_spec a.rep.blockSize_pos (.inr (.inl rfl)) h
  obtain ⟨hle, hcached⟩ := hbehind rfl hpos
  rw [WindowVerified, hspec]
  exact ⟨hle, hvalid, hcached⟩

/-- A hit of a window finds the blocks it reads. -/
theorem find_window_valid (hs : Hybrid cfg s) {w extra : ℕ}
    (hspec : a.rep.spec = .slidingWindow w extra)
    (h : a.rep.findLongestCacheHit s.pool (specProbe cfg s hashes a) n drop dcp = .ok hit)
    (hpos : 0 < hit.hitLength) :
    (specProbe cfg s hashes a).Valid s.pool a.rep.spec hit.hitLength := by
  cases drop with
  | true => exact (find_window hspec h hpos).2.1
  | false =>
    rw [Group.findLongestCacheHit, hspec] at h
    obtain ⟨-, -, h⟩ := bind_eq_ok.1 h
    have halign : 0 < cacheHitAlignmentTokens cfg s := by
      rw [cacheHitAlignmentTokens]
      split
      · exact hs.hash_pos
      · exact hs.align_pos
    have hfinds : (specProbe cfg s hashes a).Finds s.pool (.searched (.slidingWindow w extra)) n
        hit :=
      Probe.finds_slidingWindowHit ⟨a.rep.blockSize_pos, halign,
        (Probe.slidingWindowHit_eq_ok h).1⟩ h
    rw [hspec]
    exact fun i hi => hfinds.greatest.1.2.1 i hi.searched

/-- The kinds of groups that can drop a unit, or need not. -/
theorem find_drop_kinds
    (h : a.rep.findLongestCacheHit s.pool (specProbe cfg s hashes a) n true dcp = .ok hit) :
    a.rep.isFullAttention = true ∨ a.rep.isMamba = true ∨
      ∃ w extra, a.rep.spec = .slidingWindow w extra := by
  cases hspec : a.rep.spec with
  | fullAttention => exact .inl (by simp [isFullAttention, hspec])
  | rswa w => exact .inl (by simp [isFullAttention, hspec])
  | slidingWindow w extra => exact .inr (.inr ⟨w, extra, rfl⟩)
  | mamba mode m => exact .inr (.inl (by simp [isMamba, hspec]))
  | chunkedLocalAttention c =>
    rw [Group.findLongestCacheHit, hspec] at h
    simp [bind_eq_ok, Probe.chunkedLocalHit] at h
  | crossAttention =>
    rw [Group.findLongestCacheHit, hspec] at h
    cases h

/-- **No turn makes the candidate longer.** -/
theorem find_le_curr (hs : Hybrid cfg s) (ha : ∃ gm ∈ s.managers, gm.1 = a.rep)
    (h : a.rep.findLongestCacheHit s.pool (specProbe cfg s hashes a)
      (searchBound cfg s maxLength idx a st) (drops idx a st) dcp = .ok hit) :
    hit.hitLength ≤ st.currHitLength := by
  have hle := findLongestCacheHit_le a.rep.blockSize_pos h
  have hmargin := eagleMargin_le hs ha
  have hunit : dropUnit cfg s a ≤ a.rep.blockSize := min_le_right _ _
  by_cases hdrop : drops idx a st = true ∧ ¬ a.rep.isMamba = true
  · rw [searchBound, if_pos hdrop] at h hle
    rw [hdrop.1] at h
    rcases Nat.eq_zero_or_pos hit.hitLength with hz | hpos
    · omega
    rcases find_drop_kinds h with hfull | hmamba | ⟨w, extra, hspec⟩
    · obtain ⟨hbound, -⟩ := find_fullAttention hfull h hpos
      omega
    · exact absurd hmamba hdrop.2
    · obtain ⟨hbound, -⟩ := find_window hspec h hpos
      omega
  · rwa [searchBound, if_neg hdrop] at hle

end Search

/-! ## The drops during the descent -/

/-- What is known about the drops: full attention reaches a unit beyond its kept hit, and
a verified window at position `i` is verified at the current length, or a turn of `T` to this
length has left it stale. -/
structure Dropped (cfg : KVCacheConfig) (s : KVCacheManager H) (hashes : List H)
    (as : List SpecGroup) (i : ℕ) (T : Turn → Prop) (st : Reconciling) : Prop where
  full : ∀ k b hit, as[k]? = some b → b.rep.isFullAttention = true → st.hits k = some hit →
    st.currHitLength ≤ hit.hitLength ∧ (b.useEagle = true → 0 < hit.hitLength →
      (specProbe cfg s hashes b).Covers s.pool (hit.hitLength + dropUnit cfg s b))
  looked : ∀ k ∈ st.eagleVerified, st.hits k ≠ none
  kinds : ∀ k b, as[k]? = some b → b.useEagle = true → st.hits k ≠ none →
    b.rep.isFullAttention = true ∨ b.rep.isMamba = true ∨
      ∃ w extra, b.rep.spec = .slidingWindow w extra
  window : ∀ b w extra, as[i]? = some b → b.rep.spec = .slidingWindow w extra →
    i ∈ st.eagleVerified → 0 < st.currHitLength →
    WindowVerified cfg s hashes b st.currHitLength ∨
      ∃ t, T t ∧ t.Stale i ∧ t.after.currHitLength = st.currHitLength

/-- What a turn leaves for the rest of the pass. -/
structure DropTurn (cfg : KVCacheConfig) (s : KVCacheManager H) (hashes : List H) (idx : ℕ)
    (a : SpecGroup) (st st' : Reconciling) : Prop where
  looked : st'.hits idx ≠ none
  frame : ∀ k ≠ idx, st'.hits k = st.hits k
  curr_le : st'.currHitLength ≤ st.currHitLength
  kept : st'.currHitLength = st.currHitLength → ∀ k ∈ st.eagleVerified, k ∈ st'.eagleVerified
  verified : a.useEagle = true → a.rep.isFullAttention = false →
    st'.currHitLength = st.currHitLength ∨ idx ∉ st.eagleVerified → idx ∈ st'.eagleVerified
  valid : ∀ w extra, a.rep.spec = .slidingWindow w extra → 0 < st'.currHitLength →
    (specProbe cfg s hashes a).Valid s.pool a.rep.spec st'.currHitLength

section Descent

variable {i : ℕ} {T : Turn → Prop} (hs : Hybrid cfg s)
  (hrep : ∀ a ∈ as, ∃ gm ∈ s.managers, gm.1 = a.rep)

include hs hrep

/-- **A turn keeps what is known about the drops.** -/
theorem Dropped.turn (h : Dropped cfg s hashes as i T st) (ha : as[idx]? = some a)
    (hturn : reconcileGroup cfg s hashes maxLength idx a st = .ok st') (hT : T ⟨idx, a, st, st'⟩) :
    Dropped cfg s hashes as i T st' ∧ DropTurn cfg s hashes idx a st st' := by
  obtain ⟨hit, hfull, hhit, rfl⟩ | ⟨hit, hnone, hfind, rfl⟩ := reconcileGroup_eq_ok hturn
  · -- the kept hit is not shorter than the candidate
    have hmin : min st.currHitLength hit.hitLength = st.currHitLength :=
      min_eq_left (h.full idx a hit ha hfull hhit).1
    rw [hmin]
    refine ⟨h, by simp [hhit], fun _ _ => rfl, le_rfl, fun _ _ hk => hk, fun _ hf => ?_, ?_⟩
    · rw [hfull] at hf
      cases hf
    · intro w extra hspec
      simp [isFullAttention, hspec] at hfull
  have hle : hit.hitLength ≤ st.currHitLength :=
    find_le_curr hs (hrep a (mem_of_getElem? ha)) hfind
  -- an EAGLE spec that was not looked up before makes its drop
  have hdrops : a.useEagle = true → st.hits idx = none → drops idx a st = true := by
    intro hu hn
    have hnot : idx ∉ st.eagleVerified := fun hv => h.looked idx hv hn
    simp [drops, hu, hnot]
  refine ⟨⟨?_, ?_, ?_, ?_⟩, by simp, fun k hk => by simp [hk], hle, ?_, ?_,
    fun w extra hspec => find_window_valid hs hspec hfind⟩
  · intro k b hit' hb hf hhit'
    rcases eq_or_ne k idx with rfl | hne
    · obtain rfl := Option.some.inj (ha.symm.trans hb)
      simp only [Function.update_self, Option.some.injEq] at hhit'
      subst hhit'
      refine ⟨le_rfl, fun hu hpos => ?_⟩
      rw [hdrops hu (hnone hf)] at hfind
      exact (find_fullAttention hf hfind hpos).2
    · simp only [Function.update_of_ne hne] at hhit'
      obtain ⟨hcur, hcov⟩ := h.full k b hit' hb hf hhit'
      exact ⟨hle.trans hcur, hcov⟩
  · intro k hk
    rcases eq_or_ne k idx with rfl | hne
    · simp
    · simp only [Function.update_of_ne hne]
      refine h.looked k ?_
      simp only at hk
      split_ifs at hk with hd hlt
      · exact (mem_cons.1 hk).resolve_left hne
      · exact absurd hk (not_mem_nil)
      · exact hk
  · intro k b hb hu hk
    rcases eq_or_ne k idx with rfl | hne
    · obtain rfl := Option.some.inj (ha.symm.trans hb)
      rcases eq_or_ne (st.hits k) none with hn | hsome
      · rw [hdrops hu hn] at hfind
        exact find_drop_kinds hfind
      · exact h.kinds k a ha hu hsome
    · simp only [Function.update_of_ne hne] at hk
      exact h.kinds k b hb hu hk
  · intro b w extra hb hspec hk hpos
    simp only at hk hpos ⊢
    -- at the same length the window stays verified, or stale
    have hsame (hv : i ∈ st.eagleVerified) (heq : hit.hitLength = st.currHitLength) :
        WindowVerified cfg s hashes b hit.hitLength ∨
          ∃ t, T t ∧ t.Stale i ∧ t.after.currHitLength = hit.hitLength := by
      rw [heq] at hpos ⊢
      exact h.window b w extra hb hspec hv hpos
    cases hd : drops idx a st with
    | true =>
      rw [hd, if_pos rfl] at hk
      rcases eq_or_ne i idx with rfl | hne
      · obtain rfl := Option.some.inj (ha.symm.trans hb)
        rw [hd] at hfind
        exact .inl (find_window hspec hfind hpos).2
      · have hv := (mem_cons.1 hk).resolve_left hne
        rcases hle.eq_or_lt with heq | hlt
        · exact hsame hv heq
        · exact .inr ⟨_, hT, ⟨hne.symm, hd, hv, hlt⟩, rfl⟩
    | false =>
      rw [hd, if_neg (by simp)] at hk
      split at hk
      · cases hk
      · exact hsame hk (by omega)
  · intro heq k hk
    simp only at heq ⊢
    split
    · exact mem_cons_of_mem _ hk
    · rwa [if_neg (by omega)]
  · intro hu hf hor
    simp only at hor ⊢
    split
    · exact mem_cons_self
    · next hd =>
      have hv : idx ∈ st.eagleVerified := by simpa [drops, hu] using hd
      rw [if_neg (by
        rcases hor with heq | hnot
        · omega
        · exact absurd hv hnot)]
      exact hv

/-- **A pass keeps what is known about the drops**, and every EAGLE spec is verified and every
window has a hit at the end unless the candidate was shortened. -/
theorem Dropped.pass {done l : List SpecGroup} (has : as = done ++ l)
    (h : Dropped cfg s hashes as i T st) (hbefore : ∀ k < done.length, st.hits k ≠ none)
    (hT : ∀ t ∈ passTurns cfg s hashes maxLength done.length l st, T t)
    (hpass : reconcilePass cfg s hashes maxLength done.length l st = .ok st') :
    Dropped cfg s hashes as i T st' ∧ (∀ k < as.length, st'.hits k ≠ none) ∧
      st'.currHitLength ≤ st.currHitLength ∧
      (st'.currHitLength = st.currHitLength → ∀ k ∈ st.eagleVerified, k ∈ st'.eagleVerified) ∧
      ∀ k b, l[k]? = some b → (st'.currHitLength = st.currHitLength ∨
          (k + 1 = l.length ∧ st.hits (done.length + k) = none)) →
        (b.useEagle = true → b.rep.isFullAttention = false → done.length + k ∈ st'.eagleVerified) ∧
        ∀ w extra, b.rep.spec = .slidingWindow w extra → 0 < st'.currHitLength →
          (specProbe cfg s hashes b).Valid s.pool b.rep.spec st'.currHitLength := by
  induction l generalizing done st with
  | nil =>
    cases hpass
    refine ⟨h, fun k hk => hbefore k (by simpa [has] using hk), le_rfl, fun _ _ hk => hk, by simp⟩
  | cons a l ih =>
    have ha : as[done.length]? = some a := by simp [has]
    obtain ⟨st₁, hturn, hpass⟩ := bind_eq_ok.1 hpass
    simp only [passTurns, hturn, forall_mem_cons] at hT
    obtain ⟨h₁, ht⟩ := h.turn hs hrep ha hturn hT.1
    have hlen : (done ++ [a]).length = done.length + 1 := by simp
    obtain ⟨h', hhits, hle, hkept, hver⟩ := @ih st₁ (done ++ [a]) (by simp [has]) h₁
      (fun k hk => by
        rw [hlen] at hk
        rcases eq_or_ne k done.length with rfl | hne
        · exact ht.looked
        · rw [ht.frame k hne]
          exact hbefore k (by omega)) (by rw [hlen]; exact hT.2) (by rw [hlen]; exact hpass)
    have hturnle := ht.curr_le
    refine ⟨h', hhits, hle.trans ht.curr_le, ?_, ?_⟩
    · intro heq k hk
      exact hkept (by omega) k (ht.kept (by omega) k hk)
    · intro k b hb hor
      cases k with
      | zero =>
        obtain rfl : a = b := by simpa using hb
        rw [add_zero] at hor ⊢
        rcases hor with heq | ⟨hlast, hnone⟩
        · have hcurr : st'.currHitLength = st₁.currHitLength := by omega
          refine ⟨fun hu hf => hkept hcurr _ (ht.verified hu hf (.inl (by omega))), ?_⟩
          rw [hcurr]
          exact ht.valid
        · obtain rfl : l = [] := by simpa using hlast
          cases hpass
          exact ⟨fun hu hf => ht.verified hu hf (.inr fun hv => h.looked _ hv hnone), ht.valid⟩
      | succ k =>
        have hpos : done.length + (k + 1) = done.length + 1 + k := by omega
        rw [hlen] at hver
        rw [hpos] at hor ⊢
        refine hver k b (by simpa using hb) (hor.imp (fun heq => by omega) ?_)
        rintro ⟨hlast, hnone⟩
        exact ⟨by simpa using hlast, by rwa [ht.frame _ (by omega)]⟩

/-- **At the end of the descent every EAGLE spec is verified**, and every window has a hit. -/
theorem Dropped.reconcile {simple : Bool}
    (hsimple : simple = true → (∃ a b, as = [a, b] ∧ a.rep.isFullAttention = true) ∧
      ∀ k, st.hits k = none) {fuel hitLength L : ℕ} (hfuel : hitLength < fuel)
    (h : Dropped cfg s hashes as i T { st with currHitLength := hitLength })
    (hT : ∀ t ∈ reconcileTurns cfg s hashes maxLength as simple fuel hitLength st, T t)
    (hrec : reconcile cfg s hashes maxLength as simple fuel hitLength st = .ok (L, st')) :
    Dropped cfg s hashes as i T st' ∧ st'.currHitLength = L ∧ (∀ k < as.length, st'.hits k ≠ none) ∧
      ∀ k b, as[k]? = some b → b.rep.isFullAttention = false →
        (b.useEagle = true → k ∈ st'.eagleVerified) ∧
        ∀ w extra, b.rep.spec = .slidingWindow w extra → 0 < L →
          (specProbe cfg s hashes b).Valid s.pool b.rep.spec L := by
  induction fuel generalizing hitLength st with
  | zero => omega
  | succ fuel ih =>
    obtain ⟨st₁, hpass, hrec⟩ := bind_eq_ok.1 hrec
    simp only [reconcileTurns, hpass, forall_mem_append] at hT
    obtain ⟨h₁, hhits, hle, -, hver⟩ := @Dropped.pass _ cfg s hashes maxLength as
      { st with currHitLength := hitLength } st₁ i T hs hrep [] as rfl h (by simp) hT.1 hpass
    simp only [length_nil, zero_add] at hver
    have hle : st₁.currHitLength ≤ hitLength := hle
    split at hrec
    · next hstop =>
      cases hrec
      have heq : st'.currHitLength = L := le_antisymm hle hstop
      refine ⟨h₁, heq, hhits, fun k b hb hf => ?_⟩
      obtain ⟨hv, hvalid⟩ := hver k b hb (.inl heq)
      exact ⟨fun hu => hv hu hf, heq ▸ hvalid⟩
    next hstop =>
    split at hrec
    · next hs' =>
      cases hrec
      obtain ⟨⟨a, b, rfl, hfull⟩, hnone⟩ := hsimple hs'
      refine ⟨h₁, rfl, hhits, fun k c hc hf => ?_⟩
      obtain ⟨hv, hvalid⟩ := hver k c hc (.inr ⟨by
        match k with
        | 0 =>
          obtain rfl : a = c := by simpa using hc
          rw [hf] at hfull
          cases hfull
        | 1 => rfl
        | k + 2 => simp at hc, hnone k⟩)
      exact ⟨fun hu => hv hu hf, hvalid⟩
    · next hs' =>
      rw [if_neg (by simp [hstop, hs'])] at hT
      exact @ih st₁ (fun hs'' => absurd hs'' hs') st₁.currHitLength (by omega) h₁ hT.2 hrec

end Descent

/-- The drop of an EAGLE spec is verified at `L`: full attention is cached up to a unit
beyond it, a window has a hit and the block behind it. -/
def EagleVerified (cfg : KVCacheConfig) (s : KVCacheManager H) (hashes : List H) (a : SpecGroup)
    (L : ℕ) : Prop :=
  if a.rep.isFullAttention then
    (specProbe cfg s hashes a).Covers s.pool (L + dropUnit cfg s a)
  else WindowVerified cfg s hashes a L

/-- No length of the descent is above the bound of the lookup. -/
structure Bounded (maxLength : ℕ) (st : Reconciling) : Prop where
  curr : st.currHitLength ≤ maxLength
  longest : st.longestHitLength ≤ maxLength

theorem Bounded.turn (h : Bounded maxLength st)
    (hturn : reconcileGroup cfg s hashes maxLength idx a st = .ok st') : Bounded maxLength st' := by
  have hcurr := h.curr
  obtain ⟨hit, -, -, rfl⟩ | ⟨hit, -, hfind, rfl⟩ := reconcileGroup_eq_ok hturn
  · exact ⟨(min_le_left _ _).trans hcurr, h.longest⟩
  · have hle := findLongestCacheHit_le a.rep.blockSize_pos hfind
    have hbound : searchBound cfg s maxLength idx a st ≤ maxLength := by
      rw [searchBound]
      split <;> omega
    exact ⟨hle.trans hbound, Nat.max_le.2 ⟨h.longest, hle.trans hbound⟩⟩

theorem Bounded.pass (h : Bounded maxLength st)
    (hpass : reconcilePass cfg s hashes maxLength idx as st = .ok st') : Bounded maxLength st' := by
  induction as generalizing idx st with
  | nil =>
    cases hpass
    exact h
  | cons a as ih =>
    obtain ⟨st₁, hturn, hpass⟩ := bind_eq_ok.1 hpass
    exact ih (h.turn hturn) hpass

theorem Bounded.reconcile {simple : Bool} {fuel hitLength L : ℕ} (hle : hitLength ≤ maxLength)
    (h : Bounded maxLength { st with currHitLength := hitLength })
    (hrec : reconcile cfg s hashes maxLength as simple fuel hitLength st = .ok (L, st')) :
    L ≤ maxLength ∧ st'.longestHitLength ≤ maxLength := by
  induction fuel generalizing hitLength st with
  | zero =>
    cases hrec
    exact ⟨hle, h.longest⟩
  | succ fuel ih =>
    obtain ⟨st₁, hpass, hrec⟩ := bind_eq_ok.1 hrec
    have h₁ := h.pass hpass
    split at hrec
    · cases hrec
      exact ⟨hle, h₁.longest⟩
    split at hrec
    · cases hrec
      exact ⟨h₁.curr, h₁.longest⟩
    · exact ih h₁.curr h₁ hrec

theorem findLongestCacheHit_le {blocks : List (List BlockId)} {L uncached : ℕ}
    (h : s.findLongestCacheHit cfg hashes maxLength = .ok (blocks, L, uncached)) :
    L + uncached ≤ maxLength := by
  rw [findLongestCacheHit] at h
  split at h
  · cases h
    exact zero_le _
  split at h
  · next g m heq =>
    obtain ⟨hit, hfind, h⟩ := bind_eq_ok.1 h
    cases h
    exact Group.findLongestCacheHit_le g.blockSize_pos hfind
  · simp only [findLongestCacheHitHybrid, bind_eq_ok] at h
    obtain ⟨⟨L', st⟩, hrec, h⟩ := h
    cases h
    have hstart : Bounded maxLength
        { (⟨maxLength, 0, fun _ => none, []⟩ : Reconciling) with currHitLength := maxLength } :=
      ⟨le_rfl, zero_le _⟩
    obtain ⟨hL, hlong⟩ := hstart.reconcile le_rfl hrec
    show L' + (st.longestHitLength - L') ≤ maxLength
    omega

/-- **A lookup leaves at least the last token to compute**, and records no boundary beyond
it. -/
theorem getComputedBlocks_le {req : KVRequest H} {blocks : List (List BlockId)} {n boundary : ℕ}
    (h : s.getComputedBlocks cfg req = .ok (blocks, n, boundary)) :
    n ≤ req.numTokens - 1 ∧ boundary ≤ req.numTokens - 1 := by
  rw [getComputedBlocks] at h
  split at h
  · cases h
    exact ⟨zero_le _, zero_le _⟩
  · obtain ⟨⟨bs, L, uncached⟩, hfind, h⟩ := bind_eq_ok.1 h
    cases h
    have hle := findLongestCacheHit_le hfind
    refine ⟨by omega, ?_⟩
    split <;> omega

end KVCacheManager

/-! ## One window -/

namespace Probe

variable {q : Probe H} {p : BlockPool H} {w extra n : ℕ} {drop : Bool} {hit : CacheHit}

/-- A window of one token has a hit at every aligned length and reads nothing, but the search
asks for a block. -/
theorem not_greatest_of_one_token (hq : q.Coarse) (hids : q.groupIds ≠ []) (hnull : p.NullUncached)
    (hw : w ≤ 1) (hn : q.alignmentTokens ≤ n) (h : q.slidingWindowHit p w n false = .ok hit)
    (hgreatest : IsGreatest (q.DropHits p (.slidingWindow w extra) n false) hit.hitLength) :
    hit.rows ≠ q.rowsFor p (.slidingWindow w extra) hit.hitLength := by
  have hbs := hq.blockSize_pos
  have hfinds : q.Finds p (KVCacheSpec.slidingWindow w extra).searched n hit :=
    finds_slidingWindowHit hq h
  obtain ⟨⟨⟨hdvd, hvalid, -⟩, -⟩, hrows⟩ := hfinds
  have hfirst : q.alignmentTokens ∈ q.DropHits p (.slidingWindow w extra) n false := by
    obtain ⟨e, he⟩ := hq.exists_blocks dvd_rfl
    refine ⟨⟨dvd_rfl, fun i hi => ?_, hn⟩, nofun⟩
    rw [he, needs_slidingWindow hbs, cdiv, Nat.div_eq_of_lt (by omega)] at hi
    omega
  intro heq
  refine rowsFor_searched_ne hbs (hq.dvd.trans hdvd) ?_ hw hids hnull hvalid ?_
  · exact hq.alignment_pos.trans_le (hgreatest.2 hfirst)
  · rw [← hrows, ← heq]

/-- A run at the left end that is cut to the alignment before the drop loses a hit. -/
theorem exists_long_of_greatest (hq : q.Coarse) (hne : q.blockSize ≠ q.alignmentTokens)
    (h : q.slidingWindowHit p w n true = .ok hit)
    (hgreatest : IsGreatest (q.DropHits p (.slidingWindow w extra) n true) hit.hitLength)
    {L : ℕ} (hL : L ∈ q.DropHits p (.slidingWindow w extra) n true) (hpos : 0 < L) :
    ∃ L' ∈ q.DropHits p (.slidingWindow w extra) n true, w - 1 ≤ L' := by
  have hbs := hq.blockSize_pos
  refine ⟨_, hgreatest.1, ?_⟩
  obtain ⟨-, k, cur, e, hrun, -, hlength, -, -, hcases⟩ := slidingWindowHit_eq_ok h
  have hneed : max 1 (contiguousBlocksForHit w q.blockSize true) =
      cdiv (w - 1) q.blockSize + 1 := max_eq_right (succ_pos _)
  rw [hneed] at hrun hcases
  rw [hlength]
  obtain ⟨he, hlen⟩ | ⟨rfl, hlen, hlost⟩ := hcases
  · -- a run that is long enough
    have hle : cdiv (w - 1) q.blockSize ≤ e := by
      rw [Bool.toNat_true] at he
      omega
    rw [cdiv, Nat.div_le_iff_le_mul_add_pred hbs] at hle
    rw [mul_comm]
    omega
  · obtain ⟨f, rfl⟩ := hq.exists_blocks hL.1.1
    have hf : 0 < f := Nat.pos_of_mul_pos_right hpos
    have hfc := hrun.le_of_mem_dropHits hbs hf rfl hL
    rw [Bool.toNat_true, zero_add] at hfc
    have hrunle := hrun.le
    have hends : q.EndsAt true (0 + cur.length) := hrun.ends (ne_nil_of_length_pos (by omega))
    have hcached (j : ℕ) (hj : j < cur.length) : q.Cached p j :=
      hrun.cached j (zero_le j) (by omega)
    -- the run without its last block is a hit
    have hmem : (cur.length - 1) * q.blockSize ∈ q.DropHits p (.slidingWindow w extra) n true := by
      have hn : (cur.length - 1) * q.blockSize + q.blockSize ≤ n := by
        rw [← succ_mul]
        exact (le_div_iff_mul_le hbs).1 (by omega)
      refine ⟨⟨by simpa [EndsAt] using hends, fun i hi => hcached i ?_, by omega⟩,
        fun _ _ => ⟨hn, ?_⟩⟩
      · rw [needs_slidingWindow hbs] at hi
        omega
      · rw [Nat.mul_div_cancel _ hbs]
        exact hcached _ (by omega)
    have hle := hgreatest.2 hmem
    rw [hlength] at hle
    have := Nat.le_of_mul_le_mul_right hle hbs
    have := hlost.2 ⟨rfl, hne, by omega⟩
    rw [Bool.toNat_true] at this
    omega

/-- **The search of a sliding window returns the greatest hit**, and the blocks it reads, exactly
if the window is not one token without a drop, and a drop that is not of the alignment meets no
cache in which all hits are shorter than the window. -/
theorem slidingWindowHit_greatest (q : Probe H) (p : BlockPool H) (w extra n : ℕ) (drop : Bool)
    (hq : q.Coarse) (hids : q.groupIds ≠ []) (hhash : q.Hashed (n / q.blockSize))
    (hnull : p.NullUncached) : (∃ hit, q.slidingWindowHit p w n drop = .ok hit ∧
      IsGreatest (q.DropHits p (.slidingWindow w extra) n drop) hit.hitLength ∧
      hit.rows = q.rowsFor p (.slidingWindow w extra) hit.hitLength) ↔
    (1 < w ∨ drop = true ∨ n < q.alignmentTokens) ∧ (drop = true → q.blockSize ≠ q.alignmentTokens →
        ∀ L ∈ q.DropHits p (.slidingWindow w extra) n drop, 0 < L → L < w - 1 →
          ∃ L' ∈ q.DropHits p (.slidingWindow w extra) n drop, w - 1 ≤ L') := by
  constructor
  · rintro ⟨hit, h, hgreatest, hrows⟩
    refine ⟨?_, ?_⟩
    · by_contra hnot
      push Not at hnot
      obtain ⟨hw, hdrop, hn⟩ := hnot
      obtain rfl : drop = false := by simpa using hdrop
      exact not_greatest_of_one_token hq hids hnull hw hn h hgreatest hrows
    · rintro rfl hne L hL hpos -
      exact exists_long_of_greatest hq hne h hgreatest hL hpos
  · rintro ⟨hw, hfill⟩
    obtain ⟨hit, h⟩ := slidingWindowHit_isOk hq hhash
    obtain ⟨hmem, hrows, hmax⟩ := slidingWindowHit_spec hq.blockSize_pos hw h
    refine ⟨hit, h, ⟨hmem, fun L hL => not_lt.1 fun hlt => ?_⟩, hrows⟩
    obtain ⟨hdrop, hne, hshort⟩ := hmax L hL hlt
    obtain ⟨L', hL', hfull⟩ := hfill hdrop hne L hL (by omega) hshort
    have := (hmax L' hL' (by omega)).2.2
    omega

end Probe

namespace KVCacheManager.OneToken

/-- Two windows with a drafter, of which the second has a hit of four blocks with the block behind
it and the first has every block. -/
def drafted : KVCacheManager ℕ :=
  coordinator [group (.slidingWindow 2 0) 0 true, group (.slidingWindow 3 0) 1 true] fun
    | 0 => [(10, 1), (11, 2), (12, 3), (13, 4), (14, 5), (15, 6)]
    | _ => [(12, 7), (13, 8), (14, 9)]

/-- The first window of `drafted`. -/
def draftedWindow : SpecGroup := ⟨group (.slidingWindow 2 0) 0 true, [0], true⟩

/-- Two windows with a drafter: the first has a hit of eight blocks with the block behind it
and one of four blocks without, the second has a hit of four. -/
def outdated : KVCacheManager ℕ :=
  coordinator [group (.slidingWindow 2 0) 0 true, group (.slidingWindow 3 0) 1 true] fun
    | 0 => [(13, 1), (17, 2), (18, 3)]
    | _ => [(12, 4), (13, 5), (14, 6)]

/-- The first window of `outdated`. -/
def outdatedWindow : SpecGroup := ⟨group (.slidingWindow 2 0) 0 true, [0], true⟩

theorem hybrid_drafted : Hybrid cfg drafted where
  hash_pos := by decide
  align_pos := by decide
  hash_dvd := by decide
  block_dvd := by decide

/-- A request of three blocks of one token, with hits at even lengths. -/
def even : Probe ℕ := ⟨[0], [10, 11, 12], 1, 1, 2⟩

def cached (blocks : List (ℕ × BlockId)) : BlockPool ℕ := (coordinator [] fun _ => blocks).pool

theorem slidingWindowHit_greatest_even :
    ∃ hit, even.slidingWindowHit (cached [(11, 1), (12, 2)]) 2 3 true = .ok hit ∧
      IsGreatest (even.DropHits (cached [(11, 1), (12, 2)]) (.slidingWindow 2 0) 3 true)
        hit.hitLength ∧
      hit.rows = even.rowsFor (cached [(11, 1), (12, 2)]) (.slidingWindow 2 0) hit.hitLength := by
  refine (Probe.slidingWindowHit_greatest even _ 2 0 3 true ⟨by decide, by decide, by decide⟩
    (by decide) (by unfold Probe.Hashed; decide) (nullUncached_coordinator fun _ => by decide)).2
    ⟨by decide, fun _ _ _ _ hpos hlt => by omega⟩

/-- With all blocks cached a window of five tokens finds no hit, though two tokens are one; a
window of one token needs no block, but finds no hit without any. -/
theorem slidingWindowHit_misses :
    even.slidingWindowHit (cached [(10, 1), (11, 2), (12, 3)]) 5 3 true = .ok ⟨[], 0⟩ ∧
      2 ∈ even.DropHits (cached [(10, 1), (11, 2), (12, 3)]) (.slidingWindow 5 0) 3 true ∧
    even.slidingWindowHit (cached []) 1 3 false = .ok ⟨[], 0⟩ ∧
      2 ∈ even.DropHits (cached []) (.slidingWindow 1 0) 3 false := by
  refine ⟨by decide, ⟨⟨by decide, ?_, by decide⟩, by decide⟩, by decide,
    ⟨⟨by decide, ?_, by decide⟩, by decide⟩⟩
  · rintro i ⟨hi, -⟩
    match i with
    | 0 | 1 => decide
    | i + 2 => exact absurd hi (by simp [even])
  · rintro i ⟨hi, hi'⟩
    simp only [even] at hi hi'
    omega

end KVCacheManager.OneToken

end KVarN.Core
