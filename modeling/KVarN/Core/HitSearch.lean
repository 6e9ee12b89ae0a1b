import KVarN.Core.Lookup
import Mathlib.Order.Bounds.Basic

/-!
# What the searches for a cache hit find

A hit of `L` tokens reads some of the blocks below `L`: all of them for full
attention, those that overlap the window for a sliding window, the last one for
Mamba. The length is valid when these blocks are cached. Each search returns the
greatest valid length that is aligned and not above its bound, with exactly the
blocks that are read.

## Main definitions

* `KVCacheSpec.Needs` — the blocks a hit reads.
* `Probe.Valid`, `Probe.Finds` — valid lengths, and what a search should return.
* `Probe.Covers` — how far full attention reaches, also inside a block.

## Main results

* `Probe.finds_fullAttentionHit`, `Probe.finds_slidingWindowHit`, `Probe.finds_mambaHit`.
* `Probe.slidingWindowHit_spec` — the same with the EAGLE drop, where the next block is cached
  too, and what the search can miss.
* `Group.findLongestCacheHit_le` — no search goes beyond its bound.
-/

namespace KVarN.Core

open KVarN.Lib Core.Group KVCacheSpec List Nat

/-- The blocks that a hit of `L` tokens reads. -/
def KVCacheSpec.Needs (spec : KVCacheSpec) (blockSize L i : ℕ) : Prop :=
  match spec with
  | .slidingWindow w _ => i * blockSize < L ∧ L < (i + 1) * blockSize + (w - 1)
  | .mamba _ _ => (i + 1) * blockSize = L
  | _ => i * blockSize < L

instance (spec : KVCacheSpec) (blockSize L i : ℕ) : Decidable (spec.Needs blockSize L i) := by
  unfold KVCacheSpec.Needs
  split <;> infer_instance

/-- What the search without an EAGLE drop looks for: a window of one token is treated like one
of two. -/
def KVCacheSpec.searched : KVCacheSpec → KVCacheSpec
  | .slidingWindow w extra => .slidingWindow (max w 2) extra
  | spec => spec

theorem KVCacheSpec.Needs.searched {spec : KVCacheSpec} {bs L i : ℕ} (h : spec.Needs bs L i) :
    spec.searched.Needs bs L i := by
  cases spec with
  | slidingWindow w extra => exact ⟨h.1, h.2.trans_le (by omega)⟩
  | _ => exact h

/-- No key leads to the null block. -/
def BlockPool.NullUncached {H : Type} (p : BlockPool H) : Prop :=
  ∀ k, nullBlock ∉ p.index.cachedBlockHashToBlock k

theorem BlockPool.getCachedBlock_cons {H : Type} (p : BlockPool H) (h : H) (i : ℕ)
    (ids : List ℕ) : p.getCachedBlock h (i :: ids) = (p.index.getOneBlock (h, i)).bind fun b =>
      (p.getCachedBlock h ids).bind fun bs => some (b :: bs) := by
  simp [getCachedBlock, mapM_cons, pure, bind]

namespace Probe

variable {H : Type} {q : Probe H} {p : BlockPool H}

/-- The `i`-th block is cached for every group of the lookup. -/
def Cached (q : Probe H) (p : BlockPool H) (i : ℕ) : Prop := (q.blockRow p i).isSome = true
  deriving Decidable

/-- A hit of `L` tokens finds all blocks it reads. -/
def Valid (q : Probe H) (p : BlockPool H) (spec : KVCacheSpec) (L : ℕ) : Prop :=
  ∀ i, spec.Needs q.blockSize L i → q.Cached p i

/-- The rows of a hit of `L` tokens: cached blocks where it reads, null blocks elsewhere. -/
def rowsFor (q : Probe H) (p : BlockPool H) (spec : KVCacheSpec) (L : ℕ) : List Row :=
  (range (L / q.blockSize)).map fun i =>
    if spec.Needs q.blockSize L i then (q.blockRow p i).getD q.nullRow else q.nullRow

/-- The hit lengths a search may return. -/
def Hits (q : Probe H) (p : BlockPool H) (spec : KVCacheSpec) (n : ℕ) : Set ℕ :=
  {L | q.alignmentTokens ∣ L ∧ q.Valid p spec L ∧ L ≤ n}

/-- A search with bound `n` returns the greatest hit. -/
structure Finds (q : Probe H) (p : BlockPool H) (spec : KVCacheSpec) (n : ℕ) (hit : CacheHit) :
    Prop where
  greatest : IsGreatest (q.Hits p spec n) hit.hitLength
  rows : hit.rows = q.rowsFor p spec hit.hitLength

/-- Hits end at block boundaries. -/
structure Coarse (q : Probe H) : Prop where
  blockSize_pos : 0 < q.blockSize
  alignment_pos : 0 < q.alignmentTokens
  dvd : q.blockSize ∣ q.alignmentTokens

theorem Coarse.not_fineGrained (hq : q.Coarse) : ¬ q.fineGrained := by
  rintro ⟨hlt, -⟩
  exact absurd (le_of_dvd hq.alignment_pos hq.dvd) (by omega)

/-- A block-aligned length, in blocks. -/
theorem Coarse.exists_blocks (hq : q.Coarse) {L : ℕ} (h : q.alignmentTokens ∣ L) :
    ∃ e, L = e * q.blockSize := by
  obtain ⟨e, he⟩ := hq.dvd.trans h
  exact ⟨e, by rw [he, mul_comm]⟩

/-! ## Full attention -/

/-- **The run of cached blocks**, with the first block that is not. -/
theorem run_spec (q : Probe H) (p : BlockPool H) (i n : ℕ) :
    ∃ k ≤ n, q.run p i n = (range' i k).map (fun j => (q.blockRow p j).getD q.nullRow) ∧
      (∀ j, i ≤ j → j < i + k → q.Cached p j) ∧ (k < n → ¬ q.Cached p (i + k)) := by
  induction n generalizing i with
  | zero => exact ⟨0, le_rfl, rfl, by omega, by omega⟩
  | succ n ih =>
    rw [run]
    cases hrow : q.blockRow p i with
    | none => exact ⟨0, by omega, rfl, by omega, fun _ => by simp [Cached, hrow]⟩
    | some row =>
      obtain ⟨k, hk, hrun, hall, hstop⟩ := ih (i + 1)
      refine ⟨k + 1, by omega, ?_, ?_, fun hlt => ?_⟩
      · simp [hrun, hrow, range'_succ]
      · intro j hij hj
        rcases hij.eq_or_lt with rfl | hlt
        · simp [Cached, hrow]
        · exact hall j hlt (by omega)
      · have hstop := hstop (by omega)
        rwa [add_assoc, add_comm 1 k] at hstop

theorem cdiv_mul_self {e bs : ℕ} (hbs : 0 < bs) : cdiv (e * bs) bs = e := by
  rw [cdiv, Nat.add_sub_assoc hbs, Nat.mul_comm, Nat.mul_add_div hbs,
    div_eq_of_lt (by omega), add_zero]

/-- Rounding down to the alignment. -/
theorem isGreatest_round_down {a : ℕ} (n : ℕ) : IsGreatest {m | a ∣ m ∧ m ≤ n} (n - n % a) := by
  refine ⟨⟨dvd_sub_mod n, sub_le _ _⟩, ?_⟩
  rintro m ⟨hdvd, hm⟩
  have hmul := Nat.mul_le_mul_left a (Nat.div_le_div_right (c := a) hm)
  have hdiv := div_add_mod n a
  rw [Nat.mul_div_cancel' hdvd] at hmul
  omega

/-- **The search of full attention.** -/
theorem finds_fullAttentionHit (hq : q.Coarse) {spec : KVCacheSpec}
    (hspec : ∀ L i, spec.Needs q.blockSize L i ↔ i * q.blockSize < L) (n : ℕ) :
    q.Finds p spec n (q.fullAttentionHit p n false) := by
  have hbs := hq.blockSize_pos
  obtain ⟨k, hk, hrun, hall, hstop⟩ := run_spec q p 0 (n / q.blockSize)
  have hlen : (q.run p 0 (n / q.blockSize)).length = k := by simp [hrun]
  have hhit : q.fullAttentionHit p n false = ⟨(q.run p 0 (n / q.blockSize)).take
          (cdiv (k * q.blockSize - k * q.blockSize % q.alignmentTokens) q.blockSize),
        k * q.blockSize - k * q.blockSize % q.alignmentTokens⟩ := by
    simp [fullAttentionHit, trimHit, fullAttentionRun, hq.not_fineGrained, hlen]
  obtain ⟨⟨hdvd, hle⟩, hmax⟩ := isGreatest_round_down (k * q.blockSize)
  have hkn : k * q.blockSize ≤ n := (le_div_iff_mul_le hbs).1 hk
  obtain ⟨e, he⟩ := hq.exists_blocks hdvd
  have hek : e ≤ k := Nat.le_of_mul_le_mul_right (he ▸ hle) hbs
  rw [hhit]
  refine ⟨⟨⟨hdvd, ?_, hle.trans hkn⟩, ?_⟩, ?_⟩
  · intro i hi
    rw [hspec] at hi
    exact hall i (Nat.zero_le i) (by
      have := Nat.lt_of_mul_lt_mul_right (hi.trans_le hle)
      omega)
  · rintro L ⟨hL, hvalid, hLn⟩
    refine hmax ⟨hL, ?_⟩
    obtain ⟨f, rfl⟩ := hq.exists_blocks hL
    by_contra hgt
    have hkf : k < f := Nat.lt_of_mul_lt_mul_right (not_le.1 hgt)
    have hfn : f ≤ n / q.blockSize := (le_div_iff_mul_le hbs).2 hLn
    have hnot := hstop (by omega)
    rw [zero_add] at hnot
    exact hnot (hvalid k ((hspec _ _).2 (Nat.mul_lt_mul_of_pos_right hkf hbs)))
  · simp only [he, cdiv_mul_self hbs, rowsFor, Nat.mul_div_cancel _ hbs, hrun, ← map_take,
      ← range_eq_range', take_range, min_eq_left hek]
    refine map_congr_left fun i hi => ?_
    rw [if_pos ((hspec _ _).2 (Nat.mul_lt_mul_of_pos_right (mem_range.1 hi) hbs))]

/-! ## Sliding windows -/

/-- Where a run of cached blocks may end: at the alignment once the block that is dropped
is gone. -/
def EndsAt (q : Probe H) (drop : Bool) (e : ℕ) : Prop :=
  q.alignmentTokens ∣ (if drop then e - 1 else e) * q.blockSize

/-- The search of a sliding window has the run `cur` from position `i` on, and found no
longer hit among the first `n` blocks. -/
structure Run (q : Probe H) (p : BlockPool H) (need : ℕ) (drop : Bool) (n i : ℕ)
    (cur : List Row) : Prop where
  le : i + cur.length ≤ n
  rows : cur = (range' i cur.length).map fun j => (q.blockRow p j).getD q.nullRow
  cached : ∀ j, i ≤ j → j < i + cur.length → q.Cached p j
  ends : cur ≠ [] → q.EndsAt drop (i + cur.length)
  missed : ∀ e, q.EndsAt drop e → i + cur.length < e → e ≤ n →
    ∃ j, i ≤ j ∧ j < e ∧ e ≤ j + need ∧ ¬ q.Cached p j

variable {need n i : ℕ} {drop : Bool} {cur : List Row}

theorem Run.miss (h : q.Run p need drop n (i + 1) cur) (hshort : cur.length < need)
    (hi : ¬ q.Cached p i) : q.Run p need drop n i [] := by
  have hle := h.le
  refine ⟨by simp; omega, rfl, by simp; omega, fun hne => absurd rfl hne, ?_⟩
  intro e he hie hen
  simp only [length_nil, add_zero] at hie
  rcases lt_or_ge (i + 1 + cur.length) e with hlt | hge
  · obtain ⟨j, hj, hrest⟩ := h.missed e he hlt hen
    exact ⟨j, by omega, hrest⟩
  · exact ⟨i, le_rfl, hie, by omega, hi⟩

theorem Run.skip (h : q.Run p need drop n (i + 1) []) (hi : ¬ q.EndsAt drop (i + 1)) :
    q.Run p need drop n i [] := by
  have hle := h.le
  simp only [length_nil] at hle
  refine ⟨by simp; omega, rfl, by simp; omega, fun hne => absurd rfl hne, ?_⟩
  intro e he hie hen
  simp only [length_nil, add_zero] at hie
  rcases lt_or_ge (i + 1) e with hlt | hge
  · obtain ⟨j, hj, hrest⟩ := h.missed e he (by simpa using hlt) hen
    exact ⟨j, by omega, hrest⟩
  · obtain rfl : e = i + 1 := by omega
    exact absurd he hi

theorem Run.extend {row : Row} (h : q.Run p need drop n (i + 1) cur)
    (hrow : q.blockRow p i = some row) (hends : cur = [] → q.EndsAt drop (i + 1)) :
    q.Run p need drop n i (row :: cur) := by
  have hle := h.le
  have hsum : i + (row :: cur).length = i + 1 + cur.length := by simp; omega
  refine ⟨by omega, ?_, ?_, ?_, ?_⟩
  · rw [length_cons, range'_succ, map_cons, ← h.rows, hrow]
    rfl
  · intro j hij hj
    rcases hij.eq_or_lt with rfl | hlt
    · simp [Cached, hrow]
    · exact h.cached j hlt (by omega)
  · intro _
    rw [hsum]
    rcases eq_or_ne cur [] with hcur | hcur
    · subst hcur
      exact hends rfl
    · exact h.ends hcur
  · intro e he hie hen
    obtain ⟨j, hj, hrest⟩ := h.missed e he (by omega) hen
    exact ⟨j, by omega, hrest⟩

variable {rows : List Row} {w extra m : ℕ} {hit : CacheHit}

theorem not_endsAt_iff : ¬ q.EndsAt drop (i + 1) ↔ q.blockSize ≠ q.alignmentTokens ∧
        (if drop then i else i + 1) * q.blockSize % q.alignmentTokens ≠ 0 := by
  have hpos : (if drop then i + 1 - 1 else i + 1) = if drop then i else i + 1 := by
    cases drop <;> simp
  rw [EndsAt, hpos, dvd_iff_mod_eq_zero]
  refine ⟨fun h => ⟨?_, h⟩, fun h => h.2⟩
  intro he
  exact h (by rw [he, mul_mod_left])

variable {found : Option ℕ} {bs spec : ℕ} {mode : MambaCacheMode}

/-- **The search of a sliding window**: a run that is long enough, or the run at the left
end. -/
theorem slidingWindowSearch_spec (h : q.Run p (max 1 need) drop n i cur)
    (hshort : cur.length < max 1 need)
    (hs : q.slidingWindowSearch p need drop i cur = .ok (found, rows)) :
    (∃ k, found = some k ∧ q.Run p (max 1 need) drop n k rows ∧ rows.length = max 1 need) ∨
      (found = none ∧ q.Run p (max 1 need) drop n 0 rows ∧ rows.length < max 1 need) := by
  induction i generalizing cur with
  | zero =>
    cases hs
    exact .inr ⟨rfl, h, hshort⟩
  | succ i ih =>
    simp only [slidingWindowSearch, bind_eq_ok, orRaise_eq_ok] at hs
    obtain ⟨key, hkey, hs⟩ := hs
    have hrow : q.blockRow p i = p.getCachedBlock key q.groupIds := by simp [blockRow, hkey]
    cases hget : p.getCachedBlock key q.groupIds with
    | none =>
      rw [hget] at hs
      exact ih (h.miss hshort (by simp [Cached, hrow, hget])) (by simp) hs
    | some row =>
      simp only [hget] at hs
      by_cases hends : q.EndsAt drop (i + 1) ∨ cur ≠ []
      · rw [if_neg (by
          rintro ⟨hcur, hnot⟩
          exact hends.elim (not_endsAt_iff.2 hnot) fun hne => hne hcur)] at hs
        have hext := h.extend (hrow.trans hget) fun hcur => hends.resolve_right (by simp [hcur])
        split at hs
        · cases hs
          exact .inl ⟨i, rfl, hext, by simp; omega⟩
        · exact ih hext (by simp; omega) hs
      · rw [not_or, not_not] at hends
        obtain ⟨hnot, rfl⟩ := hends
        rw [if_pos ⟨rfl, not_endsAt_iff.1 hnot⟩] at hs
        exact ih (h.skip hnot) hshort hs

theorem run_nil (n : ℕ) : q.Run p need drop n n [] :=
  ⟨by simp, rfl, by simp; omega, fun hne => absurd rfl hne, by simp; omega⟩

theorem alignedLength_spec (q : Probe H) (n : ℕ) :
    q.alignmentTokens ∣ q.alignedLength n * q.blockSize ∧ q.alignedLength n ≤ n ∧
      (q.alignmentTokens ∣ n * q.blockSize → q.alignedLength n = n) := by
  induction n with
  | zero => simp [alignedLength]
  | succ n ih =>
    rw [alignedLength]
    split
    · next h => exact ⟨dvd_of_mod_eq_zero h, le_rfl, fun _ => rfl⟩
    · next h =>
      exact ⟨ih.1, ih.2.1.trans (le_succ n), fun hd => absurd (mod_eq_zero_of_dvd hd) h⟩

/-- What a window overlaps, in blocks. -/
theorem needs_slidingWindow {e : ℕ} (hbs : 0 < bs) :
    (slidingWindow w extra).Needs bs (e * bs) i ↔ i < e ∧ e ≤ i + cdiv (w - 1) bs := by
  refine and_congr (Nat.mul_lt_mul_right hbs) ?_
  rw [cdiv, ← Nat.sub_le_iff_le_add', Nat.le_div_iff_mul_le hbs, Nat.sub_mul, Nat.add_mul, one_mul]
  omega

/-- The hits of a sliding window. With the EAGLE drop the block behind a hit is cached, too. -/
def DropHits (q : Probe H) (p : BlockPool H) (spec : KVCacheSpec) (n : ℕ) (drop : Bool) : Set ℕ :=
  {L ∈ q.Hits p spec n | drop = true → 0 < L → L + q.blockSize ≤ n ∧ q.Cached p (L / q.blockSize)}

/-- The run behind a hit of a sliding window of `e` blocks: it ends with the hit and the block
that is dropped, or it is the run at the left end, of which more than the dropped block is lost
exactly if the drop is not a unit of the alignment. -/
theorem slidingWindowHit_eq_ok (h : q.slidingWindowHit p w n drop = .ok hit) :
    q.blockSize ∣ q.alignmentTokens ∧
    ∃ k cur e, q.Run p (max 1 (contiguousBlocksForHit w q.blockSize drop)) drop
        (n / q.blockSize) k cur ∧ hit.rows = (replicate k q.nullRow ++ cur).take e ∧
      hit.hitLength = e * q.blockSize ∧ q.alignmentTokens ∣ e * q.blockSize ∧
      (0 < e → e + drop.toNat ≤ k + cur.length) ∧ (e + drop.toNat = k + cur.length ∧
          cur.length = max 1 (contiguousBlocksForHit w q.blockSize drop) ∨
        k = 0 ∧ cur.length < max 1 (contiguousBlocksForHit w q.blockSize drop) ∧
          (e + drop.toNat < cur.length ↔
            drop = true ∧ q.blockSize ≠ q.alignmentTokens ∧ 1 < cur.length)) := by
  simp only [slidingWindowHit, bind_eq_ok, assert_eq_ok] at h
  obtain ⟨⟨⟩, hdvd, ⟨found, cur⟩, hs, h⟩ := h
  cases h
  refine ⟨dvd_of_mod_eq_zero hdvd, ?_⟩
  generalize contiguousBlocksForHit w q.blockSize drop = need at hs ⊢
  obtain ⟨k, rfl, hrun, hlen⟩ | ⟨rfl, hrun, hlen⟩ :=
    slidingWindowSearch_spec (run_nil _) (by simp) hs
  · have hends := hrun.ends (by rintro rfl; simp at hlen; omega)
    rw [EndsAt] at hends
    cases drop with
    | false =>
      refine ⟨k, cur, k + cur.length, hrun, ?_⟩
      simp_all
    | true =>
      have hpos : k + cur.length - 1 + 1 = k + cur.length := by omega
      have halign := (alignedLength_spec q _).2.2 hends
      refine ⟨k, cur, k + cur.length - 1, hrun, ?_⟩
      simp_all
  · obtain ⟨hdvd', hle, haligned⟩ := alignedLength_spec q cur.length
    cases drop with
    | false =>
      have hall : q.alignedLength cur.length = cur.length := by
        rcases eq_or_ne cur [] with rfl | hne
        · rfl
        · exact haligned (by simpa [EndsAt] using hrun.ends hne)
      rw [hall] at hdvd'
      refine ⟨0, cur, cur.length, hrun, ?_⟩
      simp_all
    | true =>
      obtain ⟨hdvd'', hle', -⟩ := alignedLength_spec q (q.alignedLength cur.length - 1)
      refine ⟨0, cur, q.alignedLength (q.alignedLength cur.length - 1), hrun, ?_, ?_, hdvd'',
        fun hpos => ?_, .inr ⟨rfl, hlen, ?_⟩⟩
      · simp [take_take, min_eq_left hle]
        omega
      · simp [min_eq_left hle]
        omega
      · rw [Bool.toNat_true]
        omega
      · rw [Bool.toNat_true]
        by_cases hbs : q.blockSize = q.alignmentTokens
        · have hall (m : ℕ) : q.alignedLength m = m :=
            (alignedLength_spec q m).2.2 (hbs ▸ dvd_mul_left _ _)
          rw [hall, hall]
          simp only [hbs, ne_eq, not_true, false_and, and_false, iff_false]
          omega
        -- the run is aligned without its last block, and then it is not aligned
        have hshort (hlong : 1 < cur.length) : q.alignedLength cur.length ≠ cur.length := by
          intro he
          have hends := hrun.ends (ne_nil_of_length_pos (by omega))
          rw [he] at hdvd'
          simp only [EndsAt, if_true, zero_add] at hends
          refine hbs (Nat.dvd_antisymm (dvd_of_mod_eq_zero hdvd) ?_)
          have := Nat.dvd_sub hdvd' hends
          rwa [← Nat.sub_mul, (by omega : cur.length - (cur.length - 1) = 1), one_mul] at this
        simp only [hbs, ne_eq, not_false_eq_true, true_and]
        constructor
        · intro hlt
          omega
        · intro hlong
          have := hshort hlong
          omega

/-- No run of the search ends before a hit. -/
theorem Run.le_of_mem_dropHits {need f : ℕ} (hbs : 0 < q.blockSize)
    (hrun : q.Run p need drop (n / q.blockSize) i cur) (hpos : 0 < f)
    (hneed : need = cdiv (w - 1) q.blockSize + drop.toNat)
    (hf : f * q.blockSize ∈ q.DropHits p (.slidingWindow w extra) n drop) :
    f + drop.toNat ≤ i + cur.length := by
  obtain ⟨⟨hL, hvalid, hLn⟩, hbehind⟩ := hf
  have hbehind : drop = true → (f + 1) * q.blockSize ≤ n ∧ q.Cached p f := by
    intro hd
    have := hbehind hd (Nat.mul_pos hpos hbs)
    rwa [Nat.mul_div_cancel _ hbs, ← Nat.succ_mul] at this
  have hfn : f + drop.toNat ≤ n / q.blockSize := by
    rw [le_div_iff_mul_le hbs]
    cases drop with
    | false => exact hLn
    | true => exact (hbehind rfl).1
  have hends : q.EndsAt drop (f + drop.toNat) := by
    cases drop <;> exact hL
  -- otherwise a block of the window of `f` blocks, or the one behind it, is missing
  by_contra hlt
  obtain ⟨j, -, hj, hfj, hmiss⟩ := hrun.missed _ hends (not_le.1 hlt) hfn
  refine hmiss ?_
  rcases lt_or_ge j f with hjf | hjf
  · exact hvalid j ((needs_slidingWindow hbs).2 ⟨hjf, by omega⟩)
  · cases drop with
    | false => exact absurd hj (by simpa using hjf)
    | true => exact le_antisymm (le_of_lt_succ hj) hjf ▸ (hbehind rfl).2

/-- **The hit of a sliding window** is a hit, with the blocks that it reads. A greater one is
shorter than the window, and there is a drop of less than the alignment. -/
theorem slidingWindowHit_spec (hbs : 0 < q.blockSize)
    (hw : 1 < w ∨ drop = true ∨ n < q.alignmentTokens)
    (h : q.slidingWindowHit p w n drop = .ok hit) :
    hit.hitLength ∈ q.DropHits p (.slidingWindow w extra) n drop ∧
      hit.rows = q.rowsFor p (.slidingWindow w extra) hit.hitLength ∧
      ∀ L ∈ q.DropHits p (.slidingWindow w extra) n drop, hit.hitLength < L →
        drop = true ∧ q.blockSize ≠ q.alignmentTokens ∧ L < w - 1 := by
  obtain ⟨hdvd, k, cur, e, hrun, hrows, hlength, halign, hle, hcases⟩ := slidingWindowHit_eq_ok h
  have hneed : contiguousBlocksForHit w q.blockSize drop =
      cdiv (w - 1) q.blockSize + drop.toNat := by
    cases drop <;> rfl
  rw [hneed] at hrun hcases
  -- the search asks for a block, or no hit fits
  have hasked {f : ℕ} (hpos : 0 < f) (hf : q.alignmentTokens ∣ f * q.blockSize)
      (hfn : f ≤ n / q.blockSize) : 0 < cdiv (w - 1) q.blockSize + drop.toNat := by
    rcases hw with hw | rfl | hn
    · exact Nat.add_pos_left (Nat.div_pos_iff.2 (by omega)) _
    · exact succ_pos _
    · have := Nat.le_of_dvd (Nat.mul_pos hpos hbs) hf
      have := (le_div_iff_mul_le hbs).1 hfn
      omega
  have hrunle := hrun.le
  have hwindow : ∀ i < e, k ≤ i ↔ e ≤ i + cdiv (w - 1) q.blockSize := by
    intro i hi
    have := hasked (by omega) halign (by omega)
    omega
  have hblock {i : ℕ} (hi : i < e) (hneeds : e ≤ i + cdiv (w - 1) q.blockSize) :
      q.Cached p i :=
    hrun.cached i ((hwindow i hi).2 hneeds) (by omega)
  have hen (hpos : 0 < e) : (e + drop.toNat) * q.blockSize ≤ n :=
    (le_div_iff_mul_le hbs).1 ((hle hpos).trans hrunle)
  rw [hlength]
  refine ⟨⟨⟨halign, fun i hi => ?_, ?_⟩, ?_⟩, ?_, ?_⟩
  · rw [needs_slidingWindow hbs] at hi
    exact hblock hi.1 hi.2
  · rcases Nat.eq_zero_or_pos e with rfl | hpos
    · simp
    · exact (mul_le_mul_right _ (le_add_right _ _)).trans (hen hpos)
  · rintro rfl hpos
    have hpos := Nat.pos_of_mul_pos_right hpos
    rw [Nat.mul_div_cancel _ hbs, ← Nat.succ_mul]
    exact ⟨hen hpos, hrun.cached e (by omega) (hle hpos)⟩
  · rw [hrows, rowsFor, Nat.mul_div_cancel _ hbs]
    refine ext_getElem (by simp; omega) fun i hi _ => ?_
    have hie : i < e := by
      rw [length_take] at hi
      omega
    simp only [getElem_take, getElem_map, getElem_range, needs_slidingWindow hbs,
      ← hwindow i hie, hie, true_and]
    split
    · next hki =>
      rw [getElem_append_right (by simpa using hki), getElem_of_eq hrun.rows]
      simp [Nat.add_sub_cancel' hki]
    · next hki =>
      rw [getElem_append_left (by simpa using hki), getElem_replicate]
  · intro L hmem hgt
    obtain ⟨f, hf⟩ := hdvd.trans hmem.1.1
    obtain rfl : L = f * q.blockSize := by rw [hf, mul_comm]
    have hef : e < f := Nat.lt_of_mul_lt_mul_right hgt
    have hfn : f ≤ n / q.blockSize := (le_div_iff_mul_le hbs).2 hmem.1.2.2
    have hpos := hasked (by omega) hmem.1.1 hfn
    have hge := hrun.le_of_mem_dropHits hbs (by omega) (by omega) hmem
    obtain ⟨-, hlen, hlost⟩ := hcases.resolve_left (by omega)
    obtain ⟨rfl, hne, -⟩ := hlost.1 (by omega)
    refine ⟨rfl, hne, ?_⟩
    have hfw : f + 1 ≤ cdiv (w - 1) q.blockSize := by
      rw [Bool.toNat_true] at *
      omega
    rw [cdiv, le_div_iff_mul_le hbs, succ_mul] at hfw
    omega

/-! A search asks for a block even where the window is one token. -/

theorem slidingWindowSearch_one (cur : List Row) :
    q.slidingWindowSearch p 1 drop i cur = q.slidingWindowSearch p 0 drop i cur := by
  induction i generalizing cur with
  | zero => rfl
  | succ i ih => simp only [slidingWindowSearch, ih, le_add_left]

/-- **The search of a sliding window**, without an EAGLE drop. -/
theorem finds_slidingWindowHit (hq : q.Coarse) (h : q.slidingWindowHit p w n false = .ok hit) :
    q.Finds p (slidingWindow w extra).searched n hit := by
  have hsame : q.slidingWindowHit p (max w 2) n false = .ok hit := by
    rw [← h]
    rcases le_or_gt w 1 with hw | hw
    · have hbs := hq.blockSize_pos
      have hzero : contiguousBlocksForHit w q.blockSize false = 0 := by
        simp [contiguousBlocksForHit, cdiv, hw]
        omega
      have hone : contiguousBlocksForHit (max w 2) q.blockSize false = 1 := by
        rw [max_eq_right (by omega)]
        simp [contiguousBlocksForHit, cdiv, hbs]
      simp only [slidingWindowHit, hzero, hone, slidingWindowSearch_one]
    · rw [max_eq_left hw]
  obtain ⟨hmem, hrows, hmax⟩ := slidingWindowHit_spec hq.blockSize_pos (.inl (by omega)) hsame
  refine ⟨⟨hmem.1, fun L hL => not_lt.1 fun hlt => ?_⟩, hrows⟩
  exact absurd (hmax L ⟨hL, nofun⟩ hlt).1 Bool.false_ne_true

/-- The hit that the search finds for a window of one token reads a block, where the window
overlaps none. -/
theorem rowsFor_searched_ne {L : ℕ} (hbs : 0 < q.blockSize) (hdvd : q.blockSize ∣ L) (hpos : 0 < L)
    (hw : w ≤ 1) (hids : q.groupIds ≠ []) (hnull : p.NullUncached)
    (hvalid : q.Valid p (slidingWindow w extra).searched L) :
    (q.rowsFor p (slidingWindow w extra).searched L).map (fun row => row.getD 0 nullBlock) ≠
      (q.rowsFor p (slidingWindow w extra) L).map (fun row => row.getD 0 nullBlock) := by
  obtain ⟨e, rfl⟩ := hdvd
  rw [Nat.mul_comm] at *
  have he : 0 < e := Nat.pos_of_mul_pos_right hpos
  have hreads : (slidingWindow w extra).searched.Needs q.blockSize (e * q.blockSize) (e - 1) := by
    rw [searched, needs_slidingWindow hbs, cdiv, max_eq_right (by omega)]
    have : 0 < (2 - 1 + q.blockSize - 1) / q.blockSize := Nat.div_pos (by omega) hbs
    omega
  have hnone : ¬ (slidingWindow w extra).Needs q.blockSize (e * q.blockSize) (e - 1) := by
    rw [needs_slidingWindow hbs, cdiv, Nat.div_eq_of_lt (by omega)]
    omega
  obtain ⟨row, hrow⟩ := Option.isSome_iff_exists.1 (hvalid _ hreads)
  obtain ⟨g, ids, hids⟩ := exists_cons_of_ne_nil hids
  have hne : row.getD 0 nullBlock ≠ nullBlock := by
    simp only [blockRow, hids, BlockPool.getCachedBlock_cons, Option.bind_eq_some_iff] at hrow
    obtain ⟨key, -, b, hb, bs, -, hrow⟩ := hrow
    cases hrow
    intro hzero
    exact hnull (key, g) (hzero ▸ mem_of_mem_head? hb)
  intro h
  have := congrArg (·[e - 1]?) h
  simp only [rowsFor, Nat.mul_div_cancel _ hbs, getElem?_map,
    getElem?_range (by omega : e - 1 < e), Option.map_some, if_pos hreads, if_neg hnone, hrow,
    Option.getD_some, Option.some.injEq] at this
  exact hne (this.trans (by simp [nullRow, hids]))

/-! ## Mamba -/

/-- **The search for the last Mamba state.** -/
theorem finds_mambaSearch (hq : q.Coarse) (h : q.mambaSearch p m = .ok hit) :
    q.Finds p (.mamba mode spec) (m * q.blockSize) hit := by
  have hbs := hq.blockSize_pos
  induction m with
  | zero =>
    cases h
    refine ⟨⟨⟨Nat.dvd_zero _, fun i hi => ?_, Nat.zero_le _⟩, fun L hL => ?_⟩, ?_⟩
    · have hi : (i + 1) * q.blockSize = 0 := hi
      simp [hbs.ne'] at hi
    · simpa [CacheHit.empty] using hL.2.2
    · simp [rowsFor, CacheHit.empty]
  | succ i ih =>
    -- without a hit at block `i` the answer is that of the shorter search
    have hshorter (hno : ¬ (q.alignmentTokens ∣ (i + 1) * q.blockSize ∧ q.Cached p i))
        (hi : q.Finds p (.mamba mode spec) (i * q.blockSize) hit) :
        q.Finds p (.mamba mode spec) ((i + 1) * q.blockSize) hit := by
      refine ⟨⟨⟨hi.greatest.1.1, hi.greatest.1.2.1, ?_⟩, ?_⟩, hi.rows⟩
      · exact hi.greatest.1.2.2.trans (mul_le_mul_right _ (le_succ i))
      · rintro L ⟨hL, hvalid, hLn⟩
        obtain ⟨f, rfl⟩ := hq.exists_blocks hL
        have hf := Nat.le_of_mul_le_mul_right hLn hbs
        rcases hf.eq_or_lt with rfl | hlt
        · exact absurd ⟨hL, hvalid i rfl⟩ hno
        · exact hi.greatest.2 ⟨hL, hvalid, mul_le_mul_right _ (le_of_lt_succ hlt)⟩
    simp only [mambaSearch, bind_eq_ok, orRaise_eq_ok] at h
    obtain ⟨key, hkey, h⟩ := h
    have hrow : q.blockRow p i = p.getCachedBlock key q.groupIds := by simp [blockRow, hkey]
    cases hget : p.getCachedBlock key q.groupIds with
    | none =>
      rw [hget] at h
      exact hshorter (fun hc => by simp [Cached, hrow, hget] at hc) (ih h)
    | some row =>
      simp only [hget] at h
      split at h
      · next hskip =>
        exact hshorter (fun hc => hskip.2 (mod_eq_zero_of_dvd hc.1)) (ih h)
      next hends =>
      cases h
      have hdvd : q.alignmentTokens ∣ (i + 1) * q.blockSize := by
        by_contra hnot
        refine hends ⟨fun he => hnot (he ▸ dvd_mul_left _ _), ?_⟩
        rwa [dvd_iff_mod_eq_zero] at hnot
      have hcached : q.Cached p i := by simp [Cached, hrow, hget]
      refine ⟨⟨⟨hdvd, fun j hj => ?_, le_rfl⟩, fun L hL => hL.2.2⟩, ?_⟩
      · obtain rfl : j = i := by
          have := eq_of_mul_eq_mul_right hbs hj
          omega
        exact hcached
      · show replicate i q.nullRow ++ [row] = _
        rw [rowsFor, Nat.mul_div_cancel _ hbs, range_succ, map_append]
        congr 1
        · refine ext_getElem (by simp) fun j hj _ => ?_
          simp only [length_replicate] at hj
          have hnot : ¬ (mamba mode spec).Needs q.blockSize
              ((i + 1) * q.blockSize) j := by
            intro hn
            have := eq_of_mul_eq_mul_right hbs hn
            omega
          simp [hnot]
        · have hneeds : (mamba mode spec).Needs q.blockSize
              ((i + 1) * q.blockSize) i := rfl
          simp [hneeds, hrow, hget]

/-- **The search of Mamba**, when hits end at block boundaries. -/
theorem finds_mambaHit (hq : q.Coarse)
    (h : q.mambaHit p n = .ok hit) : q.Finds p (.mamba mode spec) n hit := by
  rw [mambaHit, if_neg hq.not_fineGrained] at h
  have hbs := hq.blockSize_pos
  have hfinds : q.Finds p (.mamba mode spec) _ hit := finds_mambaSearch hq h
  obtain ⟨⟨⟨hdvd, hvalid, hle⟩, hmax⟩, hrows⟩ := hfinds
  refine ⟨⟨⟨hdvd, hvalid, hle.trans (div_mul_le_self _ _)⟩, ?_⟩, hrows⟩
  rintro L ⟨hL, hLvalid, hLn⟩
  obtain ⟨f, rfl⟩ := hq.exists_blocks hL
  exact hmax ⟨hL, hLvalid, mul_le_mul_right _ ((le_div_iff_mul_le hbs).2 hLn)⟩

/-! ## How far full attention reaches -/

/-- The first `n` tokens are cached for full attention: every block below is cached, and
the last one at least up to a hash boundary that is not before `n`. -/
def Covers (q : Probe H) (p : BlockPool H) (n : ℕ) : Prop :=
  ∀ i, i * q.blockSize < n → q.Cached p i ∨
    (q.fineGrained ∧ ∃ j, j / (q.blockSize / q.alignmentTokens) = i ∧
      n ≤ (j + 1) * q.alignmentTokens ∧ (q.rowAt p j).isSome = true)

theorem Covers.mono (h : q.Covers p n) (hm : m ≤ n) : q.Covers p m := by
  intro i hi
  rcases h i (hi.trans_le hm) with hc | ⟨hf, j, hj, hn, hrow⟩
  · exact .inl hc
  · exact .inr ⟨hf, j, hj, hm.trans hn, hrow⟩

theorem probeTail_eq_some {lo : ℕ} {row : Row} (h : q.probeTail p lo n = some (i, row)) :
    lo ≤ i ∧ i < lo + n ∧ q.rowAt p i = some row := by
  induction n with
  | zero => cases h
  | succ n ih =>
    rw [probeTail] at h
    split at h
    · next hrow =>
      cases h
      exact ⟨by omega, by omega, hrow⟩
    · obtain ⟨hlo, hi, hrow⟩ := ih h
      exact ⟨hlo, by omega, hrow⟩

/-- A hash position in the first block behind a run of full blocks. -/
theorem tail_bounds {k a : ℕ} (hbs : 0 < bs) (ha : bs % a = 0) (hlo : k * (bs / a) ≤ i)
    (hhi : i < k * (bs / a) + bs / a - 1) :
    i / (bs / a) = k ∧ (i + 1) * a < (k + 1) * bs ∧ a ≤ (i + 1) * a := by
  obtain ⟨c, rfl⟩ := dvd_of_mod_eq_zero ha
  have hapos : 0 < a := Nat.pos_of_mul_pos_right hbs
  rw [Nat.mul_div_cancel_left _ hapos] at *
  have hcpos : 0 < c := Nat.pos_of_ne_zero (by rintro rfl; simp at hbs)
  refine ⟨?_, ?_, Nat.le_mul_of_pos_left _ (Nat.succ_pos i)⟩
  · refine Nat.div_eq_of_lt_le hlo ?_
    rw [Nat.succ_mul]
    omega
  · have hlt : i + 1 < (k + 1) * c := by
      rw [succ_mul]
      omega
    calc (i + 1) * a < (k + 1) * c * a := Nat.mul_lt_mul_of_pos_right hlt hapos
      _ = (k + 1) * (a * c) := by rw [mul_assoc, mul_comm c a]

/-- **The run of full attention covers its length**, and it has at least one drop unit. -/
theorem fullAttentionRun_spec (hbs : 0 < q.blockSize) (n : ℕ) :
    q.Covers p (q.fullAttentionRun p n).hitLength ∧ (q.fullAttentionRun p n).hitLength ≤ n ∧
      (0 < (q.fullAttentionRun p n).hitLength →
        min q.alignmentTokens q.blockSize ≤ (q.fullAttentionRun p n).hitLength) := by
  obtain ⟨k, hk, hrun, hall, -⟩ := run_spec q p 0 (n / q.blockSize)
  have hlen : (q.run p 0 (n / q.blockSize)).length = k := by simp [hrun]
  have hkn : k * q.blockSize ≤ n := (le_div_iff_mul_le hbs).1 hk
  have hfull : q.Covers p (k * q.blockSize) ∧ k * q.blockSize ≤ n ∧
      (0 < k * q.blockSize → min q.alignmentTokens q.blockSize ≤ k * q.blockSize) := by
    refine ⟨fun i hi => .inl (hall i (zero_le i) ?_), hkn, fun hpos => ?_⟩
    · rw [zero_add]
      exact Nat.lt_of_mul_lt_mul_right hi
    · have hkpos : 0 < k := Nat.pos_of_mul_pos_right hpos
      exact (Nat.min_le_right _ _).trans (Nat.le_mul_of_pos_left _ hkpos)
  simp only [fullAttentionRun, hlen]
  split
  · next hfine =>
    split
    · exact hfull
    next i row htail =>
    obtain ⟨hlo, hhi, hrow⟩ := probeTail_eq_some htail
    obtain ⟨hblock, hlast, hunit⟩ := tail_bounds hbs hfine.2 hlo (by omega)
    refine ⟨fun b hb => ?_, ?_, fun _ => (min_le_left _ _).trans hunit⟩
    · have hbk : b < k + 1 := Nat.lt_of_mul_lt_mul_right (hb.trans hlast)
      rcases Nat.lt_succ_iff_lt_or_eq.1 hbk with hlt | rfl
      · exact .inl (hall b (zero_le b) (by omega))
      · exact .inr ⟨hfine, i, hblock, le_rfl, by simp [hrow]⟩
    · calc (i + 1) * q.alignmentTokens
          ≤ n / q.alignmentTokens * q.alignmentTokens := mul_le_mul_right _ (by omega)
        _ ≤ n := div_mul_le_self _ _
  · exact hfull

/-- **A hit of full attention covers its length**; with the EAGLE drop also the unit
behind it. -/
theorem fullAttentionHit_covers (hbs : 0 < q.blockSize) (n : ℕ) (drop : Bool) :
    q.alignmentTokens ∣ (q.fullAttentionHit p n drop).hitLength ∧
      (q.fullAttentionHit p n drop).hitLength ≤ n ∧
      q.Covers p (q.fullAttentionHit p n drop).hitLength ∧
      (drop = true → 0 < (q.fullAttentionHit p n drop).hitLength →
        (q.fullAttentionHit p n drop).hitLength + min q.alignmentTokens q.blockSize ≤ n ∧
        q.Covers p ((q.fullAttentionHit p n drop).hitLength
          + min q.alignmentTokens q.blockSize)) := by
  obtain ⟨hcov, hle, hunit⟩ := fullAttentionRun_spec (p := p) hbs n
  simp only [fullAttentionHit, trimHit]
  generalize (q.fullAttentionRun p n).hitLength = m at *
  set m' := if drop = true ∧ 0 < m then m - min q.alignmentTokens q.blockSize else m with hm'
  have hm'm : m' ≤ m := by
    rw [hm']
    split <;> omega
  have hround : m' - m' % q.alignmentTokens ≤ m' := sub_le _ _
  refine ⟨dvd_sub_mod m', by omega, hcov.mono (by omega), fun hdrop hpos => ?_⟩
  have hmpos : 0 < m := by omega
  rw [if_pos ⟨hdrop, hmpos⟩] at hm'
  have := hunit hmpos
  exact ⟨by omega, hcov.mono (by omega)⟩

/-! ## Bounds and totality -/

theorem strictRun_length (h : q.strictRun p i n = .ok rows) : rows.length ≤ n := by
  induction n generalizing i rows with
  | zero =>
    cases h
    exact le_rfl
  | succ n ih =>
    obtain ⟨key, -, h⟩ := bind_eq_ok.1 h
    split at h
    · cases h
      exact zero_le _
    · obtain ⟨rest, hrest, h⟩ := bind_eq_ok.1 h
      cases h
      exact succ_le_succ (ih hrest)

theorem chunkedLocalHit_le {chunk : ℕ}
    (h : q.chunkedLocalHit p chunk n drop = .ok hit) : hit.hitLength ≤ n := by
  simp only [chunkedLocalHit, bind_eq_ok] at h
  obtain ⟨-, -, -, -, rows, hrows, h⟩ := h
  cases h
  have hlen := strictRun_length hrows
  have hstart : n / chunk * chunk / q.blockSize ≤ n / q.blockSize :=
    Nat.div_le_div_right (Nat.div_mul_le_self _ _)
  simp only [length_append, length_replicate]
  calc _ ≤ n / q.blockSize * q.blockSize := mul_le_mul_right _ (by omega)
    _ ≤ n := div_mul_le_self _ _

theorem mambaSearch_le (h : q.mambaSearch p m = .ok hit) : hit.hitLength ≤ m * q.blockSize := by
  induction m with
  | zero =>
    cases h
    exact zero_le _
  | succ i ih =>
    have hstep : i * q.blockSize ≤ (i + 1) * q.blockSize := mul_le_mul_right _ (le_succ i)
    obtain ⟨key, -, h⟩ := bind_eq_ok.1 h
    split at h
    · exact (ih h).trans hstep
    · split at h
      · exact (ih h).trans hstep
      · cases h
        exact le_rfl

theorem mambaHit_le (h : q.mambaHit p n = .ok hit) : hit.hitLength ≤ n := by
  rw [mambaHit] at h
  split at h
  · cases h
    split
    · exact zero_le _
    next i row htail =>
    obtain ⟨-, hi, -⟩ := probeTail_eq_some htail
    calc (i + 1) * q.alignmentTokens
        ≤ n / q.alignmentTokens * q.alignmentTokens := mul_le_mul_right _ (by omega)
      _ ≤ n := div_mul_le_self _ _
  · exact (mambaSearch_le h).trans (div_mul_le_self _ _)

theorem slidingWindowHit_le (h : q.slidingWindowHit p w n drop = .ok hit) : hit.hitLength ≤ n := by
  obtain ⟨-, k, cur, e, hrun, -, hlength, -, hle, -⟩ := slidingWindowHit_eq_ok h
  rw [hlength]
  refine (mul_le_mul_right _ ?_).trans (div_mul_le_self n q.blockSize)
  have := hrun.le
  omega

/-! The searches raise an exception only when a hash is missing. -/

/-- The request has a hash for each of the first `n` blocks. -/
def Hashed (q : Probe H) (n : ℕ) : Prop :=
  ∀ i < n, (HashIndex.hashAt q.hashes q.hashBlockSize q.blockSize i).isSome = true

theorem slidingWindowSearch_isOk (p : BlockPool H) (need : ℕ) (drop : Bool) (cur : List Row)
    (h : q.Hashed i) : ∃ r, q.slidingWindowSearch p need drop i cur = .ok r := by
  induction i generalizing cur with
  | zero => exact ⟨_, rfl⟩
  | succ i ih =>
    have ih (cur : List Row) := ih cur fun j hj => h j (by omega)
    obtain ⟨key, hkey⟩ := Option.isSome_iff_exists.1 (h i (lt_succ_self i))
    simp only [slidingWindowSearch, hkey, orRaise, ok_bind]
    cases p.getCachedBlock key q.groupIds with
    | none => exact ih []
    | some row =>
      simp only
      generalize (if drop = true then i else i + 1) = x
      split
      · exact ih []
      · split
        · exact ⟨_, rfl⟩
        · exact ih _

theorem slidingWindowHit_isOk (hq : q.Coarse) (h : q.Hashed (n / q.blockSize)) :
    ∃ hit, q.slidingWindowHit p w n drop = .ok hit := by
  obtain ⟨⟨found, cur⟩, hs⟩ := slidingWindowSearch_isOk p
    (contiguousBlocksForHit w q.blockSize drop) drop [] h
  exact ⟨_, bind_eq_ok.2 ⟨(), assert_eq_ok.2 (mod_eq_zero_of_dvd hq.dvd),
    bind_eq_ok.2 ⟨(found, cur), hs, rfl⟩⟩⟩

theorem mambaSearch_isOk (h : q.Hashed m) : ∃ hit, q.mambaSearch p m = .ok hit := by
  induction m with
  | zero => exact ⟨_, rfl⟩
  | succ i ih =>
    have ih := ih fun j hj => h j (by omega)
    obtain ⟨key, hkey⟩ := Option.isSome_iff_exists.1 (h i (lt_succ_self i))
    simp only [mambaSearch, hkey, orRaise, ok_bind]
    cases p.getCachedBlock key q.groupIds with
    | none => exact ih
    | some row =>
      simp only
      split
      · exact ih
      · exact ⟨_, rfl⟩

theorem mambaHit_isOk (hq : q.Coarse) (h : q.Hashed (n / q.blockSize)) :
    ∃ hit, q.mambaHit p n = .ok hit := by
  rw [mambaHit, if_neg hq.not_fineGrained]
  exact mambaSearch_isOk h

end Probe

open Probe

variable {H : Type} {g : Group} {q : Probe H} {n dcp : ℕ}

/-- **No search goes beyond its bound.** -/
theorem Group.findLongestCacheHit_le {p : BlockPool H}
    {drop : Bool} {hit : CacheHit} (hbs : 0 < q.blockSize)
    (h : g.findLongestCacheHit p q n drop dcp = .ok hit) : hit.hitLength ≤ n := by
  rw [findLongestCacheHit] at h
  split at h
  · cases h
    exact (fullAttentionHit_covers hbs n drop).2.1
  · cases h
    exact (fullAttentionHit_covers hbs n drop).2.1
  · obtain ⟨-, -, h⟩ := bind_eq_ok.1 h
    exact slidingWindowHit_le h
  · obtain ⟨-, -, h⟩ := bind_eq_ok.1 h
    exact chunkedLocalHit_le h
  · obtain ⟨-, -, h⟩ := bind_eq_ok.1 h
    exact mambaHit_le h
  · cases h

/-- The kinds of groups whose hits are described by `Needs`. -/
def KVCacheSpec.Plain (spec : KVCacheSpec) : Prop :=
  match spec with
  | .fullAttention | .rswa _ | .mamba _ _ | .slidingWindow _ _ => True
  | _ => False

instance (spec : KVCacheSpec) : Decidable spec.Plain := by
  unfold KVCacheSpec.Plain
  split <;> infer_instance

/-- **Every search without an EAGLE drop returns the greatest hit.** -/
theorem Group.finds_findLongestCacheHit
    (hg : g.spec.Plain) (hq : q.Coarse) (hhash : q.Hashed (n / q.blockSize))
    (hdcp : g.isFullAttention = false → dcp = 1) (p : BlockPool H) :
    ∃ hit, g.findLongestCacheHit p q n false dcp = .ok hit ∧ q.Finds p g.spec.searched n hit := by
  rw [findLongestCacheHit]
  rw [isFullAttention] at hdcp
  cases hspec : g.spec with
  | fullAttention =>
    exact ⟨_, rfl, finds_fullAttentionHit hq (fun _ _ => Iff.rfl) n⟩
  | rswa w => exact ⟨_, rfl, finds_fullAttentionHit hq (fun _ _ => Iff.rfl) n⟩
  | slidingWindow w extra =>
    obtain ⟨hit, hhit⟩ := slidingWindowHit_isOk (p := p) hq hhash
    refine ⟨hit, bind_eq_ok.2 ⟨(), assert_eq_ok.2 (hdcp (by rw [hspec])), hhit⟩, ?_⟩
    exact finds_slidingWindowHit hq hhit
  | mamba mode spec =>
    obtain ⟨hit, hhit⟩ := mambaHit_isOk (p := p) hq hhash
    exact ⟨hit, bind_eq_ok.2 ⟨(), assert_eq_ok.2 (hdcp (by rw [hspec])), hhit⟩,
      finds_mambaHit hq hhit⟩
  | chunkedLocalAttention c => simp [KVCacheSpec.Plain, hspec] at hg
  | crossAttention => simp [KVCacheSpec.Plain, hspec] at hg

end KVarN.Core
