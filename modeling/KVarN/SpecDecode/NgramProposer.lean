import KVarN.Lib.Border
import KVarN.Lib.Outcome
import KVarN.Lib.WhileLoop
import Mathlib.Order.Bounds.Basic

/-!
# Drafting by n-grams

`_find_longest_matched_ngram_and_propose_tokens` drafts the tokens that followed an earlier
occurrence of the last tokens. It searches the reversed tokens for their own beginning in one pass,
with a table of borders of which only the first `max_ngram` entries are kept.

Entries of the table are less than the number of tokens, so that 32 bits hold them.

## Main definitions

* `Scan`, `scanStep` — the state of the search, and a round of it.
* `findLongestMatchedNgramAndProposeTokens`.
* `Recurs` — the last tokens also occur earlier.

## Main results

* `ScanInv.scanStep` — a round keeps the table, the match at hand and the best match so far.
* `proposes_longest_earliest` — **the tokens after the leftmost occurrence of the longest n-gram.**
-/

namespace KVarN.SpecDecode

open KVarN.Lib KVarN.Lib.Border List Function

variable {τ : Type} [DecidableEq τ]

/-- The local variables of the search. -/
structure Scan where
  lps : ℕ → ℕ
  longestNgram : ℕ
  position : ℕ
  prevLps : ℕ
  i : ℕ

/-- A round in which the tokens match. -/
def Scan.extend (maxNgram : ℕ) (s : Scan) : Scan :=
  let prevLps := s.prevLps + 1
  let lps := if s.i < maxNgram then update s.lps s.i prevLps else s.lps
  { lps := lps
    longestNgram := if s.longestNgram ≤ prevLps then prevLps else s.longestNgram
    position := if s.longestNgram ≤ prevLps then s.i else s.position
    prevLps := if prevLps = maxNgram then lps (maxNgram - 1) else prevLps
    i := s.i + 1 }

/-- A round of the search through the reversed tokens. -/
def scanStep (tokens : List τ) (maxNgram : ℕ) (s : Scan) : Scan :=
  if tokens[s.prevLps]? = tokens[s.i]? then s.extend maxNgram
  else if s.prevLps ≠ 0 then { s with prevLps := s.lps (s.prevLps - 1) }
  else { s with i := s.i + 1 }

/-- The search; `()` is raised if it does not end. -/
def scan (tokens : List τ) (maxNgram : ℕ) : Except Unit Scan :=
  whileLoop (fun s : Scan => s.i < tokens.length) (fun s => .ok (scanStep tokens maxNgram s)) ()
    (2 * tokens.length) ⟨fun _ => 0, 0, 0, 0, 1⟩

/-- `_find_longest_matched_ngram_and_propose_tokens`. -/
def findLongestMatchedNgramAndProposeTokens (originTokens : List τ) (minNgram maxNgram : ℕ)
    (maxModelLen k : ℤ) : Except Unit (List τ) :=
  let totalToken := originTokens.length
  let k := min k (maxModelLen - totalToken)
  if totalToken < minNgram then .ok []
  else if k ≤ 0 then .ok []
  else do
    let s ← scan originTokens.reverse maxNgram
    if s.longestNgram < minNgram then pure []
    else
      let startPosition := totalToken - 1 - s.position + s.longestNgram
      pure ((originTokens.drop startPosition).take (min k (totalToken - startPosition)).toNat)

/-! ## The search -/

variable {α : Type} {t : ℕ → α} {tokens : List τ} {m n p v i longest position : ℕ} {s : Scan}

/-- The last of the longest matches before position `i`. -/
structure Best (t : ℕ → α) (m i longest position : ℕ) : Prop where
  found : 0 < longest → longest ≤ m ∧ longest ≤ position ∧ position < i ∧
    Matches t longest (position + 1)
  best : ∀ j < i, ∀ w, 0 < w → w ≤ m → w ≤ j → Matches t w (j + 1) →
    w ≤ longest ∧ (w = longest → j ≤ position)

theorem Best.keep (h : Best t m i longest position) (hv : Longest t m v (i + 1))
    (hle : v = 0 ∨ v < longest) : Best t m (i + 1) longest position := by
  refine ⟨fun hpos => ?_, fun j hj w hw hwm hwj hmatch => ?_⟩
  · obtain ⟨h₁, h₂, h₃, h₄⟩ := h.found hpos
    exact ⟨h₁, h₂, by omega, h₄⟩
  · rcases Nat.lt_succ_iff_lt_or_eq.1 hj with hj | rfl
    · exact h.best j hj w hw hwm hwj hmatch
    · have := hv.longest w (by omega) hwm hmatch
      omega

theorem Best.next (h : Best t m i longest position) (hv : Longest t m v (i + 1))
    (hle : longest ≤ v) : Best t m (i + 1) v i := by
  refine ⟨fun _ => ⟨hv.le, Nat.le_of_lt_succ hv.lt, Nat.lt_succ_self i, hv.found⟩, ?_⟩
  intro j hj w hw hwm hwj hmatch
  refine ⟨?_, fun _ => Nat.le_of_lt_succ hj⟩
  rcases Nat.lt_succ_iff_lt_or_eq.1 hj with hj | rfl
  · exact (h.best j hj w hw hwm hwj hmatch).1.trans hle
  · exact hv.longest w (by omega) hwm hmatch

/-- What holds in each round: the table has the borders of the beginnings read so far, and
`prevLps` is the longest match that may still be extended. -/
structure ScanInv (t : ℕ → α) (m : ℕ) (s : Scan) : Prop where
  table : ∀ j < s.i, j < m → Longest t m (s.lps j) (j + 1)
  zeros : ∀ j, s.i ≤ j → s.lps j = 0
  prev_lt : s.prevLps < s.i
  prev_lt_max : s.prevLps < m
  prev_matches : Matches t s.prevLps s.i
  le_prev : ∀ w < s.i, w < m → Matches t (w + 1) (s.i + 1) → w ≤ s.prevLps
  best : Best t m s.i s.longestNgram s.position

/-- A round that goes on to the next position, where `v` is the longest match. -/
theorem ScanInv.advance (s' : Scan) (h : ScanInv t m s) (hv : Longest t m v (s.i + 1))
    (hi : s'.i = s.i + 1) (hlps : s'.lps = if s.i < m then update s.lps s.i v else s.lps)
    (hprev : s'.prevLps = if v = m then s'.lps (m - 1) else v)
    (hbest : Best t m (s.i + 1) s'.longestNgram s'.position) : ScanInv t m s' ∧ s'.prevLps ≤ v := by
  have hold : ∀ j, j ≠ s.i → s'.lps j = s.lps j := by
    intro j hj
    rw [hlps]
    split_ifs
    · exact update_of_ne hj _ _
    · rfl
  have htable : ∀ j < s.i + 1, j < m → Longest t m (s'.lps j) (j + 1) := by
    intro j hj hjm
    by_cases hji : j = s.i
    · subst hji
      rwa [hlps, if_pos hjm, update_self]
    · rw [hold j hji]
      exact h.table j (by omega) hjm
  -- the longest match that may be extended
  have hnext : s'.prevLps < m ∧ s'.prevLps ≤ v ∧ Matches t s'.prevLps (s.i + 1) ∧
      ∀ w < s.i + 1, w < m → Matches t w (s.i + 1) → w ≤ s'.prevLps := by
    by_cases hvm : v = m
    · have hlast := htable (m - 1) (by have := hv.lt; omega) (by have := h.prev_lt_max; omega)
      rw [Nat.sub_add_cancel (by have := h.prev_lt_max; omega)] at hlast
      have hwithin := Longest.within (hvm ▸ hv.found) hlast
      rw [hprev, if_pos hvm]
      exact ⟨hlast.lt, hvm ▸ hlast.lt.le, hwithin.1, fun w _ hwm => hwithin.2 w hwm hwm.le⟩
    · rw [hprev, if_neg hvm]
      exact ⟨lt_of_le_of_ne hv.le hvm, le_rfl, hv.found, fun w hw hwm => hv.longest w hw hwm.le⟩
  refine ⟨⟨hi ▸ htable, fun j hj => ?_, hi ▸ hnext.2.1.trans_lt hv.lt, hnext.1, hi ▸ hnext.2.2.1,
    fun w hw hwm hmatch => ?_, hi ▸ hbest⟩, hnext.2.1⟩
  · rw [hold j (by omega), h.zeros j (by omega)]
  · rw [hi] at hw hmatch
    exact hnext.2.2.2 w hw hwm (matches_succ.1 hmatch).1

/-- **A round keeps the invariant** and comes closer to the end. -/
theorem ScanInv.scanStep {s' : Scan} (h : ScanInv (tokens[·]?) m s) (hi : s.i < tokens.length)
    (hs : scanStep tokens m s = s') : ScanInv (tokens[·]?) m s' ∧ s'.i ≤ tokens.length ∧
      2 * (tokens.length - s'.i) + s'.prevLps < 2 * (tokens.length - s.i) + s.prevLps := by
  rw [SpecDecode.scanStep] at hs
  by_cases heq : tokens[s.prevLps]? = tokens[s.i]?
  · -- the match at hand is extended
    have hlong : Longest (tokens[·]?) m (s.prevLps + 1) (s.i + 1) :=
      ⟨Nat.succ_lt_succ h.prev_lt, h.prev_lt_max, matches_succ.2 ⟨h.prev_matches, heq⟩, by
        rintro (_ | w) hw hwm hmatch
        · exact Nat.zero_le _
        · exact Nat.succ_le_succ (h.le_prev w (by omega) hwm hmatch)⟩
    obtain ⟨hinv, hle⟩ := h.advance (s.extend m) hlong rfl rfl rfl (by
      dsimp only [Scan.extend]
      split_ifs with hbest
      · exact h.best.next hlong hbest
      · exact h.best.keep hlong (.inr (not_le.1 hbest)))
    have hnext : (s.extend m).i = s.i + 1 := rfl
    rw [if_pos heq] at hs
    subst hs
    exact ⟨hinv, hi, by omega⟩
  rw [if_neg heq] at hs
  by_cases hprev : s.prevLps = 0
  · -- there is no match
    have hlong : Longest (tokens[·]?) m 0 (s.i + 1) :=
      ⟨Nat.succ_pos _, Nat.zero_le _, matches_zero, by
        rintro (_ | w) hw hwm hmatch
        · exact le_rfl
        · have hw0 := h.le_prev w (by omega) hwm hmatch
          obtain rfl : w = s.prevLps := by omega
          exact absurd (matches_succ.1 hmatch).2 heq⟩
    have hlps : s.lps = if s.i < m then update s.lps s.i 0 else s.lps := by
      rw [← h.zeros s.i le_rfl, update_eq_self, ite_self]
    rw [if_neg (not_not.2 hprev)] at hs
    subst hs
    refine ⟨(h.advance { s with i := s.i + 1 } hlong rfl hlps ?_ ?_).1, hi, ?_⟩
    · rw [if_neg (by have := h.prev_lt_max; omega)]
      exact hprev
    · exact h.best.keep hlong (.inl rfl)
    · dsimp only
      omega
  · -- the next shorter match is tried
    have htab := h.table (s.prevLps - 1) (by have := h.prev_lt; omega)
      (by have := h.prev_lt_max; omega)
    rw [Nat.sub_add_cancel (Nat.pos_of_ne_zero hprev)] at htab
    have hwithin := Longest.within h.prev_matches htab
    rw [if_pos hprev] at hs
    subst hs
    refine ⟨⟨h.table, h.zeros, htab.lt.trans h.prev_lt, htab.lt.trans h.prev_lt_max, hwithin.1,
      fun w hw hwm hmatch => ?_, h.best⟩, hi.le, Nat.add_lt_add_left htab.lt _⟩
    have hle := h.le_prev w hw hwm hmatch
    obtain ⟨hmatch, hlast⟩ := matches_succ.1 hmatch
    exact hwithin.2 w (lt_of_le_of_ne hle fun hc => heq (hc ▸ hlast)) hwm.le hmatch

theorem scanInv_init (t : ℕ → α) (hm : 0 < m) : ScanInv t m ⟨fun _ => 0, 0, 0, 0, 1⟩ where
  table j hj _ := ⟨Nat.succ_pos j, Nat.zero_le m, matches_zero, fun w hw _ _ => by
    have : j < 1 := hj
    omega⟩
  zeros _ _ := rfl
  prev_lt := Nat.one_pos
  prev_lt_max := hm
  prev_matches := matches_zero
  le_prev w hw _ _ := Nat.le_of_lt_succ hw
  best := ⟨fun h => absurd h (Nat.lt_irrefl 0), fun j hj w hw _ hwj _ => by
    have : j < 1 := hj
    omega⟩

/-- The search ends. -/
theorem scan_eq_ok (hm : 0 < m) (hlen : 0 < tokens.length) :
    ∃ s, scan tokens m = .ok s ∧ Best (tokens[·]?) m tokens.length s.longestNgram s.position := by
  obtain ⟨s, hs, ⟨hinv, hle⟩, hdone⟩ := whileLoop_eq_ok
    (fun s => ScanInv (tokens[·]?) m s ∧ s.i ≤ tokens.length)
    (fun s => 2 * (tokens.length - s.i) + s.prevLps)
    (fun s hs (hi : s.i < tokens.length) => by
      obtain ⟨hinv, hle, hlt⟩ := hs.1.scanStep hi rfl
      exact ⟨_, rfl, ⟨hinv, hle⟩, hlt⟩)
    () ⟨scanInv_init _ hm, hlen⟩ (by dsimp only; omega : _ ≤ 2 * tokens.length)
  exact ⟨s, hs, hle.antisymm (not_lt.1 hdone) ▸ hinv.best⟩

/-! ## Drafts -/

/-- The last `n` tokens also occur at `p`, and end before the last position there. -/
def Recurs (tokens : List τ) (n p : ℕ) : Prop :=
  p + n < tokens.length ∧ (tokens.drop p).take n = tokens.drop (tokens.length - n)

omit [DecidableEq τ] in
/-- An occurrence is a match in the reversed tokens. -/
theorem recurs_iff : Recurs tokens n p ↔
    p + n < tokens.length ∧ Matches (tokens.reverse[·]?) n (tokens.length - p) := by
  refine and_congr_right fun hlt => ?_
  have hat : ∀ j < n, tokens.reverse[j]? = (tokens.drop (tokens.length - n))[n - 1 - j]? ∧
      tokens.reverse[tokens.length - p - n + j]? = ((tokens.drop p).take n)[n - 1 - j]? := by
    intro j hj
    rw [getElem?_reverse (by omega), getElem?_reverse (by omega), getElem?_drop, getElem?_take,
      if_pos (by omega), getElem?_drop]
    exact ⟨by congr 1; omega, by congr 1; omega⟩
  constructor
  · intro heq
    refine ⟨by omega, fun j hj => ?_⟩
    simp only [hat j hj, heq]
  · rintro ⟨-, hmatch⟩
    refine ext_getElem? fun j => ?_
    rcases Nat.lt_or_ge j n with hj | hj
    · have hrev := hat (n - 1 - j) (by omega)
      rw [Nat.sub_sub_self (by omega)] at hrev
      exact hrev.2.symm.trans ((hmatch (n - 1 - j) (by omega)).trans hrev.1)
    · rw [getElem?_eq_none (by simp; omega), getElem?_eq_none (by simp; omega)]

/-- **The draft is what follows the leftmost occurrence of the longest n-gram**, as long as there
is room; there is no draft where no n-gram recurs. -/
theorem proposes_longest_earliest (tokens : List τ) {minNgram maxNgram : ℕ} (hmin : 1 ≤ minNgram)
    (hmax : minNgram ≤ maxNgram) (maxModelLen k : ℤ) :
    ∃ draft, findLongestMatchedNgramAndProposeTokens tokens minNgram maxNgram maxModelLen k =
        .ok draft ∧
      (∀ n p, IsGreatest {n | minNgram ≤ n ∧ n ≤ maxNgram ∧ ∃ p, Recurs tokens n p} n →
        IsLeast {p | Recurs tokens n p} p → draft = (tokens.drop (p + n)).take
          (min (min k (maxModelLen - tokens.length)) (tokens.length - (p + n))).toNat) ∧
      ((∀ n, minNgram ≤ n → n ≤ maxNgram → ∀ p, ¬ Recurs tokens n p) ∨
        min k (maxModelLen - tokens.length) ≤ 0 → draft = []) := by
  simp only [findLongestMatchedNgramAndProposeTokens]
  split_ifs with hshort hroom
  · refine ⟨[], rfl, fun n p hn hp => ?_, fun _ => rfl⟩
    have := hp.1.1
    have := hn.1.1
    omega
  · refine ⟨[], rfl, fun n p _ _ => ?_, fun _ => rfl⟩
    rw [Int.toNat_of_nonpos (by omega), take_zero]
  obtain ⟨s, hs, hscan⟩ := scan_eq_ok (hmin.trans hmax)
    (by rw [length_reverse]; omega : 0 < tokens.reverse.length)
  rw [length_reverse] at hscan
  -- the best match is the leftmost occurrence of the longest n-gram
  have hbest : ∀ {n p}, minNgram ≤ n → n ≤ maxNgram → Recurs tokens n p →
      n ≤ s.longestNgram ∧ (n = s.longestNgram → tokens.length - 1 - s.position ≤ p) := by
    intro n p hn hnm hrec
    have hlt := hrec.1
    have hmatch := (recurs_iff.1 hrec).2
    rw [← Nat.sub_add_cancel (by omega : 1 ≤ tokens.length - p)] at hmatch
    obtain ⟨hle, hlast⟩ := hscan.best _ (by omega) n (by omega) hnm (by omega) hmatch
    exact ⟨hle, fun heq => by have := hlast heq; omega⟩
  rw [hs, ok_bind]
  split_ifs with hlong
  · refine ⟨[], rfl, fun n p hn _ => ?_, fun _ => rfl⟩
    obtain ⟨hnmin, hnmax, q, hq⟩ := hn.1
    have := (hbest hnmin hnmax hq).1
    omega
  · obtain ⟨hle, hpos, hlt, hmatch⟩ := hscan.found (by omega)
    have hrec : Recurs tokens s.longestNgram (tokens.length - 1 - s.position) := by
      refine recurs_iff.2 ⟨by omega, ?_⟩
      rwa [show tokens.length - (tokens.length - 1 - s.position) = s.position + 1 by omega]
    refine ⟨_, rfl, fun n p hn hp => ?_, fun hnone => ?_⟩
    · obtain rfl : n = s.longestNgram :=
        (hbest hn.1.1 hn.1.2.1 hp.1).1.antisymm (hn.2 ⟨not_lt.1 hlong, hle, _, hrec⟩)
      obtain rfl : p = tokens.length - 1 - s.position :=
        (hp.2 hrec).antisymm ((hbest hn.1.1 hle hp.1).2 rfl)
      rw [Int.natCast_add]
    · rcases hnone with hnone | hnone
      · exact absurd hrec (hnone _ (not_lt.1 hlong) hle _)
      · exact absurd hnone hroom

/-- The last three tokens occur twice before, and are followed by different tokens. -/
theorem proposes_longest_earliest_repeated :
    let tokens := [1, 2, 3, 7, 1, 2, 3, 8, 1, 2, 3]
    findLongestMatchedNgramAndProposeTokens tokens 2 4 100 3 = .ok [7, 1, 2] ∧
      ∃ draft, findLongestMatchedNgramAndProposeTokens tokens 2 4 100 3 = .ok draft :=
  ⟨by decide, (proposes_longest_earliest _ (by decide) (by decide) 100 3).imp fun _ h => h.1⟩

end KVarN.SpecDecode
