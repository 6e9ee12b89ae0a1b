import KVarN.Sched.Tokens
import KVarN.Sched.System

/-!
# Where a prefill chunk ends for Mamba layers

The state of a Mamba layer is stored where a chunk ends, so that a chunk of a prefill ends at
a block boundary or at a position whose state has to be cached. The split aligns the end of
the chunk and then looks for the earliest stop inside it.

## Main definitions

* `MambaStop` — the positions at which a prefill has to stop.

## Main results

* `mambaBlockAlignedSplit_stops` — no chunk runs over a stop, and where chunks end.
-/

namespace KVarN.Sched


variable {H : Type} {cfg : SchedulerConfig H} {r : Request H}

/-- `prefill_end`. -/
def Request.prefillEnd (r : Request H) : ℤ := max (r.numPromptTokens : ℤ) ((r.numTokens : ℤ) - 1)

/-- `max_prefill_tokens`, the tokens of a prefill in one step. -/
def SchedulerConfig.prefillLimit (cfg : SchedulerConfig H) : ℤ :=
  if 0 < cfg.longPrefillTokenThreshold then
    min (cfg.maxNumScheduledTokens : ℤ) cfg.longPrefillTokenThreshold
  else cfg.maxNumScheduledTokens

/-- `last_cache_position`. -/
def Request.lastCachePosition (cfg : SchedulerConfig H) (r : Request H) : ℤ :=
  let last : ℤ := (r.numTokens : ℤ) - r.numTokens % (cfg.cacheBlockSize : ℤ)
  if cfg.useEagle then max (last - cfg.cacheBlockSize) 0 else last

/-- The last hash boundary of the prompt. -/
def Request.tailBoundary (cfg : SchedulerConfig H) (r : Request H) : ℕ :=
  r.numPromptTokens / cfg.kv.hashBlockSize * cfg.kv.hashBlockSize

/-- The positions at which a prefill from `start` has to stop, when it asks for the tokens up
to `goal`. A shared prefix that ends no earlier than the last chunk asks for no stop. -/
def MambaStop (cfg : SchedulerConfig H) (r : Request H) (start goal x : ℤ) : Prop :=
  start % (cfg.cacheBlockSize : ℤ) ≠ 0 ∧ x = (start / cfg.cacheBlockSize + 1) * cfg.cacheBlockSize ∨
  x = r.lastCachePosition cfg ∨
  (cfg.mambaPartialCacheHit = true ∧ r.lastCachePosition cfg < r.tailBoundary cfg ∧
    (r.tailBoundary cfg : ℤ) < r.numPromptTokens) ∧ x = r.tailBoundary cfg ∨
  (r.prefillEnd ≤ goal → (r.sharedPrefixBoundary : ℤ) < goal) ∧
    x = (r.sharedPrefixBoundary : ℤ) / cfg.cacheBlockSize * cfg.cacheBlockSize

instance (cfg : SchedulerConfig H) (r : Request H) (start goal x : ℤ) :
    Decidable (MambaStop cfg r start goal x) := by
  unfold MambaStop; infer_instance

/-! ## The earliest stop -/

/-- The earliest of the `stops` strictly between `start` and `stop`, `stop` if there is none. -/
private theorem earliest_spec (stops : List ℤ) (start stop : ℤ) {m : ℤ}
    (hm : (stops.filter fun x => start < x ∧ x < stop).foldl min stop = m) :
    m ≤ stop ∧ (m = stop ∨ m ∈ stops ∧ start < m) ∧ ∀ x ∈ stops, start < x → x < stop → m ≤ x := by
  have hmin : (stop :: stops.filter fun x => start < x ∧ x < stop).min? = some m := by
    rw [List.min?_cons', hm]
  obtain ⟨hmem, hle⟩ := List.min?_eq_some_iff.1 hmin
  refine ⟨hle stop List.mem_cons_self, ?_, fun x hx hlo hhi => hle x ?_⟩
  · refine (List.mem_cons.1 hmem).imp_right fun h => ?_
    have hfound := List.mem_filter.1 h
    exact ⟨hfound.1, (of_decide_eq_true hfound.2).1⟩
  · exact List.mem_cons_of_mem _ (List.mem_filter.2 ⟨hx, decide_eq_true ⟨hlo, hhi⟩⟩)

/-- The end of a chunk before its stops: aligned inside the prefill, and otherwise as asked
for, at the end of the prefill or inside a block that is too wide. -/
private def AlignedTo (cfg : SchedulerConfig H) (r : Request H) (start goal aligned : ℤ) : Prop :=
  aligned = goal / cfg.cacheBlockSize * cfg.cacheBlockSize ∨ aligned = goal ∧
    (r.prefillEnd ≤ goal ∨ goal / cfg.cacheBlockSize * cfg.cacheBlockSize ≤ start ∧
      cfg.prefillLimit < cfg.cacheBlockSize)

private theorem mambaAlignedEnd_alignedTo (cfg : SchedulerConfig H) (r : Request H)
    (start goal : ℤ) :
    AlignedTo cfg r start goal (mambaAlignedEnd cfg start goal r.prefillEnd) := by
  simp only [AlignedTo, mambaAlignedEnd, SchedulerConfig.prefillLimit]
  split_ifs <;> simp only [true_or, true_and] <;> omega

/-! ### Block boundaries -/

section Floors

variable {b start x : ℤ}

private theorem mul_le_floor {k : ℤ} (hb : 0 < b) (h : k * b ≤ x) : k * b ≤ x / b * b :=
  Int.mul_le_mul_of_nonneg_right (Int.le_ediv_of_mul_le hb h) hb.le

/-- From a block boundary, counting whole blocks gives the floor. -/
private theorem floor_from (h : start % b = 0) : start + (x - start) / b * b = x / b * b := by
  rw [Int.sub_ediv_of_dvd _ (Int.dvd_of_emod_eq_zero h), Int.sub_mul,
    Int.ediv_mul_cancel (Int.dvd_of_emod_eq_zero h)]
  omega

private theorem next_le_floor (hb : 0 < b) (h : start < x / b * b) :
    (start / b + 1) * b ≤ x / b * b :=
  Int.mul_le_mul_of_nonneg_right (Int.add_one_le_of_lt (Int.ediv_lt_of_lt_mul hb h)) hb.le

/-- From inside a block, a whole block leads behind the end of the block. -/
private theorem next_lt_from {k : ℤ} (hb : 0 < b) (h : start % b ≠ 0) (hk : start < start + k * b) :
    (start / b + 1) * b < start + k * b := by
  have hpos : 0 < k := Int.lt_of_mul_lt_mul_right (by omega : 0 * b < k * b) hb.le
  have hkb := Int.mul_le_mul_of_nonneg_right hpos hb.le
  have hdiv := Int.ediv_mul_add_emod start b
  have hmod := Int.emod_nonneg start hb.ne'
  rw [Int.add_mul]
  omega

end Floors

/-- The stops the split looks at. -/
private theorem mem_mambaStops {start stop x : ℤ} : x ∈ mambaStops cfg r start stop ↔
      x = (if start % (cfg.cacheBlockSize : ℤ) ≠ 0 then
        (start / cfg.cacheBlockSize + 1) * cfg.cacheBlockSize else 0) ∨
      x = r.lastCachePosition cfg ∨
      x = (if cfg.mambaPartialCacheHit = true ∧ r.lastCachePosition cfg < r.tailBoundary cfg ∧
        (r.tailBoundary cfg : ℤ) < r.numPromptTokens then (r.tailBoundary cfg : ℤ) else 0) ∨
      x = if start < r.sharedPrefixBoundary ∧ (r.sharedPrefixBoundary : ℤ) < stop then
        start + (r.sharedPrefixBoundary - start) / cfg.cacheBlockSize * cfg.cacheBlockSize
        else 0 := by
  change x ∈ [_, _, _, _] ↔ _
  simp only [List.mem_cons, List.not_mem_nil, or_false]
  refine or_congr Iff.rfl (or_congr Iff.rfl (or_congr ?_ Iff.rfl))
  change x = ite (r.lastCachePosition cfg < ite _ (r.tailBoundary cfg : ℤ) 0 ∧ _) _ _ ↔ _
  by_cases h : cfg.mambaPartialCacheHit = true
  · simp [h, Request.tailBoundary]
  · simp [h]

section Ends

variable {start goal aligned m : ℤ}

/-- A chunk that passes none of the stops the split looks at passes no stop. -/
private theorem not_stop_inside (hb : (0 : ℤ) < cfg.cacheBlockSize)
    (hal : AlignedTo cfg r start goal aligned) (hle : m ≤ aligned)
    (hleast : ∀ x ∈ mambaStops cfg r start aligned, start < x → x < aligned → m ≤ x) {x : ℤ}
    (hx : MambaStop cfg r start goal x) : ¬ (start < x ∧ x < m) := by
  rintro ⟨hlo, hhi⟩
  have hnot : x ∉ mambaStops cfg r start aligned := fun h =>
    absurd (hleast x h hlo (hhi.trans_le hle)) (by omega)
  rw [mem_mambaStops] at hnot
  rcases hx with ⟨h, rfl⟩ | rfl | ⟨h, rfl⟩ | ⟨h, rfl⟩
  · exact hnot (.inl (if_pos h).symm)
  · exact hnot (.inr (.inl rfl))
  · exact hnot (.inr (.inr (.inl (if_pos h).symm)))
  · by_cases hmid : start % (cfg.cacheBlockSize : ℤ) = 0
    · -- the floor of the junction is the one the split computes from the block of `start`
      have hspb := Int.ediv_mul_le (r.sharedPrefixBoundary : ℤ) hb.ne'
      have hlt : (r.sharedPrefixBoundary : ℤ) < aligned := by
        by_contra hge
        rcases hal with rfl | ⟨rfl, hal | ⟨hal, -⟩⟩
        · have := mul_le_floor hb (not_lt.1 hge)
          omega
        · exact hge (h hal)
        · have := mul_le_floor hb (hhi.trans_le hle).le
          omega
      refine hnot (.inr (.inr (.inr ?_)))
      rw [if_pos ⟨hlo.trans_le hspb, hlt⟩, floor_from hmid]
    · -- the end of the block of `start` comes first
      have hnext := next_le_floor hb hlo
      have := hleast _ (mem_mambaStops.2 (.inl (if_pos hmid).symm))
        (Int.lt_ediv_add_one_mul_self start hb) (by omega)
      omega

/-- The stop the split takes is a block boundary or one at which the chunk has to stop. -/
private theorem aligned_or_stop (hb : (0 : ℤ) < cfg.cacheBlockSize)
    (hmem : m ∈ mambaStops cfg r start aligned) (hlo : start < m) (hle : m ≤ aligned)
    (hleast : ∀ x ∈ mambaStops cfg r start aligned, start < x → x < aligned → m ≤ x) :
    m % (cfg.cacheBlockSize : ℤ) = 0 ∨ MambaStop cfg r start goal m := by
  rcases mem_mambaStops.1 hmem with rfl | rfl | rfl | hm
  · exact .inl (by split <;> simp)
  · exact .inr (.inr (.inl rfl))
  · split_ifs with h
    · exact .inr (.inr (.inr (.inl ⟨h, rfl⟩)))
    · exact .inl (Int.zero_emod _)
  · split_ifs at hm with h
    swap
    · exact .inl (by rw [hm, Int.zero_emod])
    by_cases hmid : start % (cfg.cacheBlockSize : ℤ) = 0
    · exact .inl (by rw [hm, Int.add_mul_emod_self_right, hmid])
    · have hnext := next_lt_from hb hmid (hm ▸ hlo)
      have := hleast _ (mem_mambaStops.2 (.inl (if_pos hmid).symm))
        (Int.lt_ediv_add_one_mul_self start hb) (by omega)
      omega

end Ends

/-- **The ends of prefill chunks.** A chunk ends within the tokens asked for. During the
prefill no stop lies strictly inside it, and a chunk that takes tokens and does not reach the
end of the prefill ends at a block boundary or a stop, unless a block is wider than a step and
the chunk stays inside one block. -/
theorem mambaBlockAlignedSplit_stops (cfg : SchedulerConfig H) (r : Request H)
    (n numLocal numExternal : ℕ) (start stop : ℤ) (hbs : 0 < cfg.cacheBlockSize)
    (hstart : start = r.numComputedTokens + numLocal + numExternal)
    (hstop : stop = start + mambaBlockAlignedSplit cfg r n numLocal numExternal) :
    (start ≤ stop ∧ stop ≤ start + n) ∧ (start < r.prefillEnd →
      (∀ x, MambaStop cfg r start (start + n) x → ¬ (start < x ∧ x < stop)) ∧
      (start < stop → stop < r.prefillEnd →
        stop % (cfg.cacheBlockSize : ℤ) = 0 ∨ MambaStop cfg r start (start + n) stop ∨
        cfg.prefillLimit < cfg.cacheBlockSize ∧
          start / cfg.cacheBlockSize = stop / cfg.cacheBlockSize)) := by
  have hb : (0 : ℤ) < cfg.cacheBlockSize := by omega
  rw [mambaBlockAlignedSplit, ← hstart] at hstop
  change stop = start + (if r.prefillEnd ≤ start then (n : ℤ) else _) at hstop
  by_cases hpre : r.prefillEnd ≤ start
  · rw [if_pos hpre] at hstop
    exact ⟨by omega, fun h => absurd h (by omega)⟩
  rw [if_neg hpre] at hstop
  change stop = start + max ((((mambaStops cfg r start
    (mambaAlignedEnd cfg start (start + n) r.prefillEnd)).filter fun x => start < x ∧
      x < mambaAlignedEnd cfg start (start + n) r.prefillEnd).foldl min
    (mambaAlignedEnd cfg start (start + n) r.prefillEnd)) - start) 0 at hstop
  have hle := mambaAlignedEnd_le hbs start (start + n) r.prefillEnd
  have hcases := mambaAlignedEnd_alignedTo cfg r start (start + n)
  generalize hend : mambaAlignedEnd cfg start (start + n) r.prefillEnd = aligned at *
  generalize hm : ((mambaStops cfg r start aligned).filter fun x =>
    start < x ∧ x < aligned).foldl min aligned = m at *
  obtain ⟨hmle, hmem, hleast⟩ := earliest_spec _ _ _ hm
  refine ⟨by omega, fun _ => ⟨fun x hx => ?_, fun hlt hpre' => ?_⟩⟩
  · intro hxs
    exact not_stop_inside hb hcases hmle hleast hx (by omega)
  have hsm : stop = m := by omega
  subst hsm
  rcases hmem with rfl | ⟨hmem, hlo⟩
  · rcases hcases with h | ⟨h, hgoal | ⟨hin, hwide⟩⟩
    · exact .inl (by rw [h, Int.mul_emod_left])
    · omega
    · refine .inr (.inr ⟨hwide, ?_⟩)
      rw [h]
      exact le_antisymm (Int.ediv_le_ediv hb (by omega)) (Int.le_ediv_of_mul_le hb hin)
  · exact (aligned_or_stop hb hmem hlo hmle hleast).imp_right .inl

namespace Small

/-- A request that replays four output tokens after three prompt tokens. -/
def replayed (numComputed : ℤ) (shared : ℕ) : Request ℕ := { Request.ofParams params with
  allTokenIds := List.range 7
  numComputedTokens := numComputed
  sharedPrefixBoundary := shared }

/-- A request of 40 tokens, of which 8 are computed and 20 are shared. -/
def replayed40 : Request ℕ := { replayed 8 20 with allTokenIds := List.range 40 }

/-- The drafter keeps the last block out of the cache. -/
def eagleConfig : SchedulerConfig ℕ := { config with useEagle := true }

end Small

open KVarN.Sched.Small

/-- A chunk of 21 tokens that is cut where the shared prefix ends. -/
theorem mambaBlockAlignedSplit_stops_small : ¬ MambaStop config replayed40 8 29 16 ∧
    ((20 : ℤ) % 4 = 0 ∨ MambaStop config replayed40 8 29 20 ∨
      config.prefillLimit < 4 ∧ (8 : ℤ) / 4 = 20 / 4) := by
  obtain ⟨hinside, hend⟩ := (mambaBlockAlignedSplit_stops config replayed40 21 0 0 8 20 (by decide)
    (by decide) (by decide +kernel)).2 (by decide +kernel)
  exact ⟨fun h => hinside 16 h (by decide), hend (by decide) (by decide +kernel)⟩

/-- Three chunks of blocks of four tokens. One from inside a block with too small a budget
takes nothing, so that it ends where it starts. One that ends with the shared prefix, at the
end of the prefill, runs over the last block boundary of the prefix. One of a decode runs over
the end of its block. -/
theorem mambaBlockAlignedSplit_not_stops : (mambaBlockAlignedSplit config (replayed 1 0) 2 0 0 = 0 ∧
      1 < (replayed 1 0).prefillEnd ∧ ¬ ((1 : ℤ) % 4 = 0 ∨
        MambaStop config (replayed 1 0) 1 3 1 ∨ config.prefillLimit < 4)) ∧
    (mambaBlockAlignedSplit eagleConfig (replayed 0 6) 6 0 0 = 6 ∧
      0 < (6 : ℤ) / 4 * 4 ∧ (6 : ℤ) / 4 * 4 < 0 + 6) ∧
    (mambaBlockAlignedSplit config (replayed 6 0) 4 0 0 = 4 ∧
      MambaStop config (replayed 6 0) 6 10 8 ∧ (6 : ℤ) < 8 ∧ (8 : ℤ) < 6 + 4) := by
  decide +kernel

end KVarN.Sched
