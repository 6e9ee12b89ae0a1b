import KVarN.Tile.Allocator

/-!
# The fate of one tile across an engine build

What a build does to a single tile row, derived once from the stage
specifications. A needed tile that no walk-back reaches keeps its slot. A full
tile the batch does not need keeps its slot or is flushed from it. A tile that is
neither resident nor needed is left alone. Nothing is flushed but from the slot
it held before the build.

A retired sink survives as long as the needed tiles fit into the pool together
with it and the sinks retired after it (`build_keeps_retired`).
-/

namespace KVarN.Tile

open KVarN.Lib Dict List

variable {cfg : Config} {cam : AttnMetadata} {s : GroupState} {ord : SetOrder}

/-- The walk-back of the batch returns: no row is longer than the block table. -/
def WalkReturns (cfg : Config) (cam : AttnMetadata) (s : GroupState) : Prop :=
  ∃ flush, walkBack cfg (mark cfg cam s).state cam.rows [] = .ok flush

/-- Some row's walk-back can reach the tile. -/
def Reached (cfg : Config) (cam : AttnMetadata) (s : GroupState) (b : ℕ) : Prop :=
  ∃ r ∈ cam.rows, Walked cfg (mark cfg cam s).state r b

/-- An engine build, when its walk-back returns, is a reclaim and an allocation. -/
theorem engine_cases (h : s.Inv cfg) (hw : WalkReturns cfg cam s) (ord : SetOrder) :
    ∃ flush ev, (∀ b ∈ flush, Reached cfg cam s b) ∧
      walkBack cfg (mark cfg cam s).state cam.rows [] = .ok flush ∧
      Allocated (mark cfg cam s).needed (ord.order (mark cfg cam s).needed)
        (reclaim cfg (mark cfg cam s) flush).freed
        (copies (reclaim cfg (mark cfg cam s) flush).state
          (reclaim cfg (mark cfg cam s) flush).flush)
        ev (build cfg false ord cam s) ∧
      Tight (reclaim cfg (mark cfg cam s) flush).freed ev (build cfg false ord cam s).state := by
  rcases build_cases false ord cam h with ⟨-, he⟩ | ⟨r, ev, hr, hA⟩
  · obtain ⟨flush, hw⟩ := hw
    rw [he] at hw
    cases hw
  · obtain ⟨flush, hfl, rfl⟩ := lifecycle_engine hr
    refine ⟨flush, ev, fun b hb => ?_, hfl, hA⟩
    exact ((walkBack_spec hfl).2 b hb).resolve_left not_mem_nil

variable {p : ℕ × ℕ} {b : ℕ}

private theorem mem_copies {bids : List ℕ} :
    p ∈ copies s bids ↔ p.1 ∈ bids ∧ s.blockToSlot.get? p.1 = some p.2 := by
  simp only [copies, mem_filterMap, Option.map_eq_some_iff]
  constructor
  · rintro ⟨b, hb, slot, hs, rfl⟩
    exact ⟨hb, hs⟩
  · rintro ⟨hb, hs⟩
    exact ⟨p.1, hb, p.2, hs, rfl⟩

section

variable (h : s.Inv cfg) (hw : WalkReturns cfg cam s)

include h hw

/-- Every tile is flushed from the slot it held before the build. -/
theorem build_flushed_slot
    (hp : p ∈ (build cfg false ord cam s).flushed) : s.blockToSlot.get? p.1 = some p.2 := by
  obtain ⟨flush, ev, -, -, hA, -⟩ := engine_cases h hw ord
  rw [hA.flushed] at hp
  rcases mem_append.1 hp with hp | hp
  · simpa using (mem_copies.1 hp).2
  · have hp' := hA.evicted p hp
    rw [freed_get?] at hp'
    split at hp'
    · cases hp'
    · simpa using hp'

/-- A flushed tile was reached by a walk-back, or is full and not needed. -/
theorem build_flushed_cases (hb : b ∈ (build cfg false ord cam s).flushed.map Prod.fst) :
    Reached cfg cam s b ∨ (b ∉ (mark cfg cam s).needed ∧ s.Full cfg b) := by
  obtain ⟨flush, ev, hreach, hfl, hA, -⟩ := engine_cases h hw ord
  rw [hA.flushed, map_append] at hb
  rcases mem_append.1 hb with hb | hb
  · obtain ⟨p, hp, rfl⟩ := mem_map.1 hb
    rcases mem_reclaim_flush.1 (mem_copies.1 hp).1 with hq | ⟨hr, hf, -⟩
    · exact Or.inl (hreach _ hq)
    · have hn := (mem_reclaimable.1 hr).2.1
      exact Or.inr ⟨hn, (mark_full_of_notNeeded hn).1 hf⟩
  · have hret := hA.mem_retired hb
    rw [freed_retiredSinks] at hret
    rcases mem_reclaim_retired.1 hret with hret | ⟨hr, hf, -⟩
    · obtain ⟨hret, hn⟩ := mem_mark_retired.1 hret
      exact Or.inr ⟨hn, h.retired_full b hret⟩
    · have hn := (mem_reclaimable.1 hr).2.1
      exact Or.inr ⟨hn, (mark_full_of_notNeeded hn).1 hf⟩

/-- **Needed tiles stay**, unless a walk-back reaches them. -/
theorem build_keeps_needed
    (hd : b ∈ s.blockToSlot) (hn : b ∈ (mark cfg cam s).needed) (hr : ¬Reached cfg cam s b) :
    (build cfg false ord cam s).state.blockToSlot.get? b = s.blockToSlot.get? b ∧
      b ∉ (build cfg false ord cam s).flushed.map Prod.fst := by
  refine ⟨?_, fun hb => (build_flushed_cases h hw hb).elim hr fun hx => hx.1 hn⟩
  obtain ⟨flush, ev, hreach, -, hA, -⟩ := engine_cases h hw ord
  have hflush : b ∉ (reclaim cfg (mark cfg cam s) flush).flush := by
    intro hx
    rcases mem_reclaim_flush.1 hx with hx | hx
    · exact hr (hreach b hx)
    · exact (mem_reclaimable.1 hx.1).2.1 hn
  have hdis : b ∉ (reclaim cfg (mark cfg cam s) flush).discard := fun hx =>
    (mem_reclaimable.1 (mem_reclaim_discard.1 hx).1).2.1 hn
  have hd' : b ∈ (reclaim cfg (mark cfg cam s) flush).freed.blockToSlot :=
    (mem_freed b _).2 ⟨by simpa using hd, hflush, hdis⟩
  have hev : b ∉ ev.map Prod.fst := by
    intro hx
    have hret := hA.mem_retired hx
    rw [freed_retiredSinks] at hret
    rcases mem_reclaim_retired.1 hret with hret | hret
    · exact (mem_mark_retired.1 hret).2 hn
    · exact (mem_reclaimable.1 hret.1).2.1 hn
  rw [hA.kept_of_notMem hd' hev, freed_get?, if_neg, reclaim_blockToSlot, mark_blockToSlot]
  rw [mem_append, not_or]
  exact ⟨hflush, hdis⟩

/-- **Full tiles the batch does not need** keep their slot or are flushed. -/
theorem build_full_tile
    (hd : b ∈ s.blockToSlot) (hn : b ∉ (mark cfg cam s).needed) (hf : s.Full cfg b) :
    ((build cfg false ord cam s).state.blockToSlot.get? b = s.blockToSlot.get? b ∧
      b ∉ (build cfg false ord cam s).flushed.map Prod.fst) ∨
    (b ∉ (build cfg false ord cam s).state.blockToSlot ∧
      b ∈ (build cfg false ord cam s).flushed.map Prod.fst) := by
  obtain ⟨flush, ev, -, -, hA, -⟩ := engine_cases h hw ord
  obtain ⟨slot, hslot⟩ := mem_iff_get?.1 hd
  have hgone : b ∉ (reclaim cfg (mark cfg cam s) flush).freed.blockToSlot →
      b ∉ (build cfg false ord cam s).state.blockToSlot := fun hx hR =>
    hn ((ord.perm _).mem_iff.1 (hA.fresh b hx hR))
  by_cases hq : b ∈ (reclaim cfg (mark cfg cam s) flush).flush
  · refine Or.inr ⟨hgone fun hx => ((mem_freed b _).1 hx).2.1 hq, ?_⟩
    rw [hA.flushed, map_append]
    refine mem_append_left _ (mem_map.2 ⟨(b, slot), mem_copies.2 ⟨hq, ?_⟩, rfl⟩)
    simpa using hslot
  · have hdis : b ∉ (reclaim cfg (mark cfg cam s) flush).discard := fun hx =>
      (mem_reclaim_discard.1 hx).2 ((mark_full_of_notNeeded hn).2 hf)
    have hd' : b ∈ (reclaim cfg (mark cfg cam s) flush).freed.blockToSlot :=
      (mem_freed b _).2 ⟨by simpa using hd, hq, hdis⟩
    have hget : (reclaim cfg (mark cfg cam s) flush).freed.blockToSlot.get? b
        = s.blockToSlot.get? b := by
      rw [freed_get?, if_neg, reclaim_blockToSlot, mark_blockToSlot]
      rw [mem_append, not_or]
      exact ⟨hq, hdis⟩
    by_cases hev : b ∈ ev.map Prod.fst
    · refine Or.inr ⟨?_, ?_⟩
      · have hk := hA.kept b hd'
        rw [if_pos hev] at hk
        exact get?_eq_none_iff.1 hk
      · rw [hA.flushed, map_append]
        exact mem_append_right _ hev
    · refine Or.inl ⟨(hA.kept_of_notMem hd' hev).trans hget, ?_⟩
      rw [hA.flushed, map_append, mem_append, not_or]
      refine ⟨fun hx => ?_, hev⟩
      obtain ⟨p, hp, rfl⟩ := mem_map.1 hx
      exact hq (mem_copies.1 hp).1

/-- A tile neither resident nor needed stays out of the pool, and is not flushed. -/
theorem build_absent (hd : b ∉ s.blockToSlot) (hn : b ∉ (mark cfg cam s).needed) :
    b ∉ (build cfg false ord cam s).state.blockToSlot ∧
      b ∉ (build cfg false ord cam s).flushed.map Prod.fst := by
  constructor
  · obtain ⟨flush, ev, -, -, hA, -⟩ := engine_cases h hw ord
    intro hR
    refine hn ((ord.perm _).mem_iff.1 (hA.fresh b (fun hx => hd ?_) hR))
    simpa using ((mem_freed b _).1 hx).1
  · intro hb
    obtain ⟨p, hp, rfl⟩ := mem_map.1 hb
    exact hd (mem_of_get? (build_flushed_slot h hw hp))

/-! ## Labels and fill counts after a build -/

/-- A fill count after the build is the recorded one. -/
theorem build_fill_some {n : ℕ} (hn : (build cfg false ord cam s).state.blockFill.get? b = some n) :
    (cam.recordFill cfg s.blockFill).get? b = some n := by
  obtain ⟨flush, ev, -, -, hA, -⟩ := engine_cases h hw ord
  rw [hA.fill] at hn
  split at hn
  · cases hn
  · rw [freed_fill] at hn
    split at hn
    · cases hn
    · simpa using hn

/-- The fill of a tile that stays resident is the recorded one. -/
theorem build_fill (hd : b ∈ (build cfg false ord cam s).state.blockToSlot)
    (hr : b ∈ (mark cfg cam s).needed → ¬Reached cfg cam s b) :
    (build cfg false ord cam s).state.blockFill.get? b
      = (cam.recordFill cfg s.blockFill).get? b := by
  obtain ⟨flush, ev, hreach, -, hA, -⟩ := engine_cases h hw ord
  have hev : b ∉ ev.map Prod.fst := by
    intro hx
    have hmem : b ∈ (reclaim cfg (mark cfg cam s) flush).freed.blockToSlot := by
      obtain ⟨p, hp, rfl⟩ := mem_map.1 hx
      exact mem_of_get? (hA.evicted p hp)
    have hk := hA.kept b hmem
    rw [if_pos hx] at hk
    exact get?_eq_none_iff.1 hk hd
  rw [hA.fill, if_neg hev, freed_fill, if_neg, reclaim_blockFill, mark_blockFill]
  -- a released tile that is resident again was needed, hence not reclaimed
  rw [mem_append]
  intro hx
  have hback : b ∈ (mark cfg cam s).needed := by
    by_cases hmem : b ∈ (reclaim cfg (mark cfg cam s) flush).freed.blockToSlot
    · obtain ⟨-, h₁, h₂⟩ := (mem_freed b _).1 hmem
      exact (hx.elim h₁ h₂).elim
    · exact (ord.perm _).mem_iff.1 (hA.fresh b hmem hd)
  rcases hx with hx | hx
  · rcases mem_reclaim_flush.1 hx with hx | hx
    · exact hr hback (hreach b hx)
    · exact (mem_reclaimable.1 hx.1).2.1 hback
  · exact (mem_reclaimable.1 (mem_reclaim_discard.1 hx).1).2.1 hback

/-- A sink label after the build was there before, or is that of a first tile
written in this step. -/
theorem build_sink_cases (hb : b ∈ (build cfg false ord cam s).state.sinks) :
    b ∈ s.sinks ∨ (b ∈ cam.firstTiles cfg ∧ b ∈ cam.written cfg) := by
  obtain ⟨flush, ev, -, -, hA, -⟩ := engine_cases h hw ord
  have hb' := ((hA.sinks b).1 hb).1
  rw [freed_sinks] at hb'
  exact (mem_mark_sinks.1 (mem_reclaim_sinks.1 hb').1).1

/-- A request's first tile is a sink after the build if it was one, or is written now. -/
theorem build_first_sink
    (hfirst : b ∈ cam.firstTiles cfg) (hb : b ∈ s.sinks ∨ b ∈ cam.written cfg) :
    b ∈ (build cfg false ord cam s).state.sinks := by
  obtain ⟨flush, ev, -, -, hA, -⟩ := engine_cases h hw ord
  have hn : b ∈ (mark cfg cam s).needed :=
    mem_mark_needed.2 (hb.symm.imp_right fun hs => ⟨hfirst, hs⟩)
  have hsink : b ∈ (mark cfg cam s).state.sinks :=
    mem_mark_sinks.2 ⟨hb.imp_right fun hx => ⟨hfirst, hx⟩, fun hx => hx.2.2 hfirst⟩
  refine (hA.sinks b).2 ⟨?_, fun hx => ?_⟩
  · rw [freed_sinks]
    exact mem_reclaim_sinks.2 ⟨hsink, fun hx => (mem_reclaimable.1 hx.1).2.1 hn⟩
  · have hret := hA.mem_retired hx
    rw [freed_retiredSinks] at hret
    rcases mem_reclaim_retired.1 hret with hret | hret
    · exact (mem_mark_retired.1 hret).2 hn
    · exact (mem_reclaimable.1 hret.1).2.1 hn

end

/-- The reclaim retires a resident sink that the batch does not need, if it leaves it its
label. -/
theorem reclaim_keeps_sink {m : Marked} {flush : List ℕ}
    (hfl : walkBack cfg m.state cam.rows [] = .ok flush) (hd : b ∈ m.state.blockToSlot)
    (hn : b ∉ m.needed) (hb : b ∈ (reclaim cfg m flush).state.sinks) :
    b ∈ (reclaim cfg m flush).freed.blockToSlot ∧ b ∈ (reclaim cfg m flush).state.retiredSinks := by
  obtain ⟨hsink, hlabel⟩ := mem_reclaim_sinks.1 hb
  have hq : b ∉ flush := fun hx => (walkBack_resident hfl hx).2 hsink
  have hr : b ∈ reclaimable m flush := mem_reclaimable.2 ⟨hd, hn, hq⟩
  have hfull : m.state.Full cfg b := by
    by_contra hx
    exact hlabel ⟨hr, hx⟩
  refine ⟨(mem_freed b _).2 ⟨by simpa using hd, fun hx => ?_, fun hx =>
    (mem_reclaim_discard.1 hx).2 hfull⟩, mem_reclaim_retired.2 (Or.inr ⟨hr, hfull, hsink⟩)⟩
  exact (mem_reclaim_flush.1 hx).elim hq fun hx => hx.2.2 hsink

/-- A resident sink that the batch does not need keeps its slot, if it keeps its label. -/
theorem build_keeps_sink (h : s.Inv cfg) (hw : WalkReturns cfg cam s)
    (hd : b ∈ s.blockToSlot) (hn : b ∉ (mark cfg cam s).needed)
    (hb : b ∈ (build cfg false ord cam s).state.sinks) :
    b ∈ (build cfg false ord cam s).state.blockToSlot := by
  obtain ⟨flush, ev, -, hfl, hA, -⟩ := engine_cases h hw ord
  obtain ⟨hb', hev⟩ := (hA.sinks b).1 hb
  rw [freed_sinks] at hb'
  have hd' := (reclaim_keeps_sink hfl (by simpa using hd) hn hb').1
  obtain ⟨slot, hslot⟩ := mem_iff_get?.1 hd'
  exact mem_of_get? ((hA.kept_of_notMem hd' hev).trans hslot)

/-! ## Retired sinks under pressure -/

/-- The retired sinks of the build in the order of their eviction: those retired
before and not needed now, then the full sinks the batch does not need. -/
def retireOrder (cfg : Config) (cam : AttnMetadata) (s : GroupState) : List ℕ :=
  (s.retiredSinks.keys.filter fun b => b ∉ demand cfg cam s) ++ s.blockToSlot.keys.filter fun b =>
      b ∉ demand cfg cam s ∧ s.Full cfg b ∧ b ∈ s.sinks ∧ b ∉ s.retiredSinks

theorem mem_demand : b ∈ demand cfg cam s ↔ b ∈ (mark cfg cam s).needed := by
  simp [demand, mem_mark_needed]

private theorem reclaim_retireOrder {flush : List ℕ}
    (hfl : walkBack cfg (mark cfg cam s).state cam.rows [] = .ok flush) :
    (reclaim cfg (mark cfg cam s) flush).state.retiredSinks.keys = retireOrder cfg cam s := by
  rw [reclaim_retired_keys, mark_retired_keys, retireOrder]
  congr 1
  · exact filter_congr fun b _ => by simp only [mem_demand]
  · rw [reclaimable, filter_filter, mark_blockToSlot]
    refine filter_congr fun b _ => ?_
    by_cases hn : b ∈ (mark cfg cam s).needed
    · simp [hn, mem_demand]
    · have hsink : b ∈ (mark cfg cam s).state.sinks ↔ b ∈ s.sinks := by
        rw [mem_mark_sinks]
        refine ⟨fun hx => hx.1.elim id fun hx => ?_, fun hx => ⟨Or.inl hx, fun hx => hn hx.2.1⟩⟩
        exact absurd (mem_mark_needed.2 (Or.inl hx.2)) hn
      have hq : b ∈ s.sinks → b ∉ flush := fun hs hx =>
        (walkBack_resident hfl hx).2 (hsink.2 hs)
      have hret : b ∈ (mark cfg cam s).state.retiredSinks ↔ b ∈ s.retiredSinks := by
        rw [mem_mark_retired]
        exact and_iff_left hn
      simp only [hn, hsink, hret, mem_demand, mark_full_of_notNeeded hn, not_false_eq_true,
        true_and, Bool.decide_and, decide_not]
      by_cases hs : b ∈ s.sinks
      · simp [hs, hq hs]
      · simp [hs]

private theorem length_le_dropWhile (rest : List ℕ) {ev : List ℕ} (hb : b ∈ ev) :
    rest.length + 1 ≤ ((ev ++ rest).dropWhile (· ≠ b)).length := by
  induction ev with
  | nil => exact absurd hb not_mem_nil
  | cons x ev ih =>
    by_cases hx : x = b
    · simp [hx]
    · have hb' : b ∈ ev := (mem_cons.1 hb).resolve_left (Ne.symm hx)
      rw [cons_append, dropWhile_cons_of_pos (by simpa using hx)]
      exact ih hb'

/-- **Retired sinks survive** while the needed tiles fit into the pool together
with them and the sinks retired after them. -/
theorem build_keeps_retired (h : s.Inv cfg) (hw : WalkReturns cfg cam s)
    (hb : b ∈ retireOrder cfg cam s)
    (hfit : (demand cfg cam s).card + ((retireOrder cfg cam s).dropWhile (· ≠ b)).length
      ≤ s.poolSize) : b ∈ (build cfg false ord cam s).state.retiredSinks := by
  obtain ⟨flush, ev, -, hfl, hA, htight⟩ := engine_cases h hw ord
  have hkeys := hA.retired
  rw [freed_retiredSinks, reclaim_retireOrder hfl] at hkeys
  rw [hkeys, mem_append] at hb
  refine hb.resolve_left fun hev => ?_
  -- an eviction leaves no slot free, so needed and still retired tiles fill the pool
  have hfree := htight.2 (by rintro rfl; exact not_mem_nil hev)
  have hcard := hA.coherent.card_add_free
  rw [build_poolSize h, hfree, length_nil, Nat.add_zero] at hcard
  have hsub : (build cfg false ord cam s).state.blockToSlot.keys
      ⊆ (mark cfg cam s).needed ++ (build cfg false ord cam s).state.retiredSinks.keys := by
    intro c hc
    rw [mem_append]
    by_cases hcs : c ∈ (reclaim cfg (mark cfg cam s) flush).freed.blockToSlot
    · refine (reclaim_resident hcs).imp_right fun hc' => ?_
      rw [mem_def, reclaim_retireOrder hfl, hkeys] at hc'
      refine (mem_append.1 hc').resolve_left fun hx => ?_
      have hk := hA.kept c hcs
      rw [if_pos hx] at hk
      exact get?_eq_none_iff.1 hk hc
    · exact Or.inl ((ord.perm _).mem_iff.1 (hA.fresh c hcs hc))
  have hlen := ((build cfg false ord cam s).state.blockToSlot.nodup_keys.subperm hsub).length_le
  rw [length_append, length_mark_needed] at hlen
  have hdrop := length_le_dropWhile (build cfg false ord cam s).state.retiredSinks.keys hev
  rw [← hkeys] at hdrop
  omega

end KVarN.Tile
