import KVarN.Tile.Stages
import Mathlib.Data.Finset.Card

/-!
# Allocation, and the allocator invariant

The last stage of a build gives every needed tile a slot, evicting retired sinks
oldest first when none is free. `Allocated` says what it does and composes, so
that `allocate_spec` is an induction with no arithmetic in it.

With it the allocator invariant goes through every build, draft or engine,
returning or raising: `build_inv` is the step and `run_inv` the run. An engine
build exhausts the pool exactly when the batch needs more tiles than the pool has
slots, whatever is resident (`engine_exhausted_iff`).

## Main definitions

* `Allocated` — what an allocation leaves, and whom it evicts.
* `GroupState.Inv` — coherence, and retired sinks are full resident sinks.
* `Event`, `run` — sequences of builds and of `_ensure_pool` calls.
-/

namespace KVarN.Tile

open KVarN.Lib GroupState Dict

/-! ## The allocation stage -/

/-- What the allocation of the tiles `L` does from `s`, if it evicts `ev`: the
oldest retired sinks lose their slots, other slots stay, and either all of `L`
ends up resident or the pool is exhausted with nothing left to evict. -/
structure Allocated (N L : List ℕ) (s : GroupState) (fl ev : List (ℕ × ℕ))
    (R : BuildResult) : Prop where
  needed : R.needed = N
  flushed : R.flushed = fl ++ ev
  coherent : R.state.Coherent
  poolSize : R.state.poolSize = s.poolSize
  shape : R.state.blockToSlotT.shape = s.blockToSlotT.shape
  evicted : ∀ p ∈ ev, s.blockToSlot.get? p.1 = some p.2
  retired : s.retiredSinks.keys = ev.map Prod.fst ++ R.state.retiredSinks.keys
  kept : ∀ b ∈ s.blockToSlot, R.state.blockToSlot.get? b
    = if b ∈ ev.map Prod.fst then none else s.blockToSlot.get? b
  fresh : ∀ b ∉ s.blockToSlot, b ∈ R.state.blockToSlot → b ∈ L
  fill : ∀ b, R.state.blockFill.get? b
    = if b ∈ ev.map Prod.fst then none else s.blockFill.get? b
  sinks : ∀ b, b ∈ R.state.sinks ↔ b ∈ s.sinks ∧ b ∉ ev.map Prod.fst
  allocated : R.error = none → ∀ b ∈ L, b ∈ R.state.blockToSlot
  exhausted : R.error ≠ none → R.error = some .poolExhausted ∧ R.state.freeSlots = [] ∧
    R.state.retiredSinks.keys = [] ∧ ∃ b ∈ L, b ∉ R.state.blockToSlot

namespace Allocated

variable {N L L' : List ℕ} {s s' : GroupState} {fl ev ev' : List (ℕ × ℕ)} {R : BuildResult}

/-- Only retired sinks are evicted. -/
theorem mem_retired (h : Allocated N L s fl ev R) {b : ℕ} (hb : b ∈ ev.map Prod.fst) :
    b ∈ s.retiredSinks := by
  rw [mem_def, h.retired]
  exact List.mem_append_left _ hb

theorem kept_of_notMem (h : Allocated N L s fl ev R) {b : ℕ} (hb : b ∈ s.blockToSlot)
    (hr : b ∉ ev.map Prod.fst) : R.state.blockToSlot.get? b = s.blockToSlot.get? b := by
  rw [h.kept b hb, if_neg hr]

/-- Two allocations one after the other. -/
theorem trans (h : Allocated N L s fl ev ⟨s', N, fl ++ ev, none⟩)
    (h' : Allocated N L' s' (fl ++ ev) ev' R) (hL : ∀ b ∈ L ++ L', b ∉ s.retiredSinks) :
    Allocated N (L ++ L') s fl (ev ++ ev') R := by
  -- what stays resident through the first allocation is retired or not alike
  have hret : s.retiredSinks.keys = (ev ++ ev').map Prod.fst ++ R.state.retiredSinks.keys := by
    rw [h.retired, List.map_append, List.append_assoc]
    exact congrArg _ h'.retired
  have hev : ∀ b, b ∈ ev.map Prod.fst → b ∉ s'.blockToSlot := by
    intro b hb
    have hbs : b ∈ s.blockToSlot := by
      obtain ⟨p, hp, rfl⟩ := List.mem_map.1 hb
      exact mem_of_get? (h.evicted p hp)
    have hk := h.kept b hbs
    rw [if_pos hb] at hk
    exact get?_eq_none_iff.1 hk
  have hretL : ∀ b ∈ L ++ L', b ∉ (ev ++ ev').map Prod.fst := fun b hb hb' =>
    hL b hb (by rw [mem_def, hret]; exact List.mem_append_left _ hb')
  refine ⟨h'.needed, ?_, h'.coherent, h'.poolSize.trans h.poolSize, h'.shape.trans h.shape, ?_,
    hret, ?_, ?_, ?_, ?_, ?_, ?_⟩
  · rw [h'.flushed, List.append_assoc]
  · intro p hp
    rcases List.mem_append.1 hp with hp | hp
    · exact h.evicted p hp
    · -- an evicted tile of the second part was resident, and not new
      have hp' := h'.evicted p hp
      by_cases hs : p.1 ∈ s.blockToSlot
      · have hno : p.1 ∉ ev.map Prod.fst := fun hb => hev _ hb (mem_of_get? hp')
        rw [← h.kept_of_notMem hs hno]
        exact hp'
      · have hL' := h.fresh p.1 hs (mem_of_get? hp')
        exact absurd (List.mem_map_of_mem (List.mem_append_right _ hp))
          (hretL p.1 (List.mem_append_left _ hL'))
  · intro b hb
    rw [List.map_append]
    by_cases hb₁ : b ∈ ev.map Prod.fst
    · rw [if_pos (List.mem_append_left _ hb₁)]
      refine get?_eq_none_iff.2 fun hR => ?_
      have hbL := h'.fresh b (hev b hb₁) hR
      exact hretL b (List.mem_append_right _ hbL)
        (by rw [List.map_append]; exact List.mem_append_left _ hb₁)
    · have hk := h.kept_of_notMem hb hb₁
      have hb' : b ∈ s'.blockToSlot := by
        obtain ⟨v, hv⟩ := mem_iff_get?.1 hb
        exact mem_of_get? (hk.trans hv)
      have hk₁ : s'.blockToSlot.get? b = s.blockToSlot.get? b := hk
      rw [h'.kept b hb', hk₁]
      simp only [List.mem_append, hb₁, false_or]
  · intro b hb hR
    by_cases hb' : b ∈ s'.blockToSlot
    · exact List.mem_append_left _ (h.fresh b hb hb')
    · exact List.mem_append_right _ (h'.fresh b hb' hR)
  · intro b
    have h₁ := h.fill b
    rw [h'.fill b, show s'.blockFill.get? b = _ from h₁, List.map_append]
    by_cases hb : b ∈ ev.map Prod.fst <;> by_cases hb' : b ∈ ev'.map Prod.fst <;>
      simp [-List.mem_map, hb, hb']
  · intro b
    have h₁ := h.sinks b
    rw [h'.sinks b, show b ∈ s'.sinks ↔ _ from h₁, List.map_append, List.mem_append]
    tauto
  · intro he b hb
    rcases List.mem_append.1 hb with hbL | hb'
    · have hb' : b ∈ s'.blockToSlot := h.allocated rfl b hbL
      have hno : b ∉ ev'.map Prod.fst := fun hx => hretL b hb
        (by rw [List.map_append]; exact List.mem_append_right _ hx)
      obtain ⟨v, hv⟩ := mem_iff_get?.1 hb'
      exact mem_of_get? ((h'.kept_of_notMem hb' hno).trans hv)
    · exact h'.allocated he b hb'
  · intro he
    obtain ⟨h₁, h₂, h₃, b, hb, hR⟩ := h'.exhausted he
    exact ⟨h₁, h₂, h₃, b, List.mem_append_right _ hb, hR⟩

end Allocated

/-- Slots are freed by eviction only, and one at a time: after an eviction none
is free. -/
def Tight (s : GroupState) (ev : List (ℕ × ℕ)) (s' : GroupState) : Prop :=
  s'.freeSlots.length ≤ s.freeSlots.length ∧ (ev ≠ [] → s'.freeSlots = [])

variable {s : GroupState}

private theorem Tight.trans {s' s'' : GroupState} {ev ev' : List (ℕ × ℕ)} (h : Tight s ev s')
    (h' : Tight s' ev' s'') : Tight s (ev ++ ev') s'' := by
  refine ⟨h'.1.trans h.1, fun hne => ?_⟩
  by_cases he : ev' = []
  · have hev : ev ≠ [] := fun hx => hne (by rw [hx, he]; rfl)
    have hlen := h'.1
    rw [h.2 hev, List.length_nil, Nat.le_zero] at hlen
    exact List.length_eq_zero_iff.1 hlen
  · exact h'.2 he

/-- Making room evicts at most the oldest retired sink. -/
private theorem makeRoom_spec (N : List ℕ) (fl : List (ℕ × ℕ)) (h : s.Coherent)
    (hret : ∀ b ∈ s.retiredSinks, b ∈ s.blockToSlot) :
    Allocated N [] s fl (copies s (evictee s).toList)
        ⟨makeRoom s, N, fl ++ copies s (evictee s).toList, none⟩ ∧
      ((makeRoom s).freeSlots = [] → (makeRoom s).retiredSinks.keys = []) ∧
      Tight s (copies s (evictee s).toList)
        { makeRoom s with freeSlots := (makeRoom s).freeSlots.tail } := by
  cases he : evictee s with
  | none =>
    have hm : makeRoom s = s := by simp [makeRoom, he]
    rw [hm]
    refine ⟨⟨rfl, rfl, h, rfl, rfl, by simp [copies], by simp [copies], by simp [copies],
      fun b hb hb' => absurd hb' hb, by simp [copies], by simp [copies], by simp, by simp⟩, ?_, ?_⟩
    · intro hf
      simpa [evictee, hf] using he
    · exact ⟨by simp, by simp [copies]⟩
  | some old =>
    have hm : makeRoom s = s.evict old := by simp [makeRoom, he]
    have hkeys : ∃ rest, s.retiredSinks.keys = old :: rest := by
      unfold evictee at he
      split at he
      · exact List.head?_eq_some_iff.1 he
      · cases he
    obtain ⟨rest, hkeys⟩ := hkeys
    have hmem : old ∈ s.retiredSinks := by rw [mem_def, hkeys]; exact List.mem_cons_self
    obtain ⟨slot, hslot⟩ := mem_iff_get?.1 (hret old hmem)
    have hc : copies s (some old).toList = [(old, slot)] := by simp [copies, hslot]
    have hrest : (s.retiredSinks.pop old).keys = rest := by
      have hnd := s.retiredSinks.nodup_keys
      rw [hkeys] at hnd
      rw [keys_pop, hkeys, List.filter_cons_of_neg (by simp)]
      refine List.filter_eq_self.2 fun b hb => ?_
      have hne : b ≠ old := fun e => (List.nodup_cons.1 hnd).1 (e ▸ hb)
      simpa using hne
    rw [hm, hc]
    refine ⟨⟨rfl, rfl, h.evict old, rfl, ?_, ?_, ?_, ?_, ?_, ?_, ?_, by simp, by simp⟩, ?_, ?_⟩
    · simp [evict, dropSink]
    · simpa using hslot
    · simpa [evict, dropSink, hrest] using hkeys
    · intro b _
      simp [evict, dropSink, get?_pop]
    · intro b hb hb'
      exact absurd (mem_pop.1 hb').2 hb
    · intro b
      simp [evict, dropSink, get?_pop]
    · intro b
      simp [evict, dropSink, and_comm]
    · intro hf
      simp [evict, dropSink, hslot] at hf
    · have hfree : s.freeSlots = [] := by
        unfold evictee at he
        split at he
        · assumption
        · cases he
      exact ⟨by simp [evict, dropSink, hslot, hfree],
        fun _ => by simp [evict, dropSink, hslot, hfree]⟩

private theorem take_spec (N : List ℕ) {s' : GroupState} (fl : List (ℕ × ℕ)) {bid : ℕ}
    (h : s.Coherent) (hb : bid ∉ s.blockToSlot) (hlt : bid < s.blockToSlotT.shape)
    (ht : s.take bid = some s') : Allocated N [bid] s fl [] ⟨s', N, fl ++ [], none⟩ ∧
      s'.freeSlots = s.freeSlots.tail := by
  have hcoh := h.take hb hlt ht
  unfold take at ht
  split at ht
  · cases ht
  rename_i slot rest hfree
  obtain rfl := Option.some.inj ht
  refine ⟨⟨rfl, rfl, hcoh, rfl, by simp, by simp, by simp, ?_, ?_, by simp, by simp, by simp,
    by simp⟩, by rw [hfree]; rfl⟩
  · intro b hbs
    have hne : b ≠ bid := fun e => hb (e ▸ hbs)
    simp [get?_set, hne]
  · intro b hbs hbs'
    rcases mem_set.1 hbs' with rfl | hbs'
    · exact List.mem_singleton_self _
    · exact absurd hbs' hbs

private theorem take_eq_none {bid : ℕ} (h : s.take bid = none) : s.freeSlots = [] := by
  unfold take at h
  split at h
  · assumption
  · cases h

/-- **Allocation**, over a whole list of needed tiles. -/
theorem allocate_spec {N L : List ℕ} (s : GroupState) (fl : List (ℕ × ℕ)) (h : s.Coherent)
    (hret : ∀ b ∈ s.retiredSinks, b ∈ s.blockToSlot) (hL : ∀ b ∈ L, b ∉ s.retiredSinks)
    (hlt : ∀ b ∈ L, b < s.blockToSlotT.shape) :
    ∃ ev, Allocated N L s fl ev (allocate N L s fl) ∧ Tight s ev (allocate N L s fl).state := by
  induction L generalizing s fl with
  | nil =>
    exact ⟨[], ⟨rfl, by simp [allocate], h, rfl, rfl, by simp, rfl, by simp [allocate],
      fun b hb hb' => absurd hb' hb, by simp [allocate], by simp [allocate], by simp,
      by simp [allocate]⟩, le_rfl, fun hx => absurd rfl hx⟩
  | cons bid L ih =>
    have hL' : ∀ b ∈ L, b ∉ s.retiredSinks := fun b hb => hL b (List.mem_cons_of_mem _ hb)
    have hlt' : ∀ b ∈ L, b < s.blockToSlotT.shape := fun b hb => hlt b (List.mem_cons_of_mem _ hb)
    rw [allocate]
    by_cases hb : bid ∈ s.blockToSlot
    · rw [if_pos hb]
      obtain ⟨ev, hev, htight⟩ := ih s fl h hret hL' hlt'
      -- a resident tile is an allocation that changes nothing
      have hstay : Allocated N [bid] s fl [] ⟨s, N, fl ++ [], none⟩ :=
        ⟨rfl, rfl, h, rfl, rfl, by simp, by simp, by simp, fun b hb hb' => absurd hb' hb,
          by simp, by simp, by simpa using hb, by simp⟩
      exact ⟨_, hstay.trans (by simpa using hev) hL, htight⟩
    · rw [if_neg hb]
      obtain ⟨hroom, hempty, htight⟩ := makeRoom_spec N fl h hret
      have hb' : bid ∉ (makeRoom s).blockToSlot := fun hx =>
        List.not_mem_nil (hroom.fresh bid hb hx)
      split
      · rename_i ht
        have hfree := take_eq_none ht
        refine ⟨_, ⟨rfl, rfl, hroom.coherent, hroom.poolSize, hroom.shape, hroom.evicted,
          hroom.retired, hroom.kept, fun b hb hx => absurd (hroom.fresh b hb hx) List.not_mem_nil,
          hroom.fill, hroom.sinks, by simp, fun _ => ⟨rfl, hfree, hempty hfree, bid,
            List.mem_cons_self, hb'⟩⟩, ?_, fun _ => hfree⟩
        rw [hfree]
        exact Nat.zero_le _
      · rename_i s₂ ht
        obtain ⟨htake, htail⟩ := take_spec N (fl ++ copies s (evictee s).toList) hroom.coherent hb'
          (by rw [hroom.shape]; exact hlt bid List.mem_cons_self) ht
        have hto := hroom.trans htake (by simpa using hL bid List.mem_cons_self)
        -- the retired sinks left are still resident and still not needed
        have hsub : ∀ b ∈ s₂.retiredSinks, b ∈ s.retiredSinks ∧
            b ∉ (copies s (evictee s).toList ++ []).map Prod.fst := by
          intro b hb₂
          have hnd := s.retiredSinks.nodup_keys
          rw [hto.retired] at hnd
          refine ⟨?_, fun hx => (List.nodup_append.1 hnd).2.2 b hx b hb₂ rfl⟩
          rw [mem_def, hto.retired]
          exact List.mem_append_right _ hb₂
        have hret₂ : ∀ b ∈ s₂.retiredSinks, b ∈ s₂.blockToSlot := by
          intro b hb₂
          obtain ⟨hbs, hno⟩ := hsub b hb₂
          obtain ⟨v, hv⟩ := mem_iff_get?.1 (hret b hbs)
          exact mem_of_get? ((hto.kept_of_notMem (hret b hbs) hno).trans hv)
        have htight₂ : Tight s (copies s (evictee s).toList) s₂ := by
          unfold Tight
          rw [htail]
          exact htight
        obtain ⟨ev, hev, htight'⟩ := ih s₂ (fl ++ copies s (evictee s).toList) htake.coherent hret₂
          (fun b hbL hb₂ => hL' b hbL (hsub b hb₂).1)
          (fun b hbL => by rw [show s₂.blockToSlotT.shape = _ from hto.shape]; exact hlt' b hbL)
        exact ⟨_, Allocated.trans (by simpa using hto) (by simpa using hev)
          (by simpa using hL), htight₂.trans htight'⟩

/-! ## The invariant -/

/-- The allocator invariant: coherence, and a retired sink is a full sink that
holds a slot. -/
structure GroupState.Inv (cfg : Config) (s : GroupState) : Prop extends s.Coherent where
  retired_sink : ∀ b ∈ s.retiredSinks, b ∈ s.sinks
  retired_slot : ∀ b ∈ s.retiredSinks, b ∈ s.blockToSlot
  retired_full : ∀ b ∈ s.retiredSinks, s.Full cfg b

theorem inv_init (cfg : Config) (poolSize : ℕ) : (init poolSize).Inv cfg where
  toCoherent := coherent_init poolSize
  retired_sink := by simp [init]
  retired_slot := by simp [init]
  retired_full := by simp [init]

theorem GroupState.Inv.ensurePool {cfg : Config} (h : s.Inv cfg) (hint : ℕ) :
    (s.ensurePool hint).Inv cfg where
  toCoherent := h.toCoherent.ensurePool hint
  retired_sink := by simpa using h.retired_sink
  retired_slot := by simpa using h.retired_slot
  retired_full := by simpa [GroupState.Full] using h.retired_full

section BuildInv

variable {cfg : Config} {cam : AttnMetadata} {fast : Bool} {ord : SetOrder} {b : ℕ} {m : Marked}
  {r : Reclaim}

/-- A tile the step writes is needed, so a fill is recorded for needed tiles only. -/
theorem recordFill_of_notNeeded (hb : b ∉ (mark cfg cam s).needed) :
    (cam.recordFill cfg s.blockFill).get? b = s.blockFill.get? b :=
  recordFill_of_notMem _ fun w hw e =>
    hb (mem_mark_needed.2 (Or.inl (mem_written.2 (Or.inl ⟨w, hw, e⟩))))

theorem mark_full_of_notNeeded (hb : b ∉ (mark cfg cam s).needed) :
    (mark cfg cam s).state.Full cfg b ↔ s.Full cfg b := by
  simp only [GroupState.Full, mark_blockFill, recordFill_of_notNeeded hb]

theorem mark_inv (h : s.Inv cfg) : (mark cfg cam s).state.Inv cfg where
  toCoherent := mark_coherent h.toCoherent
  retired_sink := by
    intro b hb
    obtain ⟨hb, hn⟩ := mem_mark_retired.1 hb
    exact mem_mark_sinks.2 ⟨Or.inl (h.retired_sink b hb), fun hx => hn hx.2.1⟩
  retired_slot := by
    intro b hb
    rw [mark_blockToSlot]
    exact h.retired_slot b (mem_mark_retired.1 hb).1
  retired_full := by
    intro b hb
    obtain ⟨hb, hn⟩ := mem_mark_retired.1 hb
    exact (mark_full_of_notNeeded hn).2 (h.retired_full b hb)

/-- What the lifecycle stages can do: nothing in a gated draft build, otherwise a
walk-back and a reclaim. -/
theorem lifecycle_cases (h : lifecycle cfg fast cam m = .ok r) : r = ⟨m.state, [], []⟩ ∨
      ∃ flush, walkBack cfg m.state cam.rows [] = .ok flush ∧ r = reclaim cfg m flush := by
  unfold lifecycle at h
  split at h
  · exact Or.inl (Except.ok.inj h).symm
  split at h
  · cases h
  · rename_i flush hw
    exact Or.inr ⟨flush, hw, (Except.ok.inj h).symm⟩

/-- The tiles queued by the walk-back are resident and no sinks. -/
theorem walkBack_resident {flush : List ℕ}
    (h : walkBack cfg m.state cam.rows [] = .ok flush) (hb : b ∈ flush) :
    b ∈ m.state.blockToSlot ∧ b ∉ m.state.sinks := by
  rcases (walkBack_spec h).2 b hb with hb | ⟨r, -, hw⟩
  · exact absurd hb List.not_mem_nil
  · exact hw.resident

theorem reclaim_inv {flush : List ℕ} (h : m.state.Inv cfg)
    (hw : walkBack cfg m.state cam.rows [] = .ok flush) : (reclaim cfg m flush).freed.Inv cfg := by
  -- a retired tile is full and labelled, so neither stage releases it
  have key : ∀ b ∈ (reclaim cfg m flush).state.retiredSinks,
      b ∈ m.state.sinks ∧ m.state.Full cfg b ∧ b ∈ m.state.blockToSlot := by
    intro b hb
    rcases mem_reclaim_retired.1 hb with hb | ⟨hr, hf, hs⟩
    · exact ⟨h.retired_sink b hb, h.retired_full b hb, h.retired_slot b hb⟩
    · exact ⟨hs, hf, (mem_reclaimable.1 hr).1⟩
  have keep : ∀ b ∈ (reclaim cfg m flush).state.retiredSinks,
      b ∉ (reclaim cfg m flush).flush ∧ b ∉ (reclaim cfg m flush).discard := by
    intro b hb
    obtain ⟨hs, hf, -⟩ := key b hb
    refine ⟨fun hx => ?_, fun hx => (mem_reclaim_discard.1 hx).2 hf⟩
    rcases mem_reclaim_flush.1 hx with hx | hx
    · exact (walkBack_resident hw hx).2 hs
    · exact hx.2.2 hs
  refine ⟨freed_coherent _ (reclaim_coherent h.toCoherent), ?_, ?_, ?_⟩ <;> intro b hb <;>
    rw [freed_retiredSinks] at hb
  · rw [freed_sinks]
    exact mem_reclaim_sinks.2 ⟨(key b hb).1, fun hx => hx.2 (key b hb).2.1⟩
  · rw [mem_freed]
    exact ⟨by simpa using (key b hb).2.2, keep b hb⟩
  · have hno : b ∉ (reclaim cfg m flush).flush ++ (reclaim cfg m flush).discard := by
      rw [List.mem_append, not_or]; exact keep b hb
    unfold GroupState.Full
    rw [freed_fill, if_neg hno, reclaim_blockFill]
    exact (key b hb).2.1

theorem lifecycle_inv (h : m.state.Inv cfg)
    (hr : lifecycle cfg fast cam m = .ok r) : r.freed.Inv cfg := by
  rcases lifecycle_cases hr with rfl | ⟨flush, hw, rfl⟩
  · exact h
  · exact reclaim_inv h hw

/-- No needed tile is retired after the lifecycle stages. -/
theorem lifecycle_retired_notNeeded (hr : lifecycle cfg fast cam (mark cfg cam s) = .ok r)
    (hb : b ∈ r.freed.retiredSinks) : b ∉ (mark cfg cam s).needed := by
  rcases lifecycle_cases hr with rfl | ⟨flush, -, rfl⟩
  · exact (mem_mark_retired.1 hb).2
  · rw [freed_retiredSinks] at hb
    rcases mem_reclaim_retired.1 hb with hb | hb
    · exact (mem_mark_retired.1 hb).2
    · exact (mem_reclaimable.1 hb.1).2.1

theorem lifecycle_shape (hr : lifecycle cfg fast cam m = .ok r) :
    r.freed.blockToSlotT.shape = m.state.blockToSlotT.shape := by
  rcases lifecycle_cases hr with rfl | ⟨flush, -, rfl⟩
  · rfl
  · rw [freed_shape, reclaim_blockToSlotT]

/-- **What a build can do**: stop in the walk-back with the marked state, or run
through to the allocation. -/
theorem build_cases (fast : Bool) (ord : SetOrder) (cam : AttnMetadata) (h : s.Inv cfg) :
    (build cfg fast ord cam s =
        ⟨(mark cfg cam s).state, (mark cfg cam s).needed, [], some .indexError⟩ ∧
      walkBack cfg (mark cfg cam s).state cam.rows [] = .error .indexError) ∨
    ∃ r ev, lifecycle cfg fast cam (mark cfg cam s) = .ok r ∧
      Allocated (mark cfg cam s).needed (ord.order (mark cfg cam s).needed) r.freed
        (copies r.state r.flush) ev (build cfg fast ord cam s) ∧
      Tight r.freed ev (build cfg fast ord cam s).state := by
  cases hr : lifecycle cfg fast cam (mark cfg cam s) with
  | error e =>
    unfold lifecycle at hr
    split at hr
    · cases hr
    split at hr
    · rename_i e' hw
      obtain rfl := Except.error.inj hr
      cases e' with
      | indexError => exact Or.inl ⟨by simp [build, lifecycle, *], hw⟩
      | poolExhausted => exact absurd hw (walkBack_ne_exhausted _ _ _ _)
    · cases hr
  | ok r =>
    have hmem : ∀ b ∈ ord.order (mark cfg cam s).needed, b ∈ (mark cfg cam s).needed :=
      fun b hb => (ord.perm _).mem_iff.1 hb
    have hinv := lifecycle_inv (mark_inv h) hr
    obtain ⟨ev, hev⟩ := allocate_spec r.freed (copies r.state r.flush) hinv.toCoherent
      (N := (mark cfg cam s).needed) hinv.retired_slot
      (fun b hb hx => lifecycle_retired_notNeeded hr hx (hmem b hb))
      (fun b hb => by
        rw [lifecycle_shape hr]
        exact mark_needed_lt h.toCoherent (hmem b hb))
    refine Or.inr ⟨r, ev, rfl, ?_⟩
    have e : build cfg fast ord cam s = allocate (mark cfg cam s).needed
        (ord.order (mark cfg cam s).needed) r.freed (copies r.state r.flush) := by
      simp [build, hr]
    rw [e]
    exact hev

/-- **Step**: every build keeps the invariant, also when it raises. -/
theorem build_inv (fast : Bool) (ord : SetOrder) (cam : AttnMetadata) (h : s.Inv cfg) :
    (build cfg fast ord cam s).state.Inv cfg := by
  rcases build_cases fast ord cam h with ⟨e, -⟩ | ⟨r, ev, hr, hA, -⟩
  · rw [e]; exact mark_inv h
  · have hinv := lifecycle_inv (mark_inv h) hr
    have hnd := r.freed.retiredSinks.nodup_keys
    rw [hA.retired] at hnd
    have hsub : ∀ b ∈ (build cfg fast ord cam s).state.retiredSinks,
        b ∈ r.freed.retiredSinks ∧ b ∉ ev.map Prod.fst := by
      intro b hb
      refine ⟨?_, fun hx => (List.nodup_append.1 hnd).2.2 b hx b hb rfl⟩
      rw [mem_def, hA.retired]
      exact List.mem_append_right _ hb
    refine ⟨hA.coherent, ?_, ?_, ?_⟩ <;> intro b hb <;> obtain ⟨hb, hno⟩ := hsub b hb
    · exact (hA.sinks b).2 ⟨hinv.retired_sink b hb, hno⟩
    · have hs := hinv.retired_slot b hb
      obtain ⟨v, hv⟩ := mem_iff_get?.1 hs
      exact mem_of_get? ((hA.kept_of_notMem hs hno).trans hv)
    · unfold GroupState.Full
      rw [hA.fill, if_neg hno]
      exact hinv.retired_full b hb

end BuildInv

/-! ## Runs -/

/-- A call that changes the allocator of a group: a build of the engine or of the
draft model, or an `_ensure_pool` from a forward pass. -/
inductive Event
  | build (fastBuild : Bool) (ord : SetOrder) (cam : AttnMetadata)
  | ensurePool (numBlocksHint : ℕ)

/-- The allocator after a call, also one that raised. -/
def Event.apply (cfg : Config) (s : GroupState) : Event → GroupState
  | .build fast ord cam => (Tile.build cfg fast ord cam s).state
  | .ensurePool hint => s.ensurePool hint

def run (cfg : Config) (s : GroupState) (evs : List Event) : GroupState :=
  evs.foldl (Event.apply cfg) s

variable {cfg : Config}

theorem Event.apply_inv (h : s.Inv cfg) (e : Event) : (e.apply cfg s).Inv cfg := by
  cases e with
  | build fast ord cam => exact build_inv fast ord cam h
  | ensurePool hint => exact h.ensurePool hint

/-- **Run**: the invariant holds after every sequence of calls. -/
theorem run_inv (h : s.Inv cfg) (evs : List Event) : (run cfg s evs).Inv cfg := by
  induction evs generalizing s with
  | nil => exact h
  | cons e evs ih => exact ih (e.apply_inv h)

theorem build_poolSize (h : s.Inv cfg) (fast : Bool) (ord : SetOrder) (cam : AttnMetadata) :
    (build cfg fast ord cam s).state.poolSize = s.poolSize := by
  rcases build_cases fast ord cam h with ⟨e, -⟩ | ⟨r, ev, hr, hA, -⟩
  · rw [e]; exact mark_poolSize cfg cam s
  · rw [hA.poolSize, freed_poolSize]
    rcases lifecycle_cases hr with rfl | ⟨flush, -, rfl⟩
    · exact mark_poolSize cfg cam s
    · rw [reclaim_poolSize, mark_poolSize]

theorem run_poolSize (h : s.Inv cfg) (evs : List Event) :
    (run cfg s evs).poolSize = s.poolSize := by
  induction evs generalizing s with
  | nil => rfl
  | cons e evs ih =>
    refine (ih (e.apply_inv h)).trans ?_
    cases e with
    | build fast ord cam => exact build_poolSize h fast ord cam
    | ensurePool hint => exact ensurePool_poolSize s hint

section Returned

variable {cam : AttnMetadata} {fast : Bool} {ord : SetOrder}

/-- A build that returns leaves every needed tile resident. -/
theorem build_needed_resident (h : s.Inv cfg) (he : (build cfg fast ord cam s).error = none)
    {b : ℕ} (hb : b ∈ (mark cfg cam s).needed) :
    b ∈ (build cfg fast ord cam s).state.blockToSlot := by
  rcases build_cases fast ord cam h with ⟨e, -⟩ | ⟨r, ev, hr, hA, -⟩
  · rw [e] at he; cases he
  · exact hA.allocated he b ((ord.perm _).mem_iff.2 hb)

theorem build_needed (h : s.Inv cfg) :
    (build cfg fast ord cam s).needed = (mark cfg cam s).needed := by
  rcases build_cases fast ord cam h with ⟨e, -⟩ | ⟨r, ev, hr, hA, -⟩
  · rw [e]
  · exact hA.needed

/-- No tile the batch needs is retired after the build. -/
theorem build_retired_notNeeded (h : s.Inv cfg) {b : ℕ}
    (hb : b ∈ (build cfg fast ord cam s).state.retiredSinks) : b ∉ (mark cfg cam s).needed := by
  rcases build_cases fast ord cam h with ⟨e, -⟩ | ⟨r, ev, hr, hA, -⟩
  · rw [e] at hb; exact (mem_mark_retired.1 hb).2
  · refine lifecycle_retired_notNeeded hr ?_
    rw [mem_def, hA.retired]
    exact List.mem_append_right _ hb

theorem slotTile_needed {sm : ℤ} (hs : sm ∈ cam.slotMapping) (hpos : 0 ≤ sm) :
    (sm / (cfg.group : ℤ)).toNat ∈ (mark cfg cam s).needed := by
  refine mem_mark_needed.2 (Or.inl (mem_written.2 (Or.inr ?_)))
  exact List.mem_map.2 ⟨sm, List.mem_filter.2 ⟨hs, by simpa using hpos⟩, rfl⟩

end Returned

/-- **The slot allocator invariant.** After any sequence of engine builds, draft
builds and `_ensure_pool` calls, raising or not, no two tile rows share a slot and
the used and the free slots partition `range(pool_size)`. After any further build
that returns, the mirrors show the host containers, every retired sink is a
resident sink that the batch does not need, and the tile of every slot-mapping
entry holds a slot. -/
theorem allocator_run_invariant (cfg : Config) (poolSize : ℕ) (evs : List Event) :
    (∀ a b slot, (run cfg (.init poolSize) evs).blockToSlot.get? a = some slot →
      (run cfg (.init poolSize) evs).blockToSlot.get? b = some slot → a = b) ∧
    ((run cfg (.init poolSize) evs).blockToSlot.values ++
      (run cfg (.init poolSize) evs).freeSlots).Perm (List.range poolSize) ∧
    ∀ fast ord cam, (build cfg fast ord cam (run cfg (.init poolSize) evs)).error = none →
      let R := build cfg fast ord cam (run cfg (.init poolSize) evs)
      (∀ bid ∈ R.state.blockToSlot, bid < R.state.blockToSlotT.shape) ∧
      (∀ bid < R.state.blockToSlotT.shape, R.state.blockToSlotT.data bid = R.state.slotEntry bid) ∧
      (∀ bid ∈ R.state.sinks, bid < R.state.isSinkT.shape) ∧
      (∀ bid < R.state.isSinkT.shape, (R.state.isSinkT.data bid = true ↔ bid ∈ R.state.sinks)) ∧
      (∀ bid ∈ R.state.retiredSinks,
        bid ∈ R.state.sinks ∧ bid ∈ R.state.blockToSlot ∧ bid ∉ R.needed) ∧
      (∀ sm ∈ cam.slotMapping, 0 ≤ sm → (sm / (cfg.group : ℤ)).toNat ∈ R.state.blockToSlot) := by
  have hinv := run_inv (inv_init cfg poolSize) evs
  refine ⟨fun a b slot => hinv.slot_inj, ?_, ?_⟩
  · have hp := hinv.partition
    rwa [run_poolSize (inv_init cfg poolSize) evs] at hp
  intro fast ord cam he R
  have hR : R.state.Inv cfg := build_inv fast ord cam hinv
  refine ⟨hR.keys_lt, hR.slot_mirror, fun bid hb => ?_, fun bid hb => ?_, fun bid hb => ?_, ?_⟩
  · rw [hR.shape_eq]; exact hR.sinks_lt bid hb
  · rw [hR.sink_mirror bid hb, decide_eq_true_iff]
  · refine ⟨hR.retired_sink bid hb, hR.retired_slot bid hb, ?_⟩
    rw [build_needed hinv]
    exact build_retired_notNeeded hinv hb
  · intro sm hs hpos
    exact build_needed_resident hinv he (slotTile_needed hs hpos)

/-- A deployment with tiles and blocks of 64 tokens. -/
def g64 : Config := ⟨64, 64, 256, 4096, .full, by decide, by decide, by decide⟩

/-- A decode of a request of 130 tokens, and two query tokens of another on both sides of a
block boundary. -/
def twoRequests : AttnMetadata :=
  ⟨[130, 65], some [0, 1, 3], [[3, 4, 7], [5, 6, 0]], 3, [449, 383, 384], by decide⟩

/-- An engine build, a growth of the pool and a draft build. -/
def twoBuilds : List Event :=
  [.build false .insertion twoRequests, .ensurePool 256, .build true .insertion twoRequests]

def nextBuild : BuildResult :=
  build g64 false .insertion twoRequests (run g64 (.init 10) twoBuilds)

/-- In the next build all query tokens have a slot. -/
theorem allocator_run_invariant_twoRequests : 7 ∈ nextBuild.state.blockToSlot ∧
    5 ∈ nextBuild.state.blockToSlot ∧ 6 ∈ nextBuild.state.blockToSlot := by
  obtain ⟨-, -, -, -, -, h⟩ := (allocator_run_invariant g64 10 twoBuilds).2.2 false .insertion
    twoRequests (by decide +kernel)
  exact ⟨h 449 (by decide) (by decide), h 383 (by decide) (by decide),
    h 384 (by decide) (by decide)⟩

/-! ## Exhaustion -/

section Exhaustion

variable {cam : AttnMetadata} {ord : SetOrder}

/-- The tiles a batch needs: what it writes, and the first tiles that are sinks. -/
def demand (cfg : Config) (cam : AttnMetadata) (s : GroupState) : Finset ℕ :=
  (cam.written cfg).toFinset ∪ {b ∈ (cam.firstTiles cfg).toFinset | b ∈ s.sinks}

theorem length_mark_needed : (mark cfg cam s).needed.length = (demand cfg cam s).card := by
  rw [← List.toFinset_card_of_nodup (nodup_mark_needed cfg cam s)]
  congr 1
  ext b
  simp [demand, mem_mark_needed]

/-- An engine build keeps nothing resident but needed tiles and retired sinks. -/
theorem reclaim_resident {m : Marked} {flush : List ℕ} {b : ℕ}
    (hb : b ∈ (reclaim cfg m flush).freed.blockToSlot) :
    b ∈ m.needed ∨ b ∈ (reclaim cfg m flush).state.retiredSinks := by
  obtain ⟨hd, hf, hdis⟩ := (mem_freed b _).1 hb
  rw [reclaim_blockToSlot] at hd
  by_cases hn : b ∈ m.needed
  · exact Or.inl hn
  · have hq : b ∉ flush := fun hx => hf (mem_reclaim_flush.2 (Or.inl hx))
    have hr : b ∈ reclaimable m flush := mem_reclaimable.2 ⟨hd, hn, hq⟩
    have hfull : m.state.Full cfg b := by
      by_contra hx
      exact hdis (mem_reclaim_discard.2 ⟨hr, hx⟩)
    have hsink : b ∈ m.state.sinks := by
      by_contra hx
      exact hf (mem_reclaim_flush.2 (Or.inr ⟨hr, hfull, hx⟩))
    exact Or.inr (mem_reclaim_retired.2 (Or.inr ⟨hr, hfull, hsink⟩))

theorem lifecycle_engine {m : Marked} {r : Reclaim} (h : lifecycle cfg false cam m = .ok r) :
    ∃ flush, walkBack cfg m.state cam.rows [] = .ok flush ∧ r = reclaim cfg m flush := by
  unfold lifecycle at h
  rw [if_neg (by simp)] at h
  split at h
  · cases h
  · rename_i flush hw
    exact ⟨flush, hw, (Except.ok.inj h).symm⟩

/-- **Exhaustion**: an engine build raises "pool exhausted" exactly when the batch
needs more tiles than the pool has slots. What was resident before is no matter:
it is flushed, discarded or evicted first. -/
theorem engine_exhausted_iff (h : s.Inv cfg)
    (hw : ∃ flush, walkBack cfg (mark cfg cam s).state cam.rows [] = .ok flush) :
    (build cfg false ord cam s).error ≠ none ↔ s.poolSize < (demand cfg cam s).card := by
  rcases build_cases false ord cam h with ⟨-, he⟩ | ⟨r, ev, hr, hA, -⟩
  · obtain ⟨flush, hw⟩ := hw
    rw [he] at hw
    cases hw
  obtain ⟨flush, -, rfl⟩ := lifecycle_engine hr
  have hpool := build_poolSize h false ord cam
  have hcard := hA.coherent.card_add_free
  rw [hpool] at hcard
  rw [← length_mark_needed]
  have hnd := (build cfg false ord cam s).state.blockToSlot.nodup_keys
  constructor
  · -- all slots are taken, by needed tiles other than the one that got none
    intro he
    obtain ⟨-, hfree, hret, b, hb, hnb⟩ := hA.exhausted he
    have hbN := (ord.perm _).mem_iff.1 hb
    have hsub : (build cfg false ord cam s).state.blockToSlot.keys
        ⊆ (mark cfg cam s).needed.erase b := by
      intro c hc
      have hcb : c ≠ b := fun e => hnb (e ▸ hc)
      refine (List.mem_erase_of_ne hcb).2 ?_
      by_cases hcs : c ∈ (reclaim cfg (mark cfg cam s) flush).freed.blockToSlot
      · rcases reclaim_resident hcs with hc' | hc'
        · exact hc'
        · have hmem : c ∈ ev.map Prod.fst := by
            have hk := hA.retired
            rw [hret, List.append_nil, freed_retiredSinks] at hk
            rw [← hk]
            exact hc'
          have hnone := hA.kept c hcs
          rw [if_pos hmem] at hnone
          exact absurd hc (get?_eq_none_iff.1 hnone)
      · exact (ord.perm _).mem_iff.1 (hA.fresh c hcs hc)
    have hlen := (hnd.subperm hsub).length_le
    rw [List.length_erase_of_mem hbN] at hlen
    have hpos : 0 < (mark cfg cam s).needed.length := List.length_pos_of_mem hbN
    rw [hfree, List.length_nil, Nat.add_zero] at hcard
    omega
  · -- a build that returns holds all needed tiles in the pool
    intro hlt he
    have hsub : (mark cfg cam s).needed ⊆ (build cfg false ord cam s).state.blockToSlot.keys :=
      fun b hb => build_needed_resident h he hb
    have hlen := ((nodup_mark_needed cfg cam s).subperm hsub).length_le
    omega

end Exhaustion

end KVarN.Tile
