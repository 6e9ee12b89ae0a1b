import KVarN.Tile.Properties

/-!
# Flushing under prefix sharing

Which tiles a build flushes, told by the history of the writes. `Stamped` says
that whatever the engine relies on was written during the current assignment of
its block: the tokens of the live requests and of the prefix cache, and all of a
tile that is recorded as full.

The KV-cache manager registers a block in the prefix cache when its last tokens
are scheduled, not when they are written. A request admitted on such a block in
the same step has it below its committed boundary, and its walk-back flushes the
tile that another request is about to write (`flush_before_write`). Where no
request's walk-back meets such a tile, flushes are safe (`flush_safe`).

## Main definitions

* `Stamps` — which position a token's write marks as written.
* `Stamped` — the invariant.
-/

namespace KVarN.Tile

open KVarN.Lib Engine Skip GroupState List

variable {V R : Type} {cfg : Config} {quant : (Fin cfg.group → V) → R}

/-- All positions of the tile were written during one assignment of its block. -/
def Memory.Filled (cfg : Config) (m : Memory V R) (τ : ℕ) : Prop :=
  ∃ n, ∀ o < cfg.group, m.stamp τ o = some n

/-- What the engine relies on was written. -/
structure Stamped (cfg : Config) (g : GroupState) (m : Memory V R) (epoch : ℕ → ℕ)
    (live : List (Req V)) (done : List (Done V)) : Prop where
  claim : ∀ τ f, Claim cfg live done τ f → ∀ o < cfg.group, ∀ v, f o = some v →
    m.stamp τ o = some (epoch (τ / cfg.tpr))
  full : ∀ τ, g.Full cfg τ → m.Filled cfg τ

/-! ## Stamps under writes -/

/-- The write marks offset `o` of the tile. -/
def Stamps (cfg : Config) (g : GroupState) (w : ℤ × V) (τ o : ℕ) : Prop :=
  0 ≤ w.1 ∧ (w.1 / (cfg.group : ℤ)).toNat = τ ∧ (w.1 % (cfg.group : ℤ)).toNat = o ∧
    τ ∈ g.blockToSlot

/-- A write marks the tile whose slot it goes to. -/
private theorem stamps_iff_hits {g : GroupState} (hg : g.Coherent) {w : ℤ × V} {τ o slot : ℕ}
    (hget : g.blockToSlot.get? τ = some slot) : Stamps cfg g w τ o ↔ Hits cfg g w slot o := by
  constructor
  · rintro ⟨hpos, rfl, rfl, -⟩
    exact ⟨hpos, hget, rfl⟩
  · rintro ⟨hpos, hslot, rfl⟩
    obtain rfl := hg.slot_inj hget hslot
    exact ⟨hpos, rfl, rfl, Dict.mem_of_get? hget⟩

private theorem data_nonneg_iff {g : GroupState} (hg : g.Coherent) (τ : ℕ) :
    (τ < g.blockToSlotT.shape ∧ 0 ≤ g.blockToSlotT.data τ) ↔ τ ∈ g.blockToSlot := by
  constructor
  · rintro ⟨hlt, hdata⟩
    by_contra hd
    rw [hg.slot_mirror _ hlt, slotEntry_of_notMem hd] at hdata
    exact absurd hdata (by decide)
  · intro hd
    obtain ⟨slot, hget⟩ := Dict.mem_iff_get?.1 hd
    have hlt := hg.keys_lt _ hd
    refine ⟨hlt, ?_⟩
    rw [hg.slot_mirror _ hlt, slotEntry_of_get? hget]
    exact Int.natCast_nonneg slot

private theorem scatterStore_stamp (cfg : Config) {g : GroupState} (hg : g.Coherent)
    (epoch : ℕ → ℕ) (m : Memory V R) (w : ℤ × V) (τ o : ℕ) :
    (Stamps cfg g w τ o → (scatterStore cfg g epoch m w).stamp τ o = some (epoch (τ / cfg.tpr))) ∧
    (¬Stamps cfg g w τ o → (scatterStore cfg g epoch m w).stamp τ o = m.stamp τ o) := by
  unfold scatterStore
  dsimp only
  constructor
  · rintro ⟨hpos, rfl, rfl, hd⟩
    rw [if_pos ⟨hpos, (data_nonneg_iff hg _).2 hd⟩]
    exact if_pos ⟨rfl, rfl⟩
  · intro hno
    split
    · rename_i hcond
      dsimp only
      rw [if_neg]
      rintro ⟨rfl, rfl⟩
      exact hno ⟨hcond.1, rfl, rfl, (data_nonneg_iff hg _).1 hcond.2⟩
    · rfl

/-- Writes mark what they hit with the current assignment and nothing else. -/
private theorem foldl_scatter_stamp (cfg : Config) {g : GroupState} (hg : g.Coherent)
    (epoch : ℕ → ℕ) (ws : List (ℤ × V)) (m : Memory V R) (τ o : ℕ) :
    ((∃ w ∈ ws, Stamps cfg g w τ o) →
      (ws.foldl (scatterStore cfg g epoch) m).stamp τ o = some (epoch (τ / cfg.tpr))) ∧
    ((¬∃ w ∈ ws, Stamps cfg g w τ o) →
      (ws.foldl (scatterStore cfg g epoch) m).stamp τ o = m.stamp τ o) := by
  induction ws generalizing m with
  | nil => simp
  | cons w ws ih =>
    obtain ⟨hhit, hmiss⟩ := ih (scatterStore cfg g epoch m w)
    have hw := scatterStore_stamp cfg hg epoch m w τ o
    rw [foldl_cons]
    simp only [mem_cons, exists_eq_or_imp]
    by_cases hrest : ∃ w' ∈ ws, Stamps cfg g w' τ o
    · exact ⟨fun _ => hhit hrest, fun hno => absurd (Or.inr hrest) hno⟩
    · refine ⟨fun hex => ?_, fun hno => ?_⟩
      · rw [hmiss hrest, hw.1 (hex.resolve_right hrest)]
      · rw [hmiss hrest, hw.2 fun hx => hno (Or.inl hx)]

/-! ## The invariant -/

section Plan

variable {e : Engine V R} {pl : Plan V} {τ : ℕ} {f : ℕ → Option V}

/-- The step hands out no block that is still claimed. -/
private theorem claim_not_fresh (hv : pl.Valid cfg e)
    (hc : Claim cfg pl.settled (e.nextDone cfg pl) τ f) : τ / cfg.tpr ∉ pl.fresh := by
  cases hc with
  | live r hr t ht hτ hf =>
    obtain ⟨p, hp, rfl⟩ := mem_map.1 hr
    obtain ⟨b, hb, rfl⟩ := tile_eq_some.1 hτ
    rw [(mul_add_div_mod b (tile_mod_lt cfg t)).1]
    exact hv.fresh_new p hp b (mem_of_getElem? hb)
  | done d hd k hk hτ hf =>
    rw [← hτ, (mul_add_div_mod _ hk).1]
    exact (mem_nextDone.1 hd).2

/-- What is claimed when the step starts was written in the assignment that the step keeps. -/
private theorem claim_stamp (hv : pl.Valid cfg e)
    (h : Stamped cfg e.group e.mem e.epoch e.live e.done)
    (hc : Claim cfg pl.settled (e.nextDone cfg pl) τ f) {o : ℕ} (ho : o < cfg.group) {v : V}
    (hval : f o = some v) : e.mem.stamp τ o = some (e.nextEpoch pl (τ / cfg.tpr)) := by
  obtain ⟨f', hc', himp⟩ := settled_claim_weakens hv hc.settled
  rw [h.claim τ f' hc' o ho v (himp o ho v hval), nextEpoch, if_neg (claim_not_fresh hv hc)]

/-- **Flushed tiles are written, and not written again now.** -/
theorem flushed_filled (hI : e.group.Inv cfg) (hL : Layout cfg e.live e.done)
    (h : Stamped cfg e.group e.mem e.epoch e.live e.done) (hv : pl.Valid cfg e)
    (hsafe : pl.FlushSafe cfg e) {x : ℕ × ℕ} (hx : x ∈ (e.build cfg pl).flushed) :
    e.mem.Filled cfg x.1 ∧ ¬pl.Writes cfg x.1 := by
  rcases build_flushed_cases hI (walkReturns_cam hv _) (mem_map_of_mem hx) with hr | ⟨hn, hfull⟩
  · have hw : x.1 ∉ (pl.cam cfg).written cfg := fun hw => hsafe x.1 hw hr
    refine ⟨?_, fun hx => hw ((mem_written_cam hv).2 hx)⟩
    obtain ⟨s, hs, t, -, ht, hτ, -⟩ := (reached_cam hv).1 hr
    have hlen : (t + 1) * cfg.group ≤ s.vals.length := by
      rw [length_vals]
      exact ((Nat.le_div_iff_mul_le cfg.group_pos).1 (Nat.succ_le_of_lt ht)).trans
        (Nat.le_add_right _ _)
    have hpos : t * cfg.group < s.req.vals.length :=
      lt_of_lt_of_le (Nat.mul_lt_mul_of_pos_right t.lt_succ_self cfg.group_pos) hlen
    have hreq : s.req ∈ pl.batch.map Sched.req ++ pl.omitted.map fun p => p.1.settle p.2 :=
      mem_append_left _ (mem_map_of_mem hs)
    rcases claim_cases hL hv (.live s.req hreq t hpos hτ rfl) with
      ⟨w, hwb, t', hwr, hτ', -⟩ | ⟨f', hc, hf, -⟩
    · exact absurd ((mem_written_cam hv).2 ⟨w, hwb, t', hwr, hτ'⟩) hw
    · refine ⟨e.nextEpoch pl (x.1 / cfg.tpr), fun o ho => ?_⟩
      obtain ⟨v, hval⟩ := complete_of_le hlen o ho
      exact claim_stamp hv h hc ho ((hf o ho).symm.trans hval)
  · exact ⟨h.full x.1 hfull, fun hx =>
      hn (mem_mark_needed.2 (Or.inl ((mem_written_cam hv).2 hx)))⟩

section Return

variable (hI : e.group.Inv cfg) (hv : pl.Valid cfg e) (he : (e.build cfg pl).error = none)

include hI in
private theorem atWrite_coherent : (e.atWrite cfg pl).Coherent :=
  ((build_inv false pl.order (pl.cam cfg) hI).ensurePool _).toCoherent

include hI hv in
/-- Only tiles that a request of the batch writes are marked. -/
private theorem writes_of_stamps {w : ℤ × V} (hw : w ∈ pl.writes cfg) {o : ℕ}
    (hst : Stamps cfg (e.atWrite cfg pl) w τ o) : pl.Writes cfg τ := by
  obtain ⟨slot, hget⟩ := Dict.mem_iff_get?.1 hst.2.2.2
  have hg : (e.atWrite cfg pl).Coherent := atWrite_coherent hI
  obtain ⟨s, hs, p, τ', -, -, hwr, hτ', hget', -⟩ :=
    hits_cases hv hw ((stamps_iff_hits hg hget).1 hst)
  obtain rfl := hg.slot_inj hget hget'
  exact ⟨s, hs, _, hwr, hτ'⟩

include hI hv he in
/-- Every query token is marked. -/
private theorem stamps_of_pos {s : Sched V} (hs : s ∈ pl.batch) {t o : ℕ} (ho : o < cfg.group)
    (hp : s.committed ≤ t * cfg.group + o) {v : V} (hval : tileVals cfg s.vals t o = some v)
    (hτ : cfg.tile s.row t = some τ) :
    ∃ w ∈ pl.writes cfg, Stamps cfg (e.atWrite cfg pl) w τ o := by
  obtain ⟨hdiv, hmod⟩ := mul_add_div_mod t ho
  have hlt : t * cfg.group + o < s.vals.length := (List.getElem?_eq_some_iff.1 hval).1
  have hwr : s.Writes cfg t := ⟨by rw [← hdiv]; exact Nat.div_le_div_right hp, by omega⟩
  have hres : τ ∈ (e.atWrite cfg pl).blockToSlot := by
    rw [Ready.atWrite_blockToSlot]
    exact build_needed_resident hI he
      (mem_mark_needed.2 (Or.inl ((mem_written_cam hv).2 ⟨s, hs, t, hwr, hτ⟩)))
  obtain ⟨slot, hget⟩ := Dict.mem_iff_get?.1 hres
  obtain ⟨w, hw, hh⟩ := hits_of_pos hs hp hval (by rw [hdiv]; exact hτ) hget
  rw [hmod] at hh
  exact ⟨w, hw, (stamps_iff_hits (atWrite_coherent hI) hget).2 hh⟩

include hI in
/-- What the writes of the step mark. -/
private theorem memAfter_stamp (τ o : ℕ) :
    ((∃ w ∈ pl.writes cfg, Stamps cfg (e.atWrite cfg pl) w τ o) →
      (e.memAfter cfg quant pl).stamp τ o = some (e.nextEpoch pl (τ / cfg.tpr))) ∧
    ((¬∃ w ∈ pl.writes cfg, Stamps cfg (e.atWrite cfg pl) w τ o) →
      (e.memAfter cfg quant pl).stamp τ o = e.mem.stamp τ o) := by
  have hg : (e.atWrite cfg pl).Coherent := atWrite_coherent hI
  rw [← show (e.flushed cfg quant pl).stamp = e.mem.stamp from (batchedFlush_pool _ _).2]
  exact foldl_scatter_stamp cfg hg (e.nextEpoch pl) (pl.writes cfg) _ τ o

include hI in
/-- A mark of the current assignment stays. -/
private theorem memAfter_stamp_keep {o : ℕ}
    (hst : e.mem.stamp τ o = some (e.nextEpoch pl (τ / cfg.tpr))) :
    (e.memAfter cfg quant pl).stamp τ o = some (e.nextEpoch pl (τ / cfg.tpr)) := by
  by_cases hx : ∃ w ∈ pl.writes cfg, Stamps cfg (e.atWrite cfg pl) w τ o
  · exact (memAfter_stamp hI τ o).1 hx
  · rw [(memAfter_stamp hI τ o).2 hx, hst]

include hI hv he in
/-- What is claimed after the writes is marked. -/
private theorem return_claim (hL : Layout cfg e.live e.done)
    (h : Stamped cfg e.group e.mem e.epoch e.live e.done)
    (hc : Claim cfg (pl.batch.map Sched.req ++ pl.omitted.map fun p => p.1.settle p.2)
      (e.nextDone cfg pl) τ f) {o : ℕ} (ho : o < cfg.group) {v : V} (hval : f o = some v) :
    (e.memAfter cfg quant pl).stamp τ o = some (e.nextEpoch pl (τ / cfg.tpr)) := by
  rcases claim_cases hL hv hc with ⟨w, hw, t, hwr, hτ, hf⟩ | ⟨f', hc', hf, -⟩
  · rw [hf o ho] at hval
    by_cases hp : w.committed ≤ t * cfg.group + o
    · exact (memAfter_stamp hI τ o).1 (stamps_of_pos hI hv he hw ho hp hval hτ)
    · rw [not_le] at hp
      refine memAfter_stamp_keep hI ?_
      cases hprior : w.origin.prior with
      | none =>
        have := Nat.mul_le_mul_right cfg.group hwr.1
        have := committed_aligned hv hw hprior
        omega
      | some p =>
        obtain ⟨-, hc'⟩ := prior_claim hL hv hw hprior (by omega) hτ
        unfold tileVals Sched.vals at hval
        rw [getElem?_append_left hp] at hval
        exact claim_stamp hv h hc' ho hval
  · exact memAfter_stamp_keep hI (claim_stamp hv h hc' ho ((hf o ho).symm.trans hval))

include hI hv in
/-- A tile recorded as full after the build is filled by a request of the batch, or
was recorded before and is not written. -/
private theorem build_full_cases (hfull : (e.build cfg pl).state.Full cfg τ) :
    (∃ s ∈ pl.batch, ∃ t, cfg.tile s.row t = some τ ∧ (t + 1) * cfg.group ≤ s.vals.length) ∨
    (e.group.Full cfg τ ∧ ¬pl.Writes cfg τ) := by
  have hgp := cfg.group_pos
  unfold GroupState.Full at hfull
  obtain ⟨n, hn, hge⟩ : ∃ n, (e.build cfg pl).state.blockFill.get? τ = some n ∧ cfg.group ≤ n := by
    cases hn : (e.build cfg pl).state.blockFill.get? τ with
    | none => rw [hn, Option.getD_none] at hfull; omega
    | some n => exact ⟨n, rfl, by rwa [hn] at hfull⟩
  have hrec := build_fill_some hI (walkReturns_cam hv _) hn
  by_cases hw : ∃ w ∈ (pl.cam cfg).tileWrites cfg, w.1 = τ
  · obtain ⟨n', hn', s, hs, t, hτ, hval⟩ : ∃ n',
        ((pl.cam cfg).recordFill cfg e.group.blockFill).get? τ = some n' ∧ ∃ s ∈ pl.batch, ∃ t,
          cfg.tile s.row t = some τ ∧
          n' = min s.vals.length ((t + 1) * cfg.group) - t * cfg.group := by
      refine recordFill_of_mem e.group.blockFill hw fun w hwm hwτ => ?_
      obtain ⟨s, hs, t, -, hτ, hval⟩ := (mem_tileWrites_cam hv).1 hwm
      exact ⟨s, hs, t, hwτ ▸ hτ, hval⟩
    obtain rfl : n = n' := Option.some.inj (hrec.symm.trans hn')
    rw [Nat.succ_mul] at hval
    exact Or.inl ⟨s, hs, t, hτ, by rw [Nat.succ_mul]; omega⟩
  · rw [recordFill_of_notMem _ fun w hw' hwτ => hw ⟨w, hw', hwτ⟩] at hrec
    refine Or.inr ⟨by unfold GroupState.Full; rwa [hrec], ?_⟩
    rintro ⟨s, hs, t, hwr, hτ⟩
    exact hw ⟨(τ, _), (mem_tileWrites_cam hv).2 ⟨s, hs, t, hwr, hτ, rfl⟩, rfl⟩

include hI hv he in
/-- **Step**: the invariant holds after the writes. -/
theorem return_stamped (hL : Layout cfg e.live e.done)
    (h : Stamped cfg e.group e.mem e.epoch e.live e.done) :
    Stamped cfg (e.atWrite cfg pl) (e.memAfter cfg quant pl) (e.nextEpoch pl)
      (pl.batch.map Sched.req ++ pl.omitted.map fun p => p.1.settle p.2) (e.nextDone cfg pl) where
  claim := fun τ f hc o ho v hval => return_claim hI hv he hL h hc ho hval
  full := by
    intro τ hfull
    have hfull' : (e.build cfg pl).state.Full cfg τ := by
      simpa [GroupState.Full, atWrite] using hfull
    rcases build_full_cases hI hv hfull' with ⟨s, hs, t, hτ, hlen⟩ | ⟨hold, hw⟩
    · have hreq : s.req ∈ pl.batch.map Sched.req ++ pl.omitted.map fun p => p.1.settle p.2 :=
        mem_append_left _ (mem_map_of_mem hs)
      have hpos : t * cfg.group < s.req.vals.length :=
        lt_of_lt_of_le (Nat.mul_lt_mul_of_pos_right t.lt_succ_self cfg.group_pos) hlen
      refine ⟨e.nextEpoch pl (τ / cfg.tpr), fun o ho => ?_⟩
      obtain ⟨v, hval⟩ := complete_of_le hlen o ho
      exact return_claim hI hv he hL h (.live s.req hreq t hpos hτ rfl) ho hval
    · obtain ⟨n, hn⟩ := h.full τ hold
      refine ⟨n, fun o ho => ?_⟩
      rw [(memAfter_stamp hI τ o).2, hn o ho]
      rintro ⟨w, hwm, hst⟩
      exact hw (writes_of_stamps hI hv hwm hst)

end Return

/-! ## Runs -/

theorem start_stamped (cfg : Config) (poolSize : ℕ) (mem : Memory V R) (epoch : ℕ → ℕ) :
    Stamped cfg (init poolSize) mem epoch [] [] where
  claim := fun _ _ h => by cases h <;> rename_i h _ _ _ _ <;> exact absurd h not_mem_nil
  full := fun _ h => absurd h (not_le.2 cfg.group_pos)

/-- The invariant holds along every run whose builds return. -/
theorem reach_stamped {poolSize : ℕ} {P : Engine V R → Plan V → Prop}
    (hP : ∀ e pl, pl.Valid cfg e → P e pl → (e.build cfg pl).error = none)
    (h : Reach cfg quant poolSize P e) :
    Layout cfg e.live e.done ∧ Stamped cfg e.group e.mem e.epoch e.live e.done := by
  induction h with
  | start mem => exact ⟨layout_nil, start_stamped cfg poolSize _ _⟩
  | step hr hv hp ih =>
    rw [step_returned quant (hP _ _ hv hp)]
    exact ⟨step_layout ih.1 hv, return_stamped (reach_inv hr).1 hv (hP _ _ hv hp) ih.1 ih.2⟩

end Plan

/-- **Flush safety.** In runs of builds that return, with requests left out and
blocks adopted in the step that completes them, as long as every step keeps
`BoundarySafe`: a tile that is flushed was written completely before the build, and
the step does not write it. -/
theorem flush_safe (poolSize : ℕ) {e : Engine V R} {pl : Plan V} (hreach : Reach cfg quant poolSize
      (fun e pl => (e.build cfg pl).error = none ∧ pl.BoundarySafe cfg e) e)
    (hv : pl.Valid cfg e) (hsafe : pl.BoundarySafe cfg e) {x : ℕ × ℕ}
    (hx : x ∈ (e.build cfg pl).flushed) : e.mem.Filled cfg x.1 ∧ ¬pl.Writes cfg x.1 := by
  obtain ⟨hL, hS⟩ := reach_stamped (fun _ _ _ hp => hp.1) hreach
  exact flushed_filled (reach_inv hreach).1 hL hS hv (hsafe.flushSafe hv) hx

namespace Share

/-- The first request after 96 tokens, in its second block. -/
def req : Req ℕ := ⟨[1, 2], 96, tokens 0 96⟩

/-- It completes the block and goes on. -/
def go : Sched ℕ := ⟨.running req 96, [3], tokens 96 64, 160⟩

/-- The first step. -/
def prompt : Plan ℕ := ⟨[⟨.admitted [] [], [1, 2], tokens 0 96, 96⟩], [], [], 64, .insertion⟩

/-- The second request has the first one's two blocks as its prefix. -/
def share : Plan ℕ :=
  ⟨[go, ⟨.admitted [1, 2] (tokens 0 128), [4], [7], 129⟩], [], [], 64, .insertion⟩

/-- The first request goes on alone. -/
def alone : Plan ℕ := ⟨[go], [], [], 64, .insertion⟩

/-- Its second step complete, it goes on. -/
def next : Plan ℕ :=
  ⟨[⟨.running ⟨[1, 2, 3], 160, tokens 0 160⟩ 160, [], tokens 160 1, 161⟩], [], [], 64, .insertion⟩

/-- The engine after the first step. -/
def engine : Engine ℕ (List ℕ) := (start 128 zeroed).step g64 ofFn prompt

end Share

open Share

/-- A request of 96 tokens schedules 64 more while a second request is admitted with
a prefix of 128 tokens. The second tile is flushed in that step with its second half
unwritten, and is written in it. -/
theorem flush_before_write : prompt.Valid g64 (start 128 zeroed) ∧ share.Valid g64 engine ∧
    (engine.build g64 share).error = none ∧ (∃ x ∈ (engine.build g64 share).flushed, x.1 = 2) ∧
    engine.mem.stamp 2 32 = none ∧ 2 ∈ (share.cam g64).written g64 := by
  refine ⟨?_, ?_, ?_, ?_, ?_, ?_⟩ <;> decide +kernel

/-- Without the second request the tile is flushed one step later, complete. -/
theorem flush_safe_alone : (2, 0) ∈ ((engine.step g64 ofFn alone).build g64 next).flushed ∧
    (engine.step g64 ofFn alone).mem.Filled g64 2 ∧ ¬next.Writes g64 2 := by
  have hsafe : ∀ (pl : Plan ℕ) (e : Engine ℕ (List ℕ)), Layout g64 e.live e.done →
      pl.Valid g64 e → (∀ s ∈ pl.batch, s.origin.adopted = []) → pl.BoundarySafe g64 e :=
    fun pl e hL hv hno => (Plan.earlier_of_no_adoption hno).boundarySafe hL hv
  have hv₀ : prompt.Valid g64 (start 128 zeroed) := by decide +kernel
  have hv₁ : alone.Valid g64 engine := by decide +kernel
  have hv₂ : next.Valid g64 (engine.step g64 ofFn alone) := by
    decide +kernel
  have h₁ : Reach g64 ofFn 128 (fun e pl => (e.build g64 pl).error = none ∧
      pl.BoundarySafe g64 e) engine :=
    .step (.start zeroed) hv₀ ⟨by decide +kernel, hsafe _ _ layout_nil hv₀ (by decide +kernel)⟩
  have hL₁ := (reach_stamped (fun _ _ _ hp => hp.1) h₁).1
  have h₂ : Reach g64 ofFn 128 (fun e pl => (e.build g64 pl).error = none ∧
      pl.BoundarySafe g64 e) (engine.step g64 ofFn alone) :=
    .step h₁ hv₁ ⟨by decide +kernel, hsafe _ _ hL₁ hv₁ (by decide +kernel)⟩
  have hL₂ := (reach_stamped (fun _ _ _ hp => hp.1) h₂).1
  have hx : (2, 0) ∈ ((engine.step g64 ofFn alone).build g64 next).flushed := by
    decide +kernel
  have h := flush_safe 128 h₂ hv₂ (hsafe _ _ hL₂ hv₂ (by decide +kernel)) hx
  exact ⟨hx, h⟩

end KVarN.Tile
