import KVarN.Tile.ReadThrough

/-!
# Writes, and runs

After a build that returns, every query token goes to the slot of its tile. The
writers of a step are told apart by `writer_unique`, so a token's value is the
last one stored at its place, and nothing else is disturbed: `return_sound`.

`reach_sound` is the invariant over runs, and `select_holds` what it means for
the kernels: the source they select holds the token.

## Main definitions

* `Hits` — where a token's write goes.
* `Engine.Ok` — the invariants between two steps.
* `Holds` — what a kernel's source has to hold.
-/

namespace KVarN.Tile

open KVarN.Lib GroupState KVarN.Tile.Sched Engine List

variable {V R : Type} {cfg : Config} {quant : (Fin cfg.group → V) → R}

section Plan

variable {e : Engine V R} {pl : Plan V}

/-! ## The writes -/

/-- The write goes to offset `o` of the slot. -/
def Hits (cfg : Config) (g : GroupState) (w : ℤ × V) (slot o : ℕ) : Prop :=
  0 ≤ w.1 ∧ g.blockToSlot.get? (w.1 / (cfg.group : ℤ)).toNat = some slot ∧
    (w.1 % (cfg.group : ℤ)).toNat = o

variable {g : GroupState} {slot o τ t : ℕ} {s : Sched V}

private theorem scatterStore_pool (hg : g.Coherent) (epoch : ℕ → ℕ)
    (m : Memory V R) (w : ℤ × V) (slot o : ℕ) :
    (Hits cfg g w slot o → (scatterStore cfg g epoch m w).pool slot o = w.2) ∧
    (¬Hits cfg g w slot o → (scatterStore cfg g epoch m w).pool slot o = m.pool slot o) := by
  unfold scatterStore
  constructor
  · rintro ⟨hpos, hget, ho⟩
    have hlt := hg.keys_lt _ (Dict.mem_of_get? hget)
    have hdata := hg.slot_mirror _ hlt
    rw [slotEntry_of_get? hget] at hdata
    simp [hpos, hlt, hdata, ho]
  · intro hno
    dsimp only
    split
    · rename_i hcond
      obtain ⟨hpos, hlt, hdata⟩ := hcond
      dsimp only
      rw [if_neg]
      rintro ⟨hs, ho⟩
      refine hno ⟨hpos, ?_, ho.symm⟩
      rw [hg.slot_mirror _ hlt] at hdata hs
      cases hget : g.blockToSlot.get? (w.1 / (cfg.group : ℤ)).toNat with
      | none =>
        rw [slotEntry_of_notMem (Dict.get?_eq_none_iff.1 hget)] at hdata
        exact absurd hdata (by decide)
      | some slot' =>
        rw [slotEntry_of_get? hget, Int.toNat_natCast] at hs
        rw [hs]
    · rfl

private theorem foldl_scatter_miss (hg : g.Coherent) (epoch : ℕ → ℕ)
    (ws : List (ℤ × V)) (m : Memory V R) (h : ∀ w ∈ ws, ¬Hits cfg g w slot o) :
    (ws.foldl (scatterStore cfg g epoch) m).pool slot o = m.pool slot o := by
  induction ws generalizing m with
  | nil => rfl
  | cons w ws ih =>
    rw [foldl_cons, ih _ fun w' hw' => h w' (mem_cons_of_mem _ hw')]
    exact (scatterStore_pool hg epoch m w slot o).2 (h w mem_cons_self)

private theorem foldl_scatter_hit (hg : g.Coherent) (epoch : ℕ → ℕ)
    (ws : List (ℤ × V)) (m : Memory V R) {v : V}
    (hex : ∃ w ∈ ws, Hits cfg g w slot o) (hv : ∀ w ∈ ws, Hits cfg g w slot o → w.2 = v) :
    (ws.foldl (scatterStore cfg g epoch) m).pool slot o = v := by
  induction ws generalizing m with
  | nil => simp at hex
  | cons w ws ih =>
    rw [foldl_cons]
    have hv' : ∀ w' ∈ ws, Hits cfg g w' slot o → w'.2 = v :=
      fun w' hw' => hv w' (mem_cons_of_mem _ hw')
    by_cases hrest : ∃ w' ∈ ws, Hits cfg g w' slot o
    · exact ih _ hrest hv'
    · -- no later token goes there, so `w` is the one
      have hw : Hits cfg g w slot o := by
        obtain ⟨w', hw', hh⟩ := hex
        rcases mem_cons.1 hw' with rfl | hw'
        · exact hh
        · exact absurd ⟨w', hw', hh⟩ hrest
      rw [foldl_scatter_miss hg epoch ws _ fun w' hw' hh => hrest ⟨w', hw', hh⟩,
        (scatterStore_pool hg epoch m w slot o).1 hw]
      exact hv w mem_cons_self hw

/-- Which token a write that hits a slot carries. -/
theorem hits_cases (hv : pl.Valid cfg e) {w : ℤ × V}
    (hw : w ∈ pl.writes cfg) (hh : Hits cfg g w slot o) :
    ∃ s ∈ pl.batch, ∃ p τ, s.committed ≤ p ∧ s.vals[p]? = some w.2 ∧
      s.Writes cfg (p / cfg.group) ∧ cfg.tile s.row (p / cfg.group) = some τ ∧
      g.blockToSlot.get? τ = some slot ∧ p % cfg.group = o := by
  obtain ⟨s, hs, hw⟩ := mem_flatMap.1 hw
  obtain ⟨i, hq, hw⟩ := mem_writes.1 hw
  have hi : i < s.query.length := (List.getElem?_eq_some_iff.1 hq).1
  have hwr : s.Writes cfg _ := writes_pos hi
  obtain ⟨τ, hτ⟩ := tile_exists (tile_lt_of_pos hwr.2 (hv.room s hs))
  obtain ⟨-, hget, hpos⟩ := hh
  obtain ⟨-, htile, hoff⟩ := slotOf_spec hτ
  rw [hw, htile] at hget
  rw [hw, hoff] at hpos
  refine ⟨s, hs, s.committed + i, τ, Nat.le_add_right _ _, ?_, hwr, hτ, hget, hpos⟩
  unfold vals committed
  rw [getElem?_append_right (Nat.le_add_right _ _), Nat.add_sub_cancel_left]
  exact hq

/-- Every query token is written to its tile's slot. -/
theorem hits_of_pos
    (hs : s ∈ pl.batch) {p : ℕ} {v : V} (hp : s.committed ≤ p) (hval : s.vals[p]? = some v)
    (hτ : cfg.tile s.row (p / cfg.group) = some τ) (hget : g.blockToSlot.get? τ = some slot) :
    ∃ w ∈ pl.writes cfg, Hits cfg g w slot (p % cfg.group) := by
  obtain ⟨hpos, htile, hoff⟩ := slotOf_spec hτ
  refine ⟨(slotOf cfg s.row p, v), mem_flatMap.2 ⟨s, hs, mem_writes.2
    ⟨p - s.committed, ?_, ?_⟩⟩, hpos, by rw [htile]; exact hget, hoff⟩
  · unfold vals at hval
    rw [getElem?_append_right hp] at hval
    exact hval
  · rw [Nat.add_sub_cancel' hp]

/-! ## Claims after the writes -/

theorem context_tile (ht : t < s.committed / cfg.group)
    (ho : o < cfg.group) : tileVals cfg s.vals t o = tileVals cfg s.origin.context t o := by
  have h : (t + 1) * cfg.group ≤ s.committed :=
    (Nat.le_div_iff_mul_le cfg.group_pos).1 (Nat.succ_le_of_lt ht)
  rw [Nat.succ_mul] at h
  unfold tileVals vals
  exact getElem?_append_left (by unfold committed at h; omega)

/-- An admitted request starts at a tile boundary. -/
theorem committed_aligned (hv : pl.Valid cfg e) (hs : s ∈ pl.batch)
    (hp : s.origin.prior = none) : s.committed / cfg.group * cfg.group = s.committed := by
  rw [hv.aligned s hs hp, ← cfg.tpr_mul_group, ← Nat.mul_assoc, Nat.mul_div_cancel _ cfg.group_pos]

section

variable (hL : Layout cfg e.live e.done) (hv : pl.Valid cfg e)

include hL hv

/-- The context of a continued request was claimed before the step. -/
theorem prior_claim (hs : s ∈ pl.batch) {p : Req V × ℕ} (hp : s.origin.prior = some p)
    (ht : t * cfg.group < s.committed) (hτ : cfg.tile s.row t = some τ) :
    cfg.tile p.1.row t = some τ ∧
      Claim cfg pl.settled (e.nextDone cfg pl) τ (tileVals cfg s.origin.context t) := by
  have hmem := mem_continued hs hp
  have hacc := (hv.accepted p (mem_append_left _ (mem_append_left _ hmem))).2
  have hlen := length_settle hacc
  have hlt : t * cfg.group < (p.1.settle p.2).vals.length := by
    rw [hlen, ← committed_prior hv hs hp]
    exact ht
  obtain ⟨hkept, hctx⟩ : s.origin.kept = p.1.row ∧ s.origin.context = (p.1.settle p.2).vals := by
    cases ho : s.origin with
    | running r acc => rw [ho] at hp; obtain rfl := Option.some.inj hp; exact ⟨rfl, rfl⟩
    | admitted bs vs => rw [ho] at hp; cases hp
  have hblk : t / cfg.tpr < p.1.row.length :=
    tile_lt_of_pos hlt ((settled_layout hL hv).room _ (prior_settled hs hp))
  have hτ' : cfg.tile p.1.row t = some τ := by
    rw [← hτ]
    unfold Config.tile row
    rw [hkept, getElem?_append_left hblk]
  refine ⟨hτ', ?_⟩
  rw [hctx]
  exact .live _ (mem_map_of_mem (mem_append_left pl.omitted hmem)) t hlt hτ' rfl

/-- A context tile of a continued request was claimed before the step, and the
step does not write it. -/
private theorem continued_claim (hs : s ∈ pl.batch) {p : Req V × ℕ} (hp : s.origin.prior = some p)
    (ht : t < s.committed / cfg.group) (hτ : cfg.tile s.row t = some τ) :
    ∃ f', Claim cfg pl.settled (e.nextDone cfg pl) τ f' ∧
      (∀ o < cfg.group, tileVals cfg s.vals t o = f' o) ∧ τ ∉ (pl.cam cfg).written cfg := by
  have hlt : t * cfg.group < s.committed := by
    have h := (Nat.le_div_iff_mul_le cfg.group_pos).1 (Nat.succ_le_of_lt ht)
    rw [Nat.succ_mul] at h
    have hg := cfg.group_pos
    omega
  obtain ⟨hτ', hc⟩ := prior_claim hL hv hs hp hlt hτ
  refine ⟨_, hc, fun o ho => context_tile ht ho, fun hw => ?_⟩
  exact absurd (continued_written hL hv hs hp hτ' hw).1 (not_le.2 ht)

/-- **Where a claim comes from after the writes**: a request wrote the tile in this
step, or the claim stood before the step and the tile is not written. -/
theorem claim_cases {f : ℕ → Option V}
    (hc : Claim cfg (pl.batch.map req ++ pl.omitted.map fun p => p.1.settle p.2)
      (e.nextDone cfg pl) τ f) : (∃ w ∈ pl.batch, ∃ t, w.Writes cfg t ∧ cfg.tile w.row t = some τ ∧
      ∀ o < cfg.group, f o = tileVals cfg w.vals t o) ∨
    (∃ f', Claim cfg pl.settled (e.nextDone cfg pl) τ f' ∧ (∀ o < cfg.group, f o = f' o) ∧
      τ ∉ (pl.cam cfg).written cfg) := by
  cases hc with
  | live r hr t ht hτ hf =>
    subst hf
    rcases mem_append.1 hr with hr | hr
    · obtain ⟨s, hs, rfl⟩ := mem_map.1 hr
      by_cases hwr : s.committed / cfg.group ≤ t
      · exact Or.inl ⟨s, hs, t, ⟨hwr, ht⟩, hτ, fun _ _ => rfl⟩
      rw [not_le] at hwr
      cases hp : s.origin.prior with
      | some p => exact Or.inr (continued_claim hL hv hs hp hwr hτ)
      | none =>
        -- the tile lies in an adopted block
        have hj : t / cfg.tpr < s.origin.adopted.length := by
          have hal := hv.aligned s hs hp
          rw [Nat.div_lt_iff_lt_mul cfg.tpr_pos]
          rw [hal, ← cfg.tpr_mul_group, ← Nat.mul_assoc, Nat.mul_div_cancel _ cfg.group_pos] at hwr
          exact hwr
        obtain ⟨b, hb, hbτ⟩ := tile_eq_some.1 hτ
        have hctx : ∀ vals : List V, slice cfg.blockSize vals (t / cfg.tpr)
              = slice cfg.blockSize s.origin.context (t / cfg.tpr) →
            ∀ o < cfg.group, tileVals cfg s.vals t o = tileVals cfg vals t o := by
          intro vals hsl o ho
          rw [context_tile hwr ho, ← tile_split cfg t,
            ← tileVals_slice (tile_mod_lt cfg t) ho, ← hsl,
            tileVals_slice (tile_mod_lt cfg t) ho, tile_split]
        have hadopt : s.origin.adopted[t / cfg.tpr]? = some b := by
          rcases row_cases hb with (⟨hk, -⟩ | ⟨p, hp', -⟩) | h
          · cases ho : s.origin with
            | running r acc => rw [ho] at hp; cases hp
            | admitted bs vs => rw [ho] at hk hj; exact absurd hk (not_le.2 hj)
          · rw [hp] at hp'; cases hp'
          · exact h.2
        rcases hv.adopts s hs _ hj with ⟨d, hd, hdb, hidx, hvals, hfr⟩ | ⟨w, hw, hwb, hwc, hws, hsl⟩
        · obtain rfl : d.block = b := Option.some.inj (hdb.symm.trans hadopt)
          have hdn : d ∈ e.nextDone cfg pl := mem_nextDone.2 ⟨hd, hfr⟩
          refine Or.inr ⟨_, .done d hdn (t % cfg.tpr) (tile_mod_lt cfg t) hbτ rfl,
            fun o ho => ?_, cached_unwritten hL hv hdn (tile_mod_lt cfg t) hbτ⟩
          rw [hvals, tileVals_slice (tile_mod_lt cfg t) ho, tile_split]
          exact context_tile hwr ho
        · -- completed in this step by `w`, which writes the tile or has it from before
          have hwrow : w.row[t / cfg.tpr]? = some b := hwb.symm.trans hadopt
          have hwτ : cfg.tile w.row t = some τ := tile_eq_some.2 ⟨b, hwrow, hbτ⟩
          have hlen : t * cfg.group < w.vals.length := by
            have h₁ := (hv.sure_le w hw).2
            have h₂ : t * cfg.group < (t / cfg.tpr + 1) * cfg.blockSize := by
              rw [← cfg.tpr_mul_group, ← Nat.mul_assoc]
              refine Nat.mul_lt_mul_of_pos_right ?_ cfg.group_pos
              rw [Nat.mul_comm]
              exact Nat.lt_mul_div_succ t cfg.tpr_pos
            omega
          by_cases hwr' : w.committed / cfg.group ≤ t
          · exact Or.inl ⟨w, hw, t, ⟨hwr', hlen⟩, hwτ, hctx w.vals hsl⟩
          · rcases progress_owns hv hw hwrow hwc with ⟨hk, -⟩ | ⟨p, hp', -⟩
            · cases hpw : w.origin.prior with
              | some p =>
                obtain ⟨f', hc', hf', hun⟩ :=
                  continued_claim hL hv hw hpw (not_le.1 hwr') hwτ
                exact Or.inr ⟨f', hc', fun o ho => (hctx w.vals hsl o ho).trans (hf' o ho), hun⟩
              | none =>
                -- an admitted request has no new block below its boundary
                exfalso
                have hal := hv.aligned w hw hpw
                rw [hal, ← cfg.tpr_mul_group, ← Nat.mul_assoc,
                  Nat.mul_div_cancel _ cfg.group_pos, not_le,
                  ← Nat.div_lt_iff_lt_mul cfg.tpr_pos] at hwr'
                cases ho : w.origin with
                | running r acc => rw [ho] at hpw; cases hpw
                | admitted bs vs => rw [ho] at hk hwr'; exact absurd hk (not_le.2 hwr')
            · obtain ⟨f', hc', hf', hun⟩ :=
                continued_claim hL hv hw hp' (not_le.1 hwr') hwτ
              exact Or.inr ⟨f', hc', fun o ho => (hctx w.vals hsl o ho).trans (hf' o ho), hun⟩
    · obtain ⟨q, hq, rfl⟩ := mem_map.1 hr
      refine Or.inr ⟨_, .live _ (mem_map_of_mem (mem_append_right _ hq)) t ht hτ rfl,
        fun _ _ => rfl, omitted_unwritten hL hv hq hτ⟩
  | done d hd k hk hτ hf =>
    exact Or.inr ⟨f, .done d hd k hk hτ hf, fun _ _ => rfl, cached_unwritten hL hv hd hk hτ⟩

end

/-! ## A step that returns -/

private theorem foldl_scatter_int4 (g : GroupState) (epoch : ℕ → ℕ) (ws : List (ℤ × V))
    (m : Memory V R) : (ws.foldl (scatterStore cfg g epoch) m).int4 = m.int4 := by
  induction ws generalizing m with
  | nil => rfl
  | cons w ws ih =>
    rw [foldl_cons, ih]
    unfold scatterStore
    dsimp only
    split <;> rfl

namespace Ready

variable {f : ℕ → Option V}

theorem atWrite_inv (h : Ready cfg quant e pl) : (e.atWrite cfg pl).Inv cfg :=
  (build_inv false pl.order (pl.cam cfg) h.inv).ensurePool _

theorem atWrite_blockToSlot : (e.atWrite cfg pl).blockToSlot = (e.build cfg pl).state.blockToSlot :=
  ensurePool_blockToSlot _ _

variable {w : Sched V}

section

variable (h : Ready cfg quant e pl)

include h

private theorem written_resident (he : (e.build cfg pl).error = none) (hw : w ∈ pl.batch)
    (hwr : w.Writes cfg t) (hτ : cfg.tile w.row t = some τ) :
    τ ∈ (e.build cfg pl).state.blockToSlot :=
  build_needed_resident h.inv he
    (mem_mark_needed.2 (Or.inl ((mem_written_cam h.valid).2 ⟨w, hw, t, hwr, hτ⟩)))

/-- A write that hits the slot of a tile some request writes is of that request,
and of the position it falls on. -/
private theorem hit_position (hw : w ∈ pl.batch)
    (hwr : w.Writes cfg t) (hτ : cfg.tile w.row t = some τ)
    (hget : (e.atWrite cfg pl).blockToSlot.get? τ = some slot) {x : ℤ × V}
    (hx : x ∈ pl.writes cfg) (hh : Hits cfg (e.atWrite cfg pl) x slot o) :
    w.committed ≤ t * cfg.group + o ∧ w.vals[t * cfg.group + o]? = some x.2 := by
  obtain ⟨s, hs, p, τ', hp, hval, hwr', hτ', hget', ho⟩ := hits_cases h.valid hx hh
  obtain rfl := h.atWrite_inv.slot_inj hget hget'
  obtain ⟨rfl, ht⟩ := writer_unique h.layout h.valid hw hs hwr hτ hwr' hτ'
  have hpos : p = t * cfg.group + o := by
    rw [← ho, ht, Nat.mul_comm]
    exact (Nat.div_add_mod p cfg.group).symm
  rw [← hpos]
  exact ⟨hp, hval⟩

/-- The values of a tile that a request of the batch writes. -/
private theorem stored_written (he : (e.build cfg pl).error = none)
    (hw : w ∈ pl.batch) (hwr : w.Writes cfg t) (hτ : cfg.tile w.row t = some τ) :
    Stored cfg quant (e.atWrite cfg pl) (e.memAfter cfg quant pl) τ (tileVals cfg w.vals t) := by
  have hcoh := h.atWrite_inv.toCoherent
  have hres := h.written_resident he hw hwr hτ
  rw [← atWrite_blockToSlot] at hres
  obtain ⟨slot, hget⟩ := Dict.mem_iff_get?.1 hres
  rw [stored_resident hget]
  intro o ho v hval
  obtain ⟨hdiv, hmod⟩ := mul_add_div_mod t ho
  by_cases hp : w.committed ≤ t * cfg.group + o
  · obtain ⟨x, hx, hh⟩ := hits_of_pos hw hp hval (by rw [hdiv]; exact hτ) hget
    rw [hmod] at hh
    refine foldl_scatter_hit hcoh _ _ _ ⟨x, hx, hh⟩ fun y hy hhy => ?_
    have hy' := (h.hit_position hw hwr hτ hget hy hhy).2
    exact Option.some.inj (hy'.symm.trans hval)
  · -- an accepted token of the tile the request goes on writing
    rw [foldl_scatter_miss hcoh _ _ _ fun y hy hhy => hp (h.hit_position hw hwr hτ hget hy hhy).1]
    rw [not_le] at hp
    have hlo := hwr.1
    cases hprior : w.origin.prior with
    | none =>
      have := Nat.mul_le_mul_right cfg.group hlo
      have := committed_aligned h.valid hw hprior
      omega
    | some p =>
      obtain ⟨-, hc⟩ := prior_claim h.layout h.valid hw hprior (by omega) hτ
      have hst := h.build_stored hc
      rw [atWrite_blockToSlot] at hget
      rw [stored_resident hget] at hst
      refine hst o ho v ?_
      unfold tileVals vals at hval
      rw [getElem?_append_left hp] at hval
      exact hval

/-- The values of a tile that the step does not write. -/
private theorem stored_unwritten
    (hc : Claim cfg pl.settled (e.nextDone cfg pl) τ f) (hun : τ ∉ (pl.cam cfg).written cfg) :
    Stored cfg quant (e.atWrite cfg pl) (e.memAfter cfg quant pl) τ f := by
  have hst := h.build_stored hc
  by_cases hd : τ ∈ (e.build cfg pl).state.blockToSlot
  · obtain ⟨slot, hget⟩ := Dict.mem_iff_get?.1 hd
    have hget' : (e.atWrite cfg pl).blockToSlot.get? τ = some slot := by
      rw [atWrite_blockToSlot]; exact hget
    rw [stored_resident hget] at hst
    rw [stored_resident hget']
    intro o ho v hv
    rw [foldl_scatter_miss h.atWrite_inv.toCoherent, hst o ho v hv]
    intro x hx hh
    obtain ⟨s, hs, p, τ', -, -, hwr, hτ', hget₂, -⟩ := hits_cases h.valid hx hh
    obtain rfl := h.atWrite_inv.slot_inj hget' hget₂
    exact hun ((mem_written_cam h.valid).2 ⟨s, hs, _, hwr, hτ'⟩)
  · have hd' : τ ∉ (e.atWrite cfg pl).blockToSlot := by rw [atWrite_blockToSlot]; exact hd
    rw [stored_record hd] at hst
    rw [stored_record hd', foldl_scatter_int4]
    exact hst

/-- A tile filled by the step is recorded as full. -/
private theorem written_full (he : (e.build cfg pl).error = none)
    (hw : w ∈ pl.batch) (hwr : w.Writes cfg t)
    (hτ : cfg.tile w.row t = some τ) (hlen : (t + 1) * cfg.group ≤ w.vals.length) :
    (e.build cfg pl).state.Full cfg τ := by
  have hmem : τ ∈ (pl.cam cfg).written cfg := (mem_written_cam h.valid).2 ⟨w, hw, t, hwr, hτ⟩
  have hfill := build_fill h.inv (walkReturns_cam h.valid _) (h.written_resident he hw hwr hτ)
    fun hn => needed_not_reached h.flushSafe hn
  obtain ⟨x, hx, hge⟩ : ∃ x, ((pl.cam cfg).recordFill cfg e.group.blockFill).get? τ = some x ∧
      cfg.group ≤ x := by
    refine recordFill_of_mem _
      ⟨(τ, _), (mem_tileWrites_cam h.valid).2 ⟨w, hw, t, hwr, hτ, rfl⟩, rfl⟩ fun y hy hyτ => ?_
    obtain ⟨s, hs, t', hwr', hτ', hval⟩ := (mem_tileWrites_cam h.valid).1 hy
    rw [hyτ] at hτ'
    obtain ⟨rfl, rfl⟩ := writer_unique h.layout h.valid hw hs hwr hτ hwr' hτ'
    rw [hval, Nat.min_eq_right hlen, Nat.succ_mul]
    omega
  unfold GroupState.Full
  rw [show (e.build cfg pl).state.blockFill.get? τ = _ from hfill, hx]
  exact hge

/-- **A step that returns** keeps the data invariant. -/
theorem return_sound (he : (e.build cfg pl).error = none) :
    Sound cfg quant (e.atWrite cfg pl) (e.memAfter cfg quant pl)
      (pl.batch.map req ++ pl.omitted.map fun p => p.1.settle p.2)
      (e.nextDone cfg pl) where
  stored := by
    intro τ f hc
    rcases claim_cases h.layout h.valid hc with ⟨w, hw, t, hwr, hτ, hf⟩ | ⟨f', hc', hf, hun⟩
    · exact (h.stored_written he hw hwr hτ).congr hf
    · exact (h.stored_unwritten hc' hun).congr hf
  sink := by
    intro τ f hc hs
    rw [atWrite_blockToSlot]
    rcases claim_cases h.layout h.valid hc with ⟨w, hw, t, hwr, hτ, -⟩ | ⟨f', hc', -, -⟩
    · exact h.written_resident he hw hwr hτ
    · exact h.build_sink hc' (by simpa [atWrite] using hs)
  full := by
    intro τ f hc hf hd
    rw [atWrite_blockToSlot] at hd
    have hfull : (e.build cfg pl).state.Full cfg τ := by
      rcases claim_cases h.layout h.valid hc with ⟨w, hw, t, hwr, hτ, hfw⟩ | ⟨f', hc', hff, -⟩
      · exact h.written_full he hw hwr hτ
          (le_of_complete (hf.congr fun o ho => (hfw o ho).symm))
      · exact h.build_full hc' (hf.congr fun o ho => (hff o ho).symm) hd
    simpa [GroupState.Full, atWrite] using hfull
  tail := by
    intro r hr t τ hlo hhi hτ
    rw [atWrite_blockToSlot]
    rcases mem_append.1 hr with hr | hr
    · obtain ⟨s, hs, rfl⟩ := mem_map.1 hr
      have hle : s.committed / cfg.group ≤ s.sure / cfg.group :=
        Nat.div_le_div_right (h.valid.sure_le s hs).1
      exact h.written_resident he hs ⟨hle.trans hlo, hhi⟩ hτ
    · obtain ⟨q, hq, rfl⟩ := mem_map.1 hr
      exact h.settled_tail_kept (mem_map_of_mem (mem_append_right _ hq)) hlo hhi hτ

end

end Ready

/-! ## Runs -/

/-- The invariants of the engine between two steps. -/
structure Engine.Ok (cfg : Config) (quant : (Fin cfg.group → V) → R) (e : Engine V R) : Prop where
  inv : e.group.Inv cfg
  layout : Layout cfg e.live e.done
  sound : Sound cfg quant e.group e.mem e.live e.done

theorem start_ok (poolSize : ℕ) (mem : Memory V R) : (start poolSize mem).Ok cfg quant :=
  ⟨inv_init cfg poolSize, layout_nil, sound_nil _ _⟩

theorem Engine.Ok.ready (h : e.Ok cfg quant) (hv : pl.Valid cfg e) (hf : pl.FlushSafe cfg e)
    (ho : pl.OmitSafe cfg e) : Ready cfg quant e pl :=
  ⟨h.inv, h.layout, hv, settle_sound hv h.sound, hf, ho⟩

/-- **Step**: a valid step that meets the two conditions keeps the invariants,
whether its build raises or not. -/
theorem step_ok (h : Ready cfg quant e pl) : (e.step cfg quant pl).Ok cfg quant := by
  unfold step
  split
  · exact ⟨build_inv false pl.order (pl.cam cfg) h.inv, raise_layout h.layout h.valid,
      h.raise_sound⟩
  · rename_i he
    exact ⟨h.atWrite_inv, step_layout h.layout h.valid, h.return_sound he⟩

/-- **Run**: if the conditions follow from `P`, runs under `P` keep the invariants. -/
theorem reach_ok {poolSize : ℕ} {P : Engine V R → Plan V → Prop}
    (hP : ∀ e pl, e.Ok cfg quant → pl.Valid cfg e → P e pl → pl.FlushSafe cfg e ∧ pl.OmitSafe cfg e)
    (h : Reach cfg quant poolSize P e) : e.Ok cfg quant := by
  induction h with
  | start mem => exact start_ok poolSize mem
  | step _ hv hp ih =>
    obtain ⟨hf, ho⟩ := hP _ _ ih hv hp
    exact step_ok (ih.ready hv hf ho)

/-! ## What the kernels read -/

/-- The source holds the token at position `p`: a pool slot its value, a record the
quantised values of the complete tile it lies in. -/
inductive Holds (cfg : Config) (quant : (Fin cfg.group → V) → R) (vals : List V) (p : ℕ) :
    Source V R → Prop
  | pool {v : V} (h : vals[p]? = some v) : Holds cfg quant vals p (.pool v)
  | record (c : Fin cfg.group → V)
      (h : ∀ o : Fin cfg.group, vals[p / cfg.group * cfg.group + o]? = some (c o)) :
      Holds cfg quant vals p (.record (quant c))

private theorem tileRowTable_cam (hv : pl.Valid cfg e) {b : ℕ}
    (hb : pl.batch[b]? = some s) {p : ℕ} (hp : p < s.vals.length)
    (hτ : cfg.tile s.row (p / cfg.group) = some τ) :
    tileRowTable cfg (pl.cam cfg) b (p / cfg.group) = τ := by
  have hs : s ∈ pl.batch := mem_of_getElem? hb
  have hrow : (pl.cam cfg).rows[b]? = some (s.batchRow pl.btCols) := by
    rw [rows_cam, getElem?_map, hb]
    rfl
  have hlt := (Nat.div_mul_le_self p cfg.group).trans_lt hp
  refine (tileRowTable_eq_iff hrow _ τ).2 ⟨⟨hlt, ?_⟩, (rowTile_table (hv.width s hs) _).trans hτ⟩
  exact lt_ceil_iff.2 (hlt.trans_le (hv.modelLen s hs))

/-- **Reading through**: after the writes of a step that returned, the source the
kernels select for a token of the batch holds the token. -/
theorem select_holds (h : Ready cfg quant e pl) (he : (e.build cfg pl).error = none) {b : ℕ}
    (hb : pl.batch[b]? = some s) {p : ℕ} (hp : p < s.vals.length) : Holds cfg quant s.vals p
      (select (e.step cfg quant pl).group (e.step cfg quant pl).mem
        (tileRowTable cfg (pl.cam cfg) b (p / cfg.group)) (p % cfg.group)) := by
  have hs : s ∈ pl.batch := mem_of_getElem? hb
  have hg := cfg.group_pos
  have hle := Nat.div_mul_le_self p cfg.group
  have hlt : p / cfg.group * cfg.group < s.vals.length := by omega
  obtain ⟨τ, hτ⟩ := tile_exists (tile_lt_of_pos hlt (h.valid.room s hs))
  have hreq : s.req ∈ pl.batch.map req ++ pl.omitted.map fun p => p.1.settle p.2 :=
    mem_append_left _ (mem_map_of_mem hs)
  have hst := (h.return_sound he).stored τ _ (.live s.req hreq (p / cfg.group) hlt hτ rfl)
  -- the tile row is inside the lookup tensors
  have hrange : τ < (e.atWrite cfg pl).blockToSlotT.shape := by
    obtain ⟨c, hc, rfl⟩ := tile_eq_some.1 hτ
    have hlt := (step_layout h.layout h.valid).row_lt s.req hreq c (mem_of_getElem? hc)
    have hmod := tile_mod_lt cfg (p / cfg.group)
    have hmul := Nat.mul_le_mul_right cfg.tpr (Nat.succ_le_of_lt hlt)
    rw [Nat.succ_mul] at hmul
    have hshape := le_shape_ensurePool (e.build cfg pl).state (cfg.numBlocks * cfg.tpr)
    change _ ≤ (e.atWrite cfg pl).blockToSlotT.shape at hshape
    omega
  have hmirror := h.atWrite_inv.slot_mirror τ hrange
  rw [step_returned quant he, tileRowTable_cam h.valid hb hp hτ]
  have hin : (0 : ℤ) ≤ (τ : ℤ) ∧ (τ : ℤ) < (e.atWrite cfg pl).blockToSlotT.shape := by omega
  simp only [select, hin, and_self, if_true, Int.toNat_natCast]
  have hoff : p / cfg.group * cfg.group + p % cfg.group = p := by
    rw [Nat.mul_comm]; exact Nat.div_add_mod p cfg.group
  by_cases hd : τ ∈ (e.atWrite cfg pl).blockToSlot
  · obtain ⟨slot, hslot⟩ := Dict.mem_iff_get?.1 hd
    rw [hmirror, slotEntry_of_get? hslot, if_pos (Int.natCast_nonneg _)]
    rw [stored_resident hslot] at hst
    have hval := getElem?_eq_getElem hp
    have hpool := hst (p % cfg.group) (Nat.mod_lt _ hg) s.vals[p] (by
      unfold tileVals
      rw [hoff]
      exact hval)
    refine .pool ?_
    rw [Int.toNat_natCast, hpool, hval]
  · rw [hmirror, slotEntry_of_notMem hd, if_neg (by decide)]
    rw [stored_record hd] at hst
    obtain ⟨c, hrec, hc⟩ := hst
    rw [hrec]
    exact .record c hc

end Plan

end KVarN.Tile
