import KVarN.Tile.Layout

/-!
# Reading through the pool

The kernels read a token from its tile's pool slot if the tile has one, and from
the tile's int4 record otherwise. This module shows that what they select is the
value written for the token, after every step of every run in which no walk-back
reaches a tile the step writes and no request left out of a batch loses the slot
of a partly filled tile.

A *claim* is a tile row together with the values some request or cached block
expects there. `Sound` says that every claim is stored where the kernels look,
with three facts about labels, fill counts and residency that make this
inductive. `settle_sound` settles the live requests and `raise_sound` takes the
claims through a build; the writes and the runs have a module of their own.

## Main definitions

* `Stored`, `Claim`, `Sound` — the data invariant.
* `Plan.FlushSafe`, `Plan.OmitSafe` — what a step has to meet.
* `Ready` — the invariants at the start of such a step.
-/

namespace KVarN.Tile

open KVarN.Lib Dict List

variable {V R : Type} {cfg : Config} {quant : (Fin cfg.group → V) → R}

/-! ## Claims -/

/-- The value at offset `o` of tile `t`. -/
def tileVals (cfg : Config) (vals : List V) (t o : ℕ) : Option V := vals[t * cfg.group + o]?

/-- The tile row holds `f`: in its slot if it has one, else as a quantised record
of a complete tile. -/
def Stored (cfg : Config) (quant : (Fin cfg.group → V) → R) (g : GroupState) (m : Memory V R)
    (τ : ℕ) (f : ℕ → Option V) : Prop :=
  match g.blockToSlot.get? τ with
  | some slot => ∀ o < cfg.group, ∀ v, f o = some v → m.pool slot o = v
  | none => ∃ c : Fin cfg.group → V, m.int4 τ = quant c ∧ ∀ o : Fin cfg.group, f o = some (c o)

/-- A tile row with the values expected there. -/
inductive Claim (cfg : Config) (live : List (Req V)) (done : List (Done V)) (τ : ℕ)
    (f : ℕ → Option V) : Prop
  | live (r : Req V) (hr : r ∈ live) (t : ℕ) (ht : t * cfg.group < r.vals.length)
      (hτ : cfg.tile r.row t = some τ) (hf : f = tileVals cfg r.vals t)
  | done (d : Done V) (hd : d ∈ done) (k : ℕ) (hk : k < cfg.tpr)
      (hτ : d.block * cfg.tpr + k = τ) (hf : f = tileVals cfg d.vals k)

/-- All offsets of the tile have a value. -/
def Complete (cfg : Config) (f : ℕ → Option V) : Prop := ∀ o < cfg.group, ∃ v, f o = some v

/-- **The data invariant.** -/
structure Sound (cfg : Config) (quant : (Fin cfg.group → V) → R) (g : GroupState)
    (m : Memory V R) (live : List (Req V)) (done : List (Done V)) : Prop where
  stored : ∀ τ f, Claim cfg live done τ f → Stored cfg quant g m τ f
  /-- A sink with data is resident. -/
  sink : ∀ τ f, Claim cfg live done τ f → τ ∈ g.sinks → τ ∈ g.blockToSlot
  /-- A complete resident tile is recorded as full. -/
  full : ∀ τ f, Claim cfg live done τ f → Complete cfg f → τ ∈ g.blockToSlot → g.Full cfg τ
  /-- Tiles with tokens that may still be rejected are resident. -/
  tail : ∀ r ∈ live, ∀ t τ, r.sure / cfg.group ≤ t → t * cfg.group < r.vals.length →
    cfg.tile r.row t = some τ → τ ∈ g.blockToSlot

section Stored

variable {g : GroupState} {m : Memory V R} {τ : ℕ} {f f' : ℕ → Option V}

theorem stored_resident {slot : ℕ} (h : g.blockToSlot.get? τ = some slot) :
    Stored cfg quant g m τ f ↔ ∀ o < cfg.group, ∀ v, f o = some v → m.pool slot o = v := by
  simp [Stored, h]

theorem stored_record (h : τ ∉ g.blockToSlot) : Stored cfg quant g m τ f ↔
      ∃ c : Fin cfg.group → V, m.int4 τ = quant c ∧ ∀ o : Fin cfg.group, f o = some (c o) := by
  simp [Stored, get?_eq_none_iff.2 h]

theorem Stored.congr (h : Stored cfg quant g m τ f) (hf : ∀ o < cfg.group, f' o = f o) :
    Stored cfg quant g m τ f' := by
  by_cases hd : τ ∈ g.blockToSlot
  · obtain ⟨slot, hs⟩ := mem_iff_get?.1 hd
    rw [stored_resident hs] at h ⊢
    exact fun o ho v hv => h o ho v ((hf o ho).symm.trans hv)
  · rw [stored_record hd] at h ⊢
    obtain ⟨c, hc, hfc⟩ := h
    exact ⟨c, hc, fun o => (hf o o.2).trans (hfc o)⟩

theorem Complete.congr (h : Complete cfg f) (hf : ∀ o < cfg.group, f' o = f o) :
    Complete cfg f' := fun o ho => (h o ho).imp fun _ hv => (hf o ho).trans hv

end Stored

/-! ### Values of a tile -/

variable {vals : List V} {t o : ℕ}

theorem tileVals_take {acc : ℕ} {v : V}
    (h : tileVals cfg (vals.take acc) t o = some v) : tileVals cfg vals t o = some v := by
  unfold tileVals at h ⊢
  rw [getElem?_take] at h
  split at h
  · exact h
  · cases h

theorem tileVals_take_of_le {acc : ℕ} (h : (t + 1) * cfg.group ≤ acc)
    (ho : o < cfg.group) : tileVals cfg (vals.take acc) t o = tileVals cfg vals t o := by
  rw [Nat.succ_mul] at h
  exact getElem?_take_of_lt (by omega)

theorem tileVals_slice {j k : ℕ} (hk : k < cfg.tpr) (ho : o < cfg.group) :
    tileVals cfg (slice cfg.blockSize vals j) k o = tileVals cfg vals (j * cfg.tpr + k) o := by
  have hlt : k * cfg.group + o < cfg.blockSize := by
    rw [← cfg.tpr_mul_group]
    have h := Nat.mul_le_mul_right cfg.group (Nat.succ_le_of_lt hk)
    rw [Nat.succ_mul] at h
    omega
  have hidx : j * cfg.blockSize + (k * cfg.group + o) = (j * cfg.tpr + k) * cfg.group + o := by
    rw [← cfg.tpr_mul_group, Nat.add_mul, Nat.mul_assoc]
    omega
  unfold tileVals slice
  rw [getElem?_take_of_lt hlt, getElem?_drop, hidx]

theorem complete_of_le (h : (t + 1) * cfg.group ≤ vals.length) :
    Complete cfg (tileVals cfg vals t) := by
  intro o ho
  rw [Nat.succ_mul] at h
  exact ⟨_, getElem?_eq_getElem (by omega)⟩

theorem le_of_complete (h : Complete cfg (tileVals cfg vals t)) :
    (t + 1) * cfg.group ≤ vals.length := by
  have hg := cfg.group_pos
  obtain ⟨v, hv⟩ := h (cfg.group - 1) (by omega)
  have hlt := (List.getElem?_eq_some_iff.1 hv).1
  rw [Nat.succ_mul]
  omega

/-- Tile `t` is tile `t % tpr` of block `t / tpr`. -/
theorem tile_split (cfg : Config) (t : ℕ) : t / cfg.tpr * cfg.tpr + t % cfg.tpr = t := by
  rw [Nat.mul_comm]
  exact Nat.div_add_mod t cfg.tpr

/-! ## Settling -/

theorem sound_nil (g : GroupState) (m : Memory V R) : Sound cfg quant g m [] [] where
  stored := fun _ _ h => by cases h <;> rename_i h _ _ _ _ <;> exact absurd h not_mem_nil
  sink := fun _ _ h => by cases h <;> rename_i h _ _ _ _ <;> exact absurd h not_mem_nil
  full := fun _ _ h => by cases h <;> rename_i h _ _ _ _ <;> exact absurd h not_mem_nil
  tail := fun _ h => absurd h not_mem_nil

/-- Rejecting tokens only weakens claims, and a tile that loses tokens is resident. -/
private theorem settle_stored {g : GroupState} {m : Memory V R} {live : List (Req V)}
    {done : List (Done V)} (h : Sound cfg quant g m live done) {p : Req V × ℕ} (hp : p.1 ∈ live)
    (hacc : p.1.sure ≤ p.2 ∧ p.2 ≤ p.1.vals.length) {τ : ℕ}
    (ht : t * cfg.group < (p.1.settle p.2).vals.length) (hτ : cfg.tile p.1.row t = some τ) :
    Stored cfg quant g m τ (tileVals cfg (p.1.settle p.2).vals t) := by
  rw [length_settle hacc.2] at ht
  have hs := h.stored τ _ (.live p.1 hp t (by omega) hτ rfl)
  by_cases hd : τ ∈ g.blockToSlot
  · obtain ⟨slot, hslot⟩ := mem_iff_get?.1 hd
    rw [stored_resident hslot] at hs ⊢
    exact fun o ho v hv => hs o ho v (tileVals_take hv)
  · -- not resident, so below the sure tokens, so nothing of the tile is rejected
    refine hs.congr fun o ho => tileVals_take_of_le ?_ ho
    have hlt : t < p.1.sure / cfg.group := by
      by_contra hx
      exact hd (h.tail p.1 hp t τ (not_lt.1 hx) (by omega) hτ)
    rw [← Nat.le_div_iff_mul_le cfg.group_pos]
    exact (Nat.succ_le_of_lt hlt).trans (Nat.div_le_div_right hacc.1)

section Plan

variable {e : Engine V R} {pl : Plan V}

private theorem mem_live (hv : pl.Valid cfg e) {p : Req V × ℕ}
    (hp : p ∈ pl.continued ++ pl.omitted ++ pl.finished) : p.1 ∈ e.live :=
  hv.live.mem_iff.2 (mem_map_of_mem hp)

private theorem mem_settled_ended {r : Req V} (hr : r ∈ pl.settled ++ pl.ended) :
    ∃ p ∈ pl.continued ++ pl.omitted ++ pl.finished, r = p.1.settle p.2 := by
  rcases mem_append.1 hr with hr | hr
  · obtain ⟨p, hp, rfl⟩ := mem_map.1 hr
    exact ⟨p, mem_append_left _ hp, rfl⟩
  · obtain ⟨p, hp, rfl⟩ := mem_map.1 hr
    exact ⟨p, mem_append_right _ hp, rfl⟩

variable {τ : ℕ} {f : ℕ → Option V} {s : Sched V}

/-- A claim after settling is one of a settled request, as the request or a complete
block of it makes it, or stood before. -/
theorem settled_claim_cases (hc : Claim cfg (pl.settled ++ pl.ended) (e.settledDone cfg pl) τ f) :
    (∃ p ∈ pl.continued ++ pl.omitted ++ pl.finished, ∃ t,
      t * cfg.group < (p.1.settle p.2).vals.length ∧ cfg.tile p.1.row t = some τ ∧
      ∀ o < cfg.group, f o = tileVals cfg (p.1.settle p.2).vals t o) ∨
    Claim cfg e.live e.done τ f := by
  cases hc with
  | live r hr t ht hτ hf =>
    obtain ⟨p, hp, rfl⟩ := mem_settled_ended hr
    exact Or.inl ⟨p, hp, t, ht, hτ, fun o _ => by rw [hf]⟩
  | done d hd k hk hτ hf =>
    rcases mem_append.1 hd with hd | hd
    · obtain ⟨r, hr, hd⟩ := mem_flatMap.1 hd
      obtain ⟨hlen, hrow, hvals⟩ := mem_complete.1 hd
      obtain ⟨p, hp, rfl⟩ := mem_settled_ended hr
      obtain ⟨hdiv, hmod⟩ := mul_add_div_mod d.index hk
      refine Or.inl ⟨p, hp, d.index * cfg.tpr + k, ?_, ?_, fun o ho => ?_⟩
      · have h₁ : d.index * cfg.tpr + k + 1 ≤ (d.index + 1) * cfg.tpr := by
          rw [Nat.succ_mul]; omega
        have h₂ := Nat.mul_le_mul_right cfg.group h₁
        rw [Nat.mul_assoc, cfg.tpr_mul_group, Nat.succ_mul] at h₂
        have hg := cfg.group_pos
        omega
      · exact tile_eq_some.2 ⟨d.block, by rw [hdiv]; exact hrow, by rw [hmod]; exact hτ⟩
      · rw [hf, hvals, tileVals_slice hk ho]
    · exact Or.inr (.done d hd k hk hτ hf)

/-- Every claim after settling weakens a claim from before. -/
theorem settled_claim_weakens (hv : pl.Valid cfg e)
    (hc : Claim cfg (pl.settled ++ pl.ended) (e.settledDone cfg pl) τ f) :
    ∃ f', Claim cfg e.live e.done τ f' ∧ ∀ o < cfg.group, ∀ v, f o = some v → f' o = some v := by
  rcases settled_claim_cases hc with ⟨p, hp, t, ht, hτ, hf⟩ | hc
  · have hacc := hv.accepted p hp
    rw [length_settle hacc.2] at ht
    refine ⟨_, .live p.1 (mem_live hv hp) t (by omega) hτ rfl, fun o ho v hval => ?_⟩
    exact tileVals_take ((hf o ho).symm.trans hval)
  · exact ⟨f, hc, fun _ _ _ hval => hval⟩

/-- What is claimed when the step's blocks are handed out was claimed at its settling. -/
theorem Claim.settled (hc : Claim cfg pl.settled (e.nextDone cfg pl) τ f) :
    Claim cfg (pl.settled ++ pl.ended) (e.settledDone cfg pl) τ f := by
  cases hc with
  | live r hr t ht hτ hf => exact .live r (mem_append_left _ hr) t ht hτ hf
  | done d hd k hk hτ hf => exact .done d (mem_nextDone.1 hd).1 k hk hτ hf

/-- **Settling** keeps the data invariant. -/
theorem settle_sound (hv : pl.Valid cfg e) (h : Sound cfg quant e.group e.mem e.live e.done) :
    Sound cfg quant e.group e.mem (pl.settled ++ pl.ended) (e.settledDone cfg pl) where
  stored := fun τ f hc => by
    rcases settled_claim_cases hc with ⟨p, hp, t, ht, hτ, hf⟩ | hc
    · exact (settle_stored h (mem_live hv hp) (hv.accepted p hp) ht hτ).congr hf
    · exact h.stored τ f hc
  sink := fun τ _ hc => by
    obtain ⟨f', hc', -⟩ := settled_claim_weakens hv hc
    exact h.sink τ f' hc'
  full := fun τ _ hc hcomp => by
    obtain ⟨f', hc', himp⟩ := settled_claim_weakens hv hc
    exact h.full τ f' hc' fun o ho => (hcomp o ho).imp fun v => himp o ho v
  tail := by
    intro r hr t τ hlo hhi hτ
    obtain ⟨p, hp, rfl⟩ := mem_settled_ended hr
    have hacc := hv.accepted p hp
    rw [length_settle hacc.2] at hhi
    have hle : p.1.sure / cfg.group ≤ p.2 / cfg.group := Nat.div_le_div_right hacc.1
    exact h.tail p.1 (mem_live hv hp) t τ (hle.trans hlo) (by omega) hτ

/-! ## What a step has to meet -/

/-- No walk-back reaches a tile that the step writes. -/
def Plan.FlushSafe (cfg : Config) (e : Engine V R) (pl : Plan V) : Prop :=
  ∀ τ ∈ (pl.cam cfg).written cfg, ¬Reached cfg (pl.cam cfg) e.group τ

/-- A request left out of the batch ends at a tile boundary, or its last tile is a
sink recorded as full that outlives the evictions of this build. -/
def Plan.OmitSafe (cfg : Config) (e : Engine V R) (pl : Plan V) : Prop :=
  ∀ q ∈ pl.omitted, q.2 % cfg.group = 0 ∨ ∀ τ, cfg.tile q.1.row (q.2 / cfg.group) = some τ →
      τ ∈ e.group.sinks ∧ e.group.Full cfg τ ∧
      (demand cfg (pl.cam cfg) e.group).card +
        ((retireOrder cfg (pl.cam cfg) e.group).dropWhile (· ≠ τ)).length ≤ e.group.poolSize

/-! ### Tiles the step writes -/

/-- A tile the step writes lies in a block its writer is still completing. -/
theorem writes_progress (h : s.Writes cfg t) : s.committed < (t / cfg.tpr + 1) * cfg.blockSize :=
  not_le.1 (not_block_le h.1)

section

variable (hL : Layout cfg e.live e.done) (hv : pl.Valid cfg e)

include hL hv

/-- A request that holds a written tile, other than by adoption, is its writer. -/
theorem owner_writes {w : Sched V} (hs : s ∈ pl.batch) (hw : w ∈ pl.batch) {t' b : ℕ}
    (hwr : w.Writes cfg t') (hτ' : cfg.tile w.row t' = some τ) (hτ : cfg.tile s.row t = some τ)
    (hb : s.row[t / cfg.tpr]? = some b) (hown : s.Owns (t / cfg.tpr) b) : s = w ∧ t = t' := by
  obtain ⟨c, hc, hc', hmod⟩ := tile_inj hτ hτ'
  obtain rfl : c = b := Option.some.inj (hc.symm.trans hb)
  obtain rfl := progress_unique hL hv hw hs hc' (writes_progress hwr) hown
  refine ⟨rfl, ?_⟩
  have hdiv := sched_inj hL hv hs _ _ _ hc hc'
  rw [← tile_split cfg t, ← tile_split cfg t', hdiv, hmod]

/-- A written tile has one writer. -/
theorem writer_unique {w w' : Sched V} (hw : w ∈ pl.batch) (hw' : w' ∈ pl.batch) {t' : ℕ}
    (hwr : w.Writes cfg t) (hτ : cfg.tile w.row t = some τ) (hwr' : w'.Writes cfg t')
    (hτ' : cfg.tile w'.row t' = some τ) : w = w' ∧ t = t' := by
  obtain ⟨b, hb, -⟩ := tile_eq_some.1 hτ
  exact owner_writes hL hv hw hw' hwr' hτ' hτ hb (progress_owns hv hw hb (writes_progress hwr))

/-- A tile of a continued request is written only by the request itself, at or
above its boundary. -/
theorem continued_written (hs : s ∈ pl.batch) {p : Req V × ℕ} (hp : s.origin.prior = some p)
    (hτ : cfg.tile p.1.row t = some τ) (hw : τ ∈ (pl.cam cfg).written cfg) : s.Writes cfg t := by
  obtain ⟨w, hw, t', hwr, hτ'⟩ := (mem_written_cam hv).1 hw
  obtain ⟨b, hb, hb'⟩ := tile_eq_some.1 hτ
  have hrow : s.row[t / cfg.tpr]? = some b := by
    have hk : s.origin.kept = p.1.row := by
      cases ho : s.origin with
      | running r acc => rw [ho] at hp; obtain rfl := Option.some.inj hp; rfl
      | admitted bs vs => rw [ho] at hp; cases hp
    unfold Sched.row
    rw [hk, getElem?_append_left (List.getElem?_eq_some_iff.1 hb).1, hb]
  obtain ⟨rfl, rfl⟩ := owner_writes hL hv hs hw hwr hτ' (tile_eq_some.2 ⟨b, hrow, hb'⟩) hrow
    (Or.inr ⟨p, hp, hb⟩)
  exact hwr

/-- The tiles of a request left out of the batch are not written. -/
theorem omitted_unwritten {q : Req V × ℕ} (hq : q ∈ pl.omitted) (hτ : cfg.tile q.1.row t = some τ) :
    τ ∉ (pl.cam cfg).written cfg := by
  intro hw
  obtain ⟨w, hw, t', hwr, hτ'⟩ := (mem_written_cam hv).1 hw
  obtain ⟨b, hb, hb', -⟩ := tile_inj hτ hτ'
  exact absurd (omitted_shares hL hv hw hq hb' hb).2.1 (not_le.2 (writes_progress hwr))

/-- The tiles of a cached block are not written. -/
theorem cached_unwritten {d : Done V} (hd : d ∈ e.nextDone cfg pl) {k : ℕ} (hk : k < cfg.tpr)
    (hτ : d.block * cfg.tpr + k = τ) : τ ∉ (pl.cam cfg).written cfg := by
  intro hw
  obtain ⟨hd, hf⟩ := mem_nextDone.1 hd
  obtain ⟨w, hw, t', hwr, hτ'⟩ := (mem_written_cam hv).1 hw
  obtain ⟨b, hb, hb'⟩ := tile_eq_some.1 hτ'
  obtain ⟨rfl, -⟩ := tile_block (tile_mod_lt cfg t') hk (hb'.trans hτ.symm)
  exact absurd (cached_not_progress hL hv hd hf hw hb) (not_le.2 (writes_progress hwr))

end

/-- Under `FlushSafe` no needed tile is reached: what is needed but not written is
the first tile of a request, and a sink. -/
theorem needed_not_reached (hsafe : pl.FlushSafe cfg e)
    (hn : τ ∈ (mark cfg (pl.cam cfg) e.group).needed) : ¬Reached cfg (pl.cam cfg) e.group τ := by
  rcases mem_mark_needed.1 hn with hw | ⟨hfirst, hsink⟩
  · exact hsafe τ hw
  · rintro ⟨r, -, hwalk⟩
    exact hwalk.resident.2 (mem_mark_sinks.2 ⟨Or.inl hsink, fun hx => hx.2.2 hfirst⟩)

/-! ## The build keeps the claims -/

theorem batchedFlush_pool (m : Memory V R) (ps : List (ℕ × ℕ)) :
    (batchedFlush quant m ps).pool = m.pool ∧ (batchedFlush quant m ps).stamp = m.stamp := by
  unfold batchedFlush
  induction ps generalizing m with
  | nil => exact ⟨rfl, rfl⟩
  | cons p ps ih => exact ih _

private theorem batchedFlush_int4 (m : Memory V R) (ps : List (ℕ × ℕ)) (slot : ℕ)
    (h : ∀ p ∈ ps, p.1 = τ → p.2 = slot) : (batchedFlush quant m ps).int4 τ =
      if τ ∈ ps.map Prod.fst then quant (fun o => m.pool slot o) else m.int4 τ := by
  induction ps generalizing m with
  | nil => rfl
  | cons p ps ih =>
    have hps : ∀ p ∈ ps, p.1 = τ → p.2 = slot := fun p hp => h p (mem_cons_of_mem _ hp)
    have hstep : batchedFlush quant m (p :: ps) = batchedFlush quant
        { m with int4 := Function.update m.int4 p.1 (quant fun o => m.pool p.2 o) } ps := rfl
    rw [hstep, ih _ hps, map_cons]
    by_cases hp : p.1 = τ
    · have hslot := h p mem_cons_self hp
      by_cases hm : τ ∈ ps.map Prod.fst
      · rw [if_pos hm, if_pos (mem_cons_of_mem _ hm)]
      · rw [if_neg hm, if_pos (hp ▸ mem_cons_self), ← hslot, ← hp]
        exact Function.update_self ..
    · by_cases hm : τ ∈ ps.map Prod.fst
      · rw [if_pos hm, if_pos (mem_cons_of_mem _ hm)]
      · have hne : τ ∉ p.1 :: ps.map Prod.fst := by
          rw [mem_cons, not_or]
          exact ⟨Ne.symm hp, hm⟩
        rw [if_neg hm, if_neg hne]
        exact Function.update_of_ne (Ne.symm hp) ..

/-- A tile that keeps its slot keeps what it stores. -/
private theorem stored_of_kept
    (hs : Stored cfg quant e.group e.mem τ f) (hd : τ ∈ e.group.blockToSlot)
    (hget : (e.build cfg pl).state.blockToSlot.get? τ = e.group.blockToSlot.get? τ) :
    Stored cfg quant (e.build cfg pl).state (e.flushed cfg quant pl) τ f := by
  obtain ⟨slot, hslot⟩ := mem_iff_get?.1 hd
  rw [stored_resident hslot] at hs
  rw [stored_resident (hget.trans hslot)]
  have hpool : (e.flushed cfg quant pl).pool = e.mem.pool := (batchedFlush_pool _ _).1
  rw [hpool]
  exact hs

section

variable (hI : e.group.Inv cfg) (hv : pl.Valid cfg e) (hs : Stored cfg quant e.group e.mem τ f)

include hI hv hs

/-- A complete tile that is flushed from its slot stores a record of its values. -/
private theorem stored_of_flushed (hf : Complete cfg f)
    (hd : τ ∈ e.group.blockToSlot) (hgone : τ ∉ (e.build cfg pl).state.blockToSlot)
    (hfl : τ ∈ (e.build cfg pl).flushed.map Prod.fst) :
    Stored cfg quant (e.build cfg pl).state (e.flushed cfg quant pl) τ f := by
  obtain ⟨slot, hslot⟩ := mem_iff_get?.1 hd
  rw [stored_resident hslot] at hs
  rw [stored_record hgone]
  refine ⟨fun o => e.mem.pool slot o, ?_, fun o => ?_⟩
  · unfold Engine.flushed
    rw [batchedFlush_int4 _ _ slot, if_pos hfl]
    intro p hp hpτ
    have h := build_flushed_slot hI (walkReturns_cam hv _) hp
    rw [hpτ, hslot] at h
    exact (Option.some.inj h).symm
  · obtain ⟨v, hv'⟩ := hf o o.2
    exact hv'.trans (congrArg some (hs o o.2 v hv').symm)

/-- A tile left alone by the build keeps its record. -/
private theorem stored_of_absent
    (hd : τ ∉ e.group.blockToSlot) (hn : τ ∉ (mark cfg (pl.cam cfg) e.group).needed) :
    Stored cfg quant (e.build cfg pl).state (e.flushed cfg quant pl) τ f := by
  obtain ⟨hgone, hfl⟩ : τ ∉ (e.build cfg pl).state.blockToSlot ∧
      τ ∉ (e.build cfg pl).flushed.map Prod.fst := build_absent hI (walkReturns_cam hv _) hd hn
  rw [stored_record hd] at hs
  rw [stored_record hgone]
  have hint : (e.flushed cfg quant pl).int4 τ = e.mem.int4 τ := by
    unfold Engine.flushed
    rw [batchedFlush_int4 _ _ 0, if_neg hfl]
    intro p hp hpτ
    exact absurd (mem_map.2 ⟨p, hp, hpτ⟩) hfl
  rw [hint]
  exact hs

end

/-- The invariants a step starts from. -/
structure Ready (cfg : Config) (quant : (Fin cfg.group → V) → R) (e : Engine V R) (pl : Plan V) :
    Prop where
  inv : e.group.Inv cfg
  layout : Layout cfg e.live e.done
  valid : pl.Valid cfg e
  sound : Sound cfg quant e.group e.mem (pl.settled ++ pl.ended) (e.settledDone cfg pl)
  flushSafe : pl.FlushSafe cfg e
  omitSafe : pl.OmitSafe cfg e

namespace Ready

section

variable (h : Ready cfg quant e pl)

include h

/-- A settled request's tile is complete or its last one. -/
private theorem settled_tail {p : Req V × ℕ} (hp : p ∈ pl.continued ++ pl.omitted) {t : ℕ}
    (ht : t * cfg.group < (p.1.settle p.2).vals.length)
    (hf : ¬Complete cfg (tileVals cfg (p.1.settle p.2).vals t)) :
    t = p.2 / cfg.group ∧ p.2 % cfg.group ≠ 0 := by
  have hacc := (h.valid.accepted p (mem_append_left _ hp)).2
  have hlt : ¬(t + 1) * cfg.group ≤ (p.1.settle p.2).vals.length := fun hx =>
    hf (complete_of_le hx)
  rw [length_settle hacc] at ht hlt
  have hdiv : t = p.2 / cfg.group := by
    refine le_antisymm ((Nat.le_div_iff_mul_le cfg.group_pos).2 ht.le) ?_
    rw [← Nat.lt_succ_iff, Nat.div_lt_iff_lt_mul cfg.group_pos]
    exact not_le.1 hlt
  refine ⟨hdiv, fun hx => ?_⟩
  have := Nat.div_add_mod p.2 cfg.group
  rw [hx, Nat.add_zero, ← hdiv, Nat.mul_comm] at this
  omega

/-- A claim on a written tile is that of the request that goes on writing it. -/
private theorem written_claim
    (hc : Claim cfg pl.settled (e.nextDone cfg pl) τ f) (hw : τ ∈ (pl.cam cfg).written cfg) :
    ¬Complete cfg f ∧ τ ∈ e.group.blockToSlot := by
  cases hc with
  | live r hr t ht hτ hf =>
    obtain ⟨p, hp, rfl⟩ := mem_map.1 hr
    have hacc := (h.valid.accepted p (mem_append_left _ hp)).2
    rcases mem_append.1 hp with hp' | hp'
    · obtain ⟨s, hs, hprior⟩ := mem_filterMap.1 hp'
      have hwr := continued_written h.layout h.valid hs hprior hτ hw
      have hlo := hwr.1
      rw [committed_prior h.valid hs hprior] at hlo
      refine ⟨fun hcomp => ?_, h.sound.tail _ (prior_settled hs hprior) t τ hlo ht hτ⟩
      have hle := le_of_complete (hf ▸ hcomp)
      rw [length_settle hacc, ← Nat.le_div_iff_mul_le cfg.group_pos] at hle
      omega
    · exact absurd hw (omitted_unwritten h.layout h.valid hp' hτ)
  | done d hd k hk hτ hf => exact absurd hw (cached_unwritten h.layout h.valid hd hk hτ)

/-- A claimed tile that the batch needs keeps its slot. -/
theorem needed_kept (hc : Claim cfg pl.settled (e.nextDone cfg pl) τ f)
    (hn : τ ∈ (mark cfg (pl.cam cfg) e.group).needed) : τ ∈ e.group.blockToSlot ∧
      (e.build cfg pl).state.blockToSlot.get? τ = e.group.blockToSlot.get? τ := by
  have hd : τ ∈ e.group.blockToSlot := by
    rcases mem_mark_needed.1 hn with hw | ⟨-, hsink⟩
    · exact (h.written_claim hc hw).2
    · exact h.sound.sink τ f hc.settled hsink
  exact ⟨hd, (build_keeps_needed h.inv (walkReturns_cam h.valid _) hd hn
    (needed_not_reached h.flushSafe hn)).1⟩

/-- A full tile that the batch does not need keeps its slot or is flushed. -/
private theorem full_tile (hd : τ ∈ e.group.blockToSlot)
    (hn : τ ∉ (mark cfg (pl.cam cfg) e.group).needed) (hf : e.group.Full cfg τ) :
    (e.build cfg pl).state.blockToSlot.get? τ = e.group.blockToSlot.get? τ ∨
      (τ ∉ (e.build cfg pl).state.blockToSlot ∧ τ ∈ (e.build cfg pl).flushed.map Prod.fst) :=
  (build_full_tile h.inv (walkReturns_cam h.valid _) hd hn hf).imp_left And.left

/-- A claimed tile that is not complete keeps its slot. -/
theorem partial_kept (hc : Claim cfg pl.settled (e.nextDone cfg pl) τ f) (hf : ¬Complete cfg f) :
    τ ∈ e.group.blockToSlot ∧
      (e.build cfg pl).state.blockToSlot.get? τ = e.group.blockToSlot.get? τ := by
  by_cases hn : τ ∈ (mark cfg (pl.cam cfg) e.group).needed
  · exact h.needed_kept hc hn
  have hret := walkReturns_cam h.valid e.group
  cases hc with
  | live r hr t ht hτ hfr =>
    obtain ⟨p, hp, rfl⟩ := mem_map.1 hr
    have hacc := (h.valid.accepted p (mem_append_left _ hp)).2
    obtain ⟨rfl, hmod⟩ := h.settled_tail hp ht (hfr ▸ hf)
    have hd : τ ∈ e.group.blockToSlot :=
      h.sound.tail _ (mem_append_left _ hr) _ τ le_rfl ht hτ
    rcases mem_append.1 hp with hp' | hp'
    · -- a continued request writes on in its last tile
      obtain ⟨s, hs, hprior⟩ := mem_filterMap.1 hp'
      have hc' := committed_prior h.valid hs hprior
      have hpos := h.valid.query_pos s hs
      refine absurd (mem_mark_needed.2 (Or.inl ((mem_written_cam h.valid).2
        ⟨s, hs, p.2 / cfg.group, ⟨by rw [hc'], ?_⟩, ?_⟩))) hn
      · have := Nat.div_mul_le_self p.2 cfg.group
        rw [length_vals]
        omega
      · obtain ⟨b, hb, hb'⟩ := tile_eq_some.1 hτ
        refine tile_eq_some.2 ⟨b, ?_, hb'⟩
        cases ho : s.origin with
        | running r acc =>
          rw [ho] at hprior
          obtain rfl := Option.some.inj hprior
          unfold Sched.row
          rw [ho]
          exact (getElem?_append_left (List.getElem?_eq_some_iff.1 hb).1).trans hb
        | admitted bs vs => rw [ho] at hprior; cases hprior
    · obtain ⟨hsink, hfull, hfit⟩ := (h.omitSafe p hp').resolve_left hmod τ hτ
      have hdem : τ ∉ demand cfg (pl.cam cfg) e.group := fun hx => hn (mem_demand.1 hx)
      have hord : τ ∈ retireOrder cfg (pl.cam cfg) e.group := by
        unfold retireOrder
        rw [mem_append, mem_filter, mem_filter]
        by_cases hr : τ ∈ e.group.retiredSinks
        · exact Or.inl ⟨hr, by simpa using hdem⟩
        · exact Or.inr ⟨hd, by simp [hdem, hfull, hsink, hr]⟩
      have hkept : τ ∈ (e.build cfg pl).state.retiredSinks :=
        build_keeps_retired h.inv hret hord hfit
      have hinv : (e.build cfg pl).state.Inv cfg := build_inv false pl.order (pl.cam cfg) h.inv
      refine ⟨hd, ?_⟩
      rcases h.full_tile hd hn hfull with hx | hx
      · exact hx
      · exact absurd (hinv.retired_slot τ hkept) hx.1
  | done d hd k hk hτ hfd =>
    refine absurd (fun o ho => ?_) hf
    have hlen := (settled_layout h.layout h.valid).done_len d (mem_nextDone.1 hd).1
    rw [hfd]
    refine complete_of_le ?_ o ho
    rw [hlen, ← cfg.tpr_mul_group]
    exact Nat.mul_le_mul_right _ (Nat.succ_le_of_lt hk)

/-- **The build keeps every claim stored.** -/
theorem build_stored (hc : Claim cfg pl.settled (e.nextDone cfg pl) τ f) :
    Stored cfg quant (e.build cfg pl).state (e.flushed cfg quant pl) τ f := by
  have hs := h.sound.stored τ f hc.settled
  by_cases hf : Complete cfg f
  · by_cases hn : τ ∈ (mark cfg (pl.cam cfg) e.group).needed
    · obtain ⟨hd, hget⟩ := h.needed_kept hc hn
      exact stored_of_kept hs hd hget
    by_cases hd : τ ∈ e.group.blockToSlot
    · rcases h.full_tile hd hn (h.sound.full τ f hc.settled hf hd) with hx | ⟨hx, hfl⟩
      · exact stored_of_kept hs hd hx
      · exact stored_of_flushed h.inv h.valid hs hf hd hx hfl
    · exact stored_of_absent h.inv h.valid hs hd hn
  · obtain ⟨hd, hget⟩ := h.partial_kept hc hf
    exact stored_of_kept hs hd hget

end

theorem mem_of_get?_eq {g g' : GroupState} (hd : τ ∈ g.blockToSlot)
    (h : g'.blockToSlot.get? τ = g.blockToSlot.get? τ) : τ ∈ g'.blockToSlot := by
  obtain ⟨slot, hslot⟩ := mem_iff_get?.1 hd
  exact mem_of_get? (h.trans hslot)

section

variable (h : Ready cfg quant e pl)

include h

theorem build_sink (hc : Claim cfg pl.settled (e.nextDone cfg pl) τ f)
    (hsink : τ ∈ (e.build cfg pl).state.sinks) : τ ∈ (e.build cfg pl).state.blockToSlot := by
  have hret := walkReturns_cam h.valid e.group
  by_cases hn : τ ∈ (mark cfg (pl.cam cfg) e.group).needed
  · obtain ⟨hd, hget⟩ := h.needed_kept hc hn
    exact mem_of_get?_eq hd hget
  · rcases build_sink_cases h.inv hret hsink with hs | ⟨-, hw⟩
    · exact build_keeps_sink h.inv hret (h.sound.sink τ f hc.settled hs) hn hsink
    · exact absurd (mem_mark_needed.2 (Or.inl hw)) hn

theorem build_full (hc : Claim cfg pl.settled (e.nextDone cfg pl) τ f) (hf : Complete cfg f)
    (hd' : τ ∈ (e.build cfg pl).state.blockToSlot) : (e.build cfg pl).state.Full cfg τ := by
  have hret := walkReturns_cam h.valid e.group
  have hw : τ ∉ (pl.cam cfg).written cfg := fun hw => (h.written_claim hc hw).1 hf
  have hd : τ ∈ e.group.blockToSlot := by
    by_cases hn : τ ∈ (mark cfg (pl.cam cfg) e.group).needed
    · exact (h.needed_kept hc hn).1
    · by_contra hx
      exact (build_absent h.inv hret hx hn).1 hd'
  have hfill := build_fill h.inv hret hd' fun hn => needed_not_reached h.flushSafe hn
  have hrec : ((pl.cam cfg).recordFill cfg e.group.blockFill).get? τ
      = e.group.blockFill.get? τ :=
    recordFill_of_notMem _ fun w hwr e₁ => hw (mem_written.2 (Or.inl ⟨w, hwr, e₁⟩))
  unfold GroupState.Full
  rw [show (e.build cfg pl).state.blockFill.get? τ = _ from hfill, hrec]
  exact h.sound.full τ f hc.settled hf hd

theorem settled_tail_kept {r : Req V} (hr : r ∈ pl.settled)
    {t : ℕ} (hlo : r.sure / cfg.group ≤ t) (hhi : t * cfg.group < r.vals.length)
    (hτ : cfg.tile r.row t = some τ) : τ ∈ (e.build cfg pl).state.blockToSlot := by
  obtain ⟨p, hp, rfl⟩ := mem_map.1 hr
  have hacc := (h.valid.accepted p (mem_append_left _ hp)).2
  have hpart : ¬Complete cfg (tileVals cfg (p.1.settle p.2).vals t) := by
    intro hx
    have hle := le_of_complete hx
    rw [length_settle hacc, ← Nat.le_div_iff_mul_le cfg.group_pos] at hle
    have hlo' : p.2 / cfg.group ≤ t := hlo
    omega
  obtain ⟨hd, hget⟩ := h.partial_kept (.live _ hr t hhi hτ rfl) hpart
  exact mem_of_get?_eq hd hget

/-- **A build that raises** leaves the settled requests' data where the kernels look. -/
theorem raise_sound :
    Sound cfg quant (e.build cfg pl).state (e.flushed cfg quant pl) pl.settled
      (e.nextDone cfg pl) where
  stored := fun _ _ hc => h.build_stored hc
  sink := fun _ _ hc hs => h.build_sink hc hs
  full := fun _ _ hc hf hd => h.build_full hc hf hd
  tail := fun _ hr _ _ hlo hhi hτ => h.settled_tail_kept hr hlo hhi hτ

end

end Ready

end Plan

end KVarN.Tile
