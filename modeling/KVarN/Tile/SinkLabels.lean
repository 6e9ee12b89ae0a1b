import KVarN.Tile.Fate

/-!
# What a sink label means

A sink is the first tile of a request, or retired. The labels of retired sinks are shed when
their blocks are used for something else; those of a request that has just finished are not,
since its sink is only retired by the next build that does not need the tile. A block that is
written again in that very build keeps its label in the middle of another request, and the
walk-back stops at it.

## Main definitions

* `AttnMetadata.laterTiles` — the tiles of the batch's requests behind the first ones.
* `RunMeets` — runs whose builds write no such block.

## Main results

* `Event.Meets.labels`, `RunMeets.labels` — sinks hold slots, and later tiles are no sinks.
* `sinks_first_tiles` — sinks are first tiles or retired, and no later tile is exempt from
  flushing.
-/

namespace KVarN.Tile

open KVarN.Lib GroupState

variable {cfg : Config} {cam : AttnMetadata} {s : GroupState} {ord : SetOrder} {fast : Bool} {b : ℕ}

private theorem sink_of_mark (hb : b ∈ (mark cfg cam s).state.sinks)
    (hn : b ∉ (mark cfg cam s).needed) : b ∈ s.sinks :=
  (mem_mark_sinks.1 hb).1.resolve_right fun hx => hn (mem_mark_needed.2 (Or.inl hx.2))

/-- **Step**: after a build that returns, every sink holds a slot. -/
theorem build_sinks_resident (h : s.Inv cfg) (hs : ∀ b ∈ s.sinks, b ∈ s.blockToSlot)
    (he : (build cfg fast ord cam s).error = none)
    (hb : b ∈ (build cfg fast ord cam s).state.sinks) :
    b ∈ (build cfg fast ord cam s).state.blockToSlot := by
  by_cases hn : b ∈ (mark cfg cam s).needed
  · exact build_needed_resident h he hn
  rcases build_cases fast ord cam h with ⟨e, -⟩ | ⟨r, ev, hr, hA, -⟩
  · rw [e] at he
    cases he
  obtain ⟨hb', hev⟩ := (hA.sinks b).1 hb
  have hd : b ∈ r.freed.blockToSlot := by
    rcases lifecycle_cases hr with rfl | ⟨flush, hfl, rfl⟩
    · have hd := hs b (sink_of_mark hb' hn)
      rwa [← mark_blockToSlot cfg cam s] at hd
    · rw [freed_sinks] at hb'
      have hd := hs b (sink_of_mark (mem_reclaim_sinks.1 hb').1 hn)
      rw [← mark_blockToSlot cfg cam s] at hd
      exact (reclaim_keeps_sink hfl hd hn hb').1
  obtain ⟨slot, hslot⟩ := Dict.mem_iff_get?.1 hd
  exact Dict.mem_of_get? ((hA.kept_of_notMem hd hev).trans hslot)

/-- The tiles with tokens of the batch's requests, without the first tile of each. -/
def AttnMetadata.laterTiles (cfg : Config) (cam : AttnMetadata) : List ℕ :=
  cam.rows.flatMap fun r =>
    (List.range' 1 ((r.seqLen + cfg.group - 1) / cfg.group - 1)).filterMap (rowTile cfg r.table)

/-- The tiles that were written last as a tile that is no request's first one. -/
def Event.later (cfg : Config) (later : List ℕ) : Event → List ℕ
  | .build _ _ cam => (later ++ cam.written cfg).filter fun b =>
      b ∈ cam.written cfg → b ∉ cam.firstTiles cfg
  | .ensurePool _ => later

/-- The call does not raise. It writes no sink that is neither retired nor a first tile of the
batch; and what a request holds behind its first tile was written there. -/
def Event.Meets (cfg : Config) (s : GroupState) (later : List ℕ) : Event → Prop
  | .build fast ord cam => (Tile.build cfg fast ord cam s).error = none ∧
      (∀ b ∈ cam.written cfg, b ∈ s.sinks → b ∈ s.retiredSinks ∨ b ∈ cam.firstTiles cfg) ∧
      ∀ b ∈ cam.laterTiles cfg, b ∈ cam.firstTiles cfg ∨ b ∈ cam.written cfg ∨ b ∈ later
  | .ensurePool _ => True

/-- Every call of the sequence is such a one. -/
def RunMeets (cfg : Config) : GroupState → List ℕ → List Event → Prop
  | _, _, [] => True
  | s, later, e :: evs => e.Meets cfg s later ∧ RunMeets cfg (e.apply cfg s) (e.later cfg later) evs

/-- What the labels say between calls. -/
structure Labels (later : List ℕ) (s : GroupState) : Prop where
  resident : ∀ b ∈ s.sinks, b ∈ s.blockToSlot
  later : ∀ b ∈ later, b ∉ s.sinks

variable {later : List ℕ} {e : Event}

/-- The marking leaves no label on a later tile. -/
theorem notMem_mark_sinks (hl : Labels later s)
    (hreuse : ∀ b ∈ cam.written cfg, b ∈ s.sinks → b ∈ s.retiredSinks ∨ b ∈ cam.firstTiles cfg)
    (hb : b ∈ later ∨ b ∈ cam.written cfg) (hfirst : b ∈ cam.written cfg → b ∉ cam.firstTiles cfg) :
    b ∉ (mark cfg cam s).state.sinks := by
  intro hmark
  obtain ⟨hsink, hkeep⟩ := mem_mark_sinks.1 hmark
  have hs : b ∈ s.sinks := hsink.resolve_right fun hx => hfirst hx.2 hx.1
  -- a written tile sheds the label of a retired sink
  have hwr : b ∉ cam.written cfg := fun hwr => hkeep
    ⟨(hreuse b hwr hs).resolve_right (hfirst hwr), mem_mark_needed.2 (Or.inl hwr), hfirst hwr⟩
  exact hl.later b (hb.resolve_right hwr) hs

theorem mark_sinks_of_build (h : s.Inv cfg) (he : (build cfg fast ord cam s).error = none)
    (hb : b ∈ (build cfg fast ord cam s).state.sinks) : b ∈ (mark cfg cam s).state.sinks := by
  rcases build_cases fast ord cam h with ⟨e, -⟩ | ⟨r, ev, hr, hA, -⟩
  · rw [e] at he
    cases he
  have hb' := ((hA.sinks b).1 hb).1
  rcases lifecycle_cases hr with rfl | ⟨flush, hfl, rfl⟩
  · exact hb'
  · rw [freed_sinks] at hb'
    exact (mem_reclaim_sinks.1 hb').1

/-- **Step**: a call keeps what the labels say. -/
theorem Event.Meets.labels (h : s.Inv cfg) (hl : Labels later s) (he : e.Meets cfg s later) :
    Labels (e.later cfg later) (e.apply cfg s) := by
  cases e with
  | build fast ord cam =>
    refine ⟨fun b hb => build_sinks_resident h hl.resident he.1 hb, fun b hb hs => ?_⟩
    simp only [Event.later, List.mem_filter, List.mem_append, decide_eq_true_eq] at hb
    exact notMem_mark_sinks hl he.2.1 hb.1 hb.2 (mark_sinks_of_build h he.1 hs)
  | ensurePool hint =>
    refine ⟨fun b hb => ?_, fun b hb => ?_⟩
    · simp only [Event.apply, ensurePool_sinks, ensurePool_blockToSlot] at hb ⊢
      exact hl.resident b hb
    · simp only [Event.apply, ensurePool_sinks]
      exact hl.later b hb

/-- **Run**: the same before the last call of a sequence. -/
theorem RunMeets.labels {evs : List Event} (h : s.Inv cfg) (hl : Labels later s)
    (hr : RunMeets cfg s later (evs ++ [e])) :
    ∃ later', Labels later' (run cfg s evs) ∧ e.Meets cfg (run cfg s evs) later' := by
  induction evs generalizing s later with
  | nil => exact ⟨later, hl, hr.1⟩
  | cons e' evs ih => exact ih (e'.apply_inv h) (hr.1.labels h hl) hr.2

/-- **Sinks are first tiles.** After every engine build of a run that meets the condition in
every call: every sink is retired or the first tile of a request of the batch; and no tile of a
request behind its first one was exempt from flushing in the build, or will be in the next. -/
theorem sinks_first_tiles (cfg : Config) (poolSize : ℕ) (evs : List Event) (ord : SetOrder)
    (cam : AttnMetadata) (hrun : RunMeets cfg (.init poolSize) [] (evs ++ [.build false ord cam])) :
    (∀ b ∈ (build cfg false ord cam (run cfg (.init poolSize) evs)).state.sinks,
      b ∈ (build cfg false ord cam (run cfg (.init poolSize) evs)).state.retiredSinks ∨
        b ∈ cam.firstTiles cfg) ∧ ∀ b ∈ cam.laterTiles cfg, b ∉ cam.firstTiles cfg →
      b ∉ (mark cfg cam (run cfg (.init poolSize) evs)).state.sinks ∧
      b ∉ (build cfg false ord cam (run cfg (.init poolSize) evs)).state.sinks := by
  have hinv := run_inv (inv_init cfg poolSize) evs
  obtain ⟨later, hl, hret, hreuse, hheld⟩ := hrun.labels (inv_init cfg poolSize)
    ⟨by simp [init], by simp⟩
  generalize run cfg (.init poolSize) evs = s at *
  refine ⟨fun b hb => ?_, fun b hb hfirst => ?_⟩
  · by_contra hx
    obtain ⟨hret', hfirst⟩ := not_or.1 hx
    rcases build_cases false ord cam hinv with ⟨e, -⟩ | ⟨r, ev, hr, hA, -⟩
    · rw [e] at hret
      cases hret
    obtain ⟨flush, hfl, rfl⟩ := lifecycle_engine hr
    obtain ⟨hb', hev⟩ := (hA.sinks b).1 hb
    rw [freed_sinks] at hb'
    have hmark := (mem_reclaim_sinks.1 hb').1
    by_cases hn : b ∈ (mark cfg cam s).needed
    · -- a needed tile that is no first tile is written
      have hwr : b ∈ cam.written cfg :=
        (mem_mark_needed.1 hn).resolve_right fun hx => hfirst hx.1
      exact notMem_mark_sinks hl hreuse (Or.inr hwr) (fun _ => hfirst) hmark
    · -- the reclaim retires every sink it leaves its label
      have hd := hl.resident b (sink_of_mark hmark hn)
      rw [← mark_blockToSlot cfg cam s] at hd
      have hkeys := (reclaim_keeps_sink hfl hd hn hb').2
      rw [← freed_retiredSinks, Dict.mem_def, hA.retired, List.mem_append] at hkeys
      exact hret' (hkeys.resolve_left hev)
  · have hmark := notMem_mark_sinks hl hreuse ((hheld b hb).resolve_left hfirst).symm
      fun _ => hfirst
    exact ⟨hmark, fun hx => hmark (mark_sinks_of_build hinv hret hx)⟩

namespace Recycle

/-- One request of `n` tokens, all of them written, in blocks of 64. -/
def fresh (n : ℕ) (row : List ℕ) : AttnMetadata :=
  ⟨[n], some [0, n], [row.map Int.ofNat], row.length,
    (List.range n).map fun p => ((row.getD (p / 64) 0 * 64 + p % 64 : ℕ) : ℤ), by simp⟩

/-- The request in blocks 2, 1 and 3 decodes its 130th token. -/
def decode : AttnMetadata := ⟨[130], some [0, 1], [[2, 1, 3]], 3, [193], by decide⟩

end Recycle

open Recycle

/-- A finished request's full sink is retired, and block 1 is used again as the second tile of
the next request, which then decodes: its tiles 1 and 3 are no sinks. -/
theorem sinks_first_tiles_retired :
    let evs : List Event := [.build false .insertion (fresh 64 [1]),
      .build false .insertion (fresh 1 [4]), .build false .insertion (fresh 129 [2, 1, 3])]
    1 ∈ (run g64 (.init 10) (evs.take 2)).retiredSinks ∧
    ∀ b ∈ decode.laterTiles g64, b ∉ decode.firstTiles g64 →
      b ∉ (mark g64 decode (run g64 (.init 10) evs)).state.sinks ∧
      b ∉ (build g64 false .insertion decode (run g64 (.init 10) evs)).state.sinks := by
  refine ⟨by decide +kernel, (sinks_first_tiles g64 10 _ .insertion decode ?_).2⟩
  exact ⟨by unfold Event.Meets; decide +kernel, by unfold Event.Meets; decide +kernel,
    by unfold Event.Meets; decide +kernel, by unfold Event.Meets; decide +kernel, trivial⟩

/-- Block 1 is the first of a request that ends, and the second of the one that starts in the
next step: it stays a sink. Once the new request has moved on, its second tile is full and
committed, and is not flushed. -/
theorem recycled_sink_label :
    let s := run g64 (.init 10) [.build false .insertion (fresh 1 [1]),
      .build false .insertion (fresh 129 [2, 1, 3])]
    1 ∈ s.sinks ∧ 1 ∉ s.retiredSinks ∧ 1 ∉ (fresh 129 [2, 1, 3]).firstTiles g64 ∧
    (build g64 false .insertion decode s).error = none ∧
    (build g64 false .insertion decode s).flushed = [] := by
  decide +kernel

end KVarN.Tile
