import KVarN.Tile.Writes

/-!
# What KVarN promises of its tiles

The results about runs of the engine. `read_through` is the promise the backend
makes: with every live request in every batch, and blocks adopted only once they
are written, the kernels read what was written. It fails for a request that a
batch leaves out while its last tile is partly filled, since the reclaim takes
absence from a batch for the end of the request (`omitted_tail_lost`), and holds
whenever no such request is left out (`read_through_omitting`).

The pool is exhausted by batches within the limits it was sized for
(`spec_window_exhausts`); `exhausted_iff_demand` says by which.
-/

namespace KVarN.Tile

open Engine GroupState List

variable {V R : Type} {cfg : Config} {quant : (Fin cfg.group → V) → R}

/-! ## Conditions on a step -/

section Conditions

variable {e : Engine V R} {pl : Plan V}

/-- Blocks are adopted from the prefix cache only, not from a request that
completes them in the same step. -/
def Plan.Earlier (cfg : Config) (e : Engine V R) (pl : Plan V) : Prop :=
  ∀ s ∈ pl.batch, ∀ j < s.origin.adopted.length, AdoptsDone cfg e pl s j

/-- A request of the batch writes into the tile row. -/
def Plan.Writes (cfg : Config) (pl : Plan V) (τ : ℕ) : Prop :=
  ∃ w ∈ pl.batch, ∃ t, w.Writes cfg t ∧ cfg.tile w.row t = some τ

/-- Below the committed boundary of a request, a tile from which up to the
boundary every tile holds a slot, and none is a sink except a recycled retired
one, is not written in this step. -/
def Plan.BoundarySafe (cfg : Config) (e : Engine V R) (pl : Plan V) : Prop :=
  ∀ s ∈ pl.batch, ∀ t, 1 ≤ t → t < s.committed / cfg.group →
    (∀ u, t ≤ u → u < s.committed / cfg.group → ∃ b, cfg.tile s.row u = some b ∧
      b ∈ e.group.blockToSlot ∧ (b ∈ e.group.sinks → b ∈ e.group.retiredSinks ∧ pl.Writes cfg b)) →
    ∀ τ, cfg.tile s.row t = some τ → ¬pl.Writes cfg τ

theorem Plan.BoundarySafe.flushSafe (hv : pl.Valid cfg e) (h : pl.BoundarySafe cfg e) :
    pl.FlushSafe cfg e := by
  intro τ hw hr
  obtain ⟨s, hs, t, h₁, h₂, hτ, hto⟩ := (reached_cam hv).1 hr
  refine h s hs t h₁ h₂ (fun u hu hu' => ?_) τ hτ ((mem_written_cam hv).1 hw)
  obtain ⟨b, hb, hd, hns⟩ := hto u hu hu'
  refine ⟨b, hb, by simpa using hd, fun hsink => ?_⟩
  -- the label was there and is gone after the marking: the tile was un-retired
  have hun : b ∈ e.group.retiredSinks ∧ b ∈ (mark cfg (pl.cam cfg) e.group).needed ∧
      b ∉ (pl.cam cfg).firstTiles cfg := by
    by_contra hx
    exact hns (mem_mark_sinks.2 ⟨Or.inl hsink, hx⟩)
  refine ⟨hun.1, (mem_written_cam hv).1 ?_⟩
  exact (mem_mark_needed.1 hun.2.1).resolve_right fun hx => hun.2.2 hx.1

/-- With adoption from the prefix cache only, no tile below a committed boundary is
written. -/
theorem Plan.Earlier.unwritten (hL : Layout cfg e.live e.done) (hv : pl.Valid cfg e)
    (h : pl.Earlier cfg e) {s : Sched V} (hs : s ∈ pl.batch) {t τ : ℕ}
    (ht : t < s.committed / cfg.group) (hτ : cfg.tile s.row t = some τ) : ¬pl.Writes cfg τ := by
  rintro ⟨w, hw, t', hwr, hτ'⟩
  obtain ⟨b, hb, hb', -⟩ := tile_inj hτ hτ'
  rcases row_cases hb with hown | hadopt
  · obtain ⟨rfl, rfl⟩ := owner_writes hL hv hs hw hwr hτ' hτ hb hown
    exact absurd hwr.1 (not_le.2 ht)
  · obtain ⟨d, hd, hdb, -, -, hf⟩ := h s hs _ (List.getElem?_eq_some_iff.1 hadopt.2).1
    obtain rfl : d.block = b := Option.some.inj (hdb.symm.trans hadopt.2)
    exact absurd (cached_not_progress hL hv hd hf hw hb') (not_le.2 (writes_progress hwr))

theorem Plan.Earlier.boundarySafe (hL : Layout cfg e.live e.done) (hv : pl.Valid cfg e)
    (h : pl.Earlier cfg e) : pl.BoundarySafe cfg e :=
  fun _ hs _ _ ht _ _ hτ => h.unwritten hL hv hs ht hτ

theorem Plan.earlier_of_no_adoption (h : ∀ s ∈ pl.batch, s.origin.adopted = []) :
    pl.Earlier cfg e := by
  intro s hs j hj
  rw [h s hs] at hj
  exact absurd hj (Nat.not_lt_zero j)

theorem Plan.omitSafe_of_full (h : pl.omitted = []) : pl.OmitSafe cfg e := by
  intro q hq
  rw [h] at hq
  exact absurd hq not_mem_nil

end Conditions

/-! ## Reading through -/

/-- **KVarN read-through.** In runs where every batch has every live request and
blocks are adopted only from requests that finished writing them in an earlier
step, with speculative tokens rejected and rewritten and freed block ids reused at
will: after the writes of every step that did not raise, the source the kernels
select for any position of any request of the batch holds the request's token. -/
theorem read_through (poolSize : ℕ) {e : Engine V R} {pl : Plan V}
    (hreach : Reach cfg quant poolSize (fun e pl => pl.omitted = [] ∧ pl.Earlier cfg e) e)
    (hv : pl.Valid cfg e) (hfull : pl.omitted = []) (hearlier : pl.Earlier cfg e)
    (hret : (e.build cfg pl).error = none) {b : ℕ} {s : Sched V} (hb : pl.batch[b]? = some s)
    {p : ℕ} (hp : p < s.vals.length) : Holds cfg quant s.vals p
      (select (e.step cfg quant pl).group (e.step cfg quant pl).mem
        (tileRowTable cfg (pl.cam cfg) b (p / cfg.group)) (p % cfg.group)) := by
  have hok : e.Ok cfg quant := reach_ok (fun e pl hok hv hp =>
    ⟨(hp.2.boundarySafe hok.layout hv).flushSafe hv, Plan.omitSafe_of_full hp.1⟩) hreach
  exact select_holds (hok.ready hv ((hearlier.boundarySafe hok.layout hv).flushSafe hv)
    (Plan.omitSafe_of_full hfull)) hret hb hp

/-- The memory of a deployment before anything is written. -/
def zeroed : Memory ℕ (List ℕ) := ⟨fun _ _ => 0, fun _ => [], fun _ _ => none⟩

namespace Skip

/-- The tokens `k + 1`, …, `k + n`. -/
def tokens (k n : ℕ) : List ℕ := range' (k + 1) n

variable (n : ℕ)

/-- The first request after `n` tokens. -/
def req : Req ℕ := ⟨[1, 2], n, tokens 0 n⟩

/-- It is admitted with `n` tokens. -/
def enter : Sched ℕ := ⟨.admitted [] [], [1, 2], tokens 0 n, n⟩

def decode : Sched ℕ := ⟨.running (req n) n, [], tokens n 1, n + 1⟩

def prompt : Plan ℕ := ⟨[enter n], [], [], 64, .insertion⟩

def goOn : Plan ℕ := ⟨[decode n], [], [], 64, .insertion⟩

/-- A second request is admitted in a step that leaves the first one out. -/
def skip : Plan ℕ := ⟨[⟨.admitted [] [], [5], [7], 1⟩], [(req n, n)], [], 64, .insertion⟩

def resume : Plan ℕ :=
  ⟨[decode n, ⟨.running ⟨[5], 1, [7]⟩ 1, [], [8], 2⟩], [], [], 64, .insertion⟩

def prompted : Engine ℕ (List ℕ) :=
  (start 128 zeroed).step g64 ofFn (prompt n)

def skipped : Engine ℕ (List ℕ) := (prompted n).step g64 ofFn (skip n)

def resumed : Engine ℕ (List ℕ) := (skipped n).step g64 ofFn (resume n)

end Skip

open Skip

/-- A token of a prompt of 100 is read back in the next step. -/
theorem read_through_prompt : Holds g64 ofFn (decode 100).vals 5
      (select ((prompted 100).step g64 ofFn (goOn 100)).group
        ((prompted 100).step g64 ofFn (goOn 100)).mem
        (tileRowTable g64 ((goOn 100).cam g64) 0 (5 / g64.group)) (5 % g64.group)) := by
  have hreach : Reach g64 ofFn 128 (fun e pl => pl.omitted = [] ∧ pl.Earlier g64 e)
      (prompted 100) :=
    .step (.start zeroed) (by decide +kernel)
      ⟨rfl, Plan.earlier_of_no_adoption (by decide +kernel)⟩
  have hv : (goOn 100).Valid g64 (prompted 100) := by decide +kernel
  have hearlier : (goOn 100).Earlier g64 (prompted 100) :=
    Plan.earlier_of_no_adoption (by decide +kernel)
  have hret : ((prompted 100).build g64 (goOn 100)).error = none := by decide +kernel
  have hp : 5 < (decode 100).vals.length := by decide +kernel
  exact read_through 128 hreach hv rfl hearlier hret (b := 0) (s := decode 100) rfl hp

/-! ### Batches that leave requests out -/

/-- A request of 65 tokens is left out of one batch. When it is scheduled again, the
slot of its second tile has been given away and position 64 reads as unwritten. -/
theorem omitted_tail_lost : (prompt 65).Valid g64 (start 128 zeroed) ∧
    (skip 65).Valid g64 (prompted 65) ∧ (resume 65).Valid g64 (skipped 65) ∧
    ((skipped 65).build g64 (resume 65)).error = none ∧ (req 65).vals[64]? = some 65 ∧
    select (resumed 65).group (resumed 65).mem
      (tileRowTable g64 ((resume 65).cam g64) 0 1) 0 = .pool 0 := by
  refine ⟨?_, ?_, ?_, ?_, rfl, ?_⟩ <;> decide +kernel

/-- **Read-through with requests left out.** Also in runs whose batches leave live
requests out and whose requests adopt blocks in the step that completes them, every
position of every scheduled request is read back, provided that each step keeps
`BoundarySafe` and `OmitSafe`. -/
theorem read_through_omitting (poolSize : ℕ) {e : Engine V R} {pl : Plan V}
    (hreach : Reach cfg quant poolSize (fun e pl => pl.BoundarySafe cfg e ∧ pl.OmitSafe cfg e) e)
    (hv : pl.Valid cfg e) (hsafe : pl.BoundarySafe cfg e) (homit : pl.OmitSafe cfg e)
    (hret : (e.build cfg pl).error = none) {b : ℕ} {s : Sched V} (hb : pl.batch[b]? = some s)
    {p : ℕ} (hp : p < s.vals.length) : Holds cfg quant s.vals p
      (select (e.step cfg quant pl).group (e.step cfg quant pl).mem
        (tileRowTable cfg (pl.cam cfg) b (p / cfg.group)) (p % cfg.group)) := by
  have hok : e.Ok cfg quant := reach_ok (fun e pl _ hv hp => ⟨hp.1.flushSafe hv, hp.2⟩) hreach
  exact select_holds (hok.ready hv (hsafe.flushSafe hv) homit) hret hb hp

/-- A request that is left out after exactly one tile is read back. -/
theorem read_through_skip : Holds g64 ofFn (decode 64).vals 63
      (select (resumed 64).group (resumed 64).mem
        (tileRowTable g64 ((resume 64).cam g64) 0 (63 / g64.group)) (63 % g64.group)) := by
  have hsafe : ∀ (pl : Plan ℕ) (e : Engine ℕ (List ℕ)), (∀ s ∈ pl.batch, s.committed / 64 ≤ 1) →
      pl.BoundarySafe g64 e :=
    fun _ _ h s hs _ h₁ h₂ => absurd (h s hs) (not_le.2 (lt_of_le_of_lt h₁ h₂))
  have homit : ∀ (pl : Plan ℕ) (e : Engine ℕ (List ℕ)), (∀ q ∈ pl.omitted, q.2 % 64 = 0) →
      pl.OmitSafe g64 e := fun _ _ h q hq => Or.inl (h q hq)
  have hreach : Reach g64 ofFn 128 (fun e pl => pl.BoundarySafe g64 e ∧ pl.OmitSafe g64 e)
      (skipped 64) :=
    .step (.step (.start zeroed) (by decide +kernel)
      ⟨hsafe _ _ (by decide +kernel), homit _ _ (by decide)⟩) (by decide +kernel)
      ⟨hsafe _ _ (by decide +kernel), homit _ _ (by decide +kernel)⟩
  have hv : (resume 64).Valid g64 (skipped 64) := by decide +kernel
  have hret : ((skipped 64).build g64 (resume 64)).error = none := by decide +kernel
  have hp : 63 < (decode 64).vals.length := by decide +kernel
  exact read_through_omitting 128 hreach hv (hsafe _ _ (by decide +kernel))
    (homit _ _ (by decide +kernel)) hret (b := 0) (s := decode 64) rfl hp

/-! ## Exhaustion -/

section Exhaustion

variable {e : Engine V R} {pl : Plan V}

/-- The batch has at most `S` requests and schedules at most `T` query tokens. -/
def Plan.Within (S T : ℕ) (pl : Plan V) : Prop :=
  pl.batch.length ≤ S ∧ (pl.batch.map fun s => s.query.length).sum ≤ T
  deriving Decidable

/-- The allocator invariant holds along every run, whatever the plans. -/
theorem reach_inv {poolSize : ℕ} {P : Engine V R → Plan V → Prop}
    (h : Reach cfg quant poolSize P e) : e.group.Inv cfg ∧ e.group.poolSize = poolSize := by
  induction h with
  | start mem => exact ⟨inv_init cfg poolSize, rfl⟩
  | @step e pl _ hv _ ih =>
    have hinv : (e.build cfg pl).state.Inv cfg := build_inv false pl.order (pl.cam cfg) ih.1
    have hpool : (e.build cfg pl).state.poolSize = poolSize :=
      (build_poolSize ih.1 false pl.order (pl.cam cfg)).trans ih.2
    unfold step
    split
    · exact ⟨hinv, hpool⟩
    · exact ⟨hinv.ensurePool _, (ensurePool_poolSize _ _).trans hpool⟩

/-- An engine build of a valid plan returns unless the batch's demand exceeds the pool. -/
theorem build_error_iff (hI : e.group.Inv cfg) (hv : pl.Valid cfg e) :
    (e.build cfg pl).error = none ↔ (demand cfg (pl.cam cfg) e.group).card ≤ e.group.poolSize := by
  rw [← not_iff_not, not_le]
  exact engine_exhausted_iff hI (walkReturns_cam hv _)

theorem build_exhausted_iff (hI : e.group.Inv cfg) (hv : pl.Valid cfg e) :
    (e.build cfg pl).error = some .poolExhausted ↔
      e.group.poolSize < (demand cfg (pl.cam cfg) e.group).card := by
  rw [← not_le, ← build_error_iff hI hv]
  refine ⟨fun he hx => ?_, fun hx => ?_⟩
  · rw [hx] at he; cases he
  · obtain ⟨flush, ev, -, -, hA, -⟩ := engine_cases hI (walkReturns_cam hv _) pl.order
    exact (hA.exhausted hx).1

/-- **Exhaustion.** With the pool sized for `S` requests and `T` query tokens, along
every run a build raises "pool exhausted" exactly when the tiles the batch's query
tokens fall into, together with those first tiles of its requests that are sinks,
outnumber the slots. -/
theorem exhausted_iff_demand (S T : ℕ) {P : Engine V R → Plan V → Prop}
    (hreach : Reach cfg quant (poolSlots cfg.group S T) P e) (hv : pl.Valid cfg e) :
    (e.build cfg pl).error = some .poolExhausted ↔
      poolSlots cfg.group S T < (demand cfg (pl.cam cfg) e.group).card := by
  obtain ⟨hI, hpool⟩ := reach_inv hreach
  rw [build_exhausted_iff hI hv, hpool]

end Exhaustion

/-- The step after a prompt of 100 tokens, on the pool for one request. -/
theorem exhausted_iff_demand_prompt :
    (((start (poolSlots 64 1 100) zeroed).step g64 ofFn (prompt 100)).build g64 (goOn 100)).error =
        some .poolExhausted ↔ poolSlots 64 1 100 < (demand g64 ((goOn 100).cam g64)
      ((start (poolSlots 64 1 100) zeroed).step g64 ofFn (prompt 100)).group).card := by
  have hreach : Reach g64 ofFn (poolSlots 64 1 100) (fun _ pl => pl.omitted = [])
      ((start (poolSlots 64 1 100) zeroed).step g64 ofFn (prompt 100)) :=
    .step (.start zeroed) (by decide +kernel) rfl
  exact exhausted_iff_demand 1 100 hreach (by decide +kernel)

/-! ### A speculative window that exhausts the pool

Eighteen requests run in lockstep on a pool sized for eighteen requests and 576
query tokens, 53 slots. Their prompts of 127 tokens take four steps. Then each
verifies one speculative token: positions 127 and 128 fall into two tiles, and
with the sink that is three tiles a request, 54 in all. -/

namespace Lockstep

/-- The blocks of request `i` for `n` tokens, from its block `k` on. -/
def blocks (i k n : ℕ) : List ℕ := (range' k ((n + 63) / 64 - k)).map fun j => 3 * i + j + 1

/-- Request `i` with `n` tokens. -/
def req (n i : ℕ) : Req Unit := ⟨blocks i 0 n, n, replicate n ()⟩

/-- All requests go from `n` to `n + q` tokens. -/
def plan (n q : ℕ) : Plan Unit where
  batch := (range 18).map fun i =>
    { origin := if n = 0 then .admitted [] [] else .running (req n i) n
      fresh := blocks i ((n + 63) / 64) (n + q)
      query := replicate q ()
      sure := n + q }
  omitted := []
  finished := []
  btCols := 64
  order := .insertion

/-- Any engine in which the requests have `n` tokens. -/
def view (n : ℕ) : Engine Unit Unit :=
  ⟨.init 53, ⟨fun _ _ => (), fun _ => (), fun _ _ => none⟩,
    if n = 0 then [] else (range 18).map (req n), [], fun _ => 0⟩

/-- What is needed of a state of the run: the requests have `n` tokens each, and
once they have some their first tiles are sinks. -/
structure At (n : ℕ) (e : Engine Unit Unit) : Prop where
  reach : Reach g64 (fun _ => ()) (poolSlots 64 18 576)
    (fun e pl => pl.omitted = [] ∧ pl.Within 18 576 ∧ (e.build g64 pl).error = none) e
  live : e.live = (view n).live
  sinks : 0 < n → ∀ i < 18, 3 * i + 1 ∈ e.group.sinks

theorem At.valid {n q : ℕ} {e : Engine Unit Unit} (h : At n e)
    (hv : (plan n q).Valid g64 (view n)) :
    (plan n q).Valid g64 e := by
  refine hv.of_live h.live fun s hs => ?_
  obtain ⟨i, -, rfl⟩ := mem_map.1 hs
  dsimp only
  split <;> rfl

/-- The lockstep run takes one more step, if the tiles it can need fit. -/
theorem At.step {n q : ℕ} {e : Engine Unit Unit} (h : At n e)
    (hv : (plan n q).Valid g64 (view n)) (hlim : (plan n q).Within 18 576)
    (hlive : (plan n q).batch.map Sched.req = (view (n + q)).live)
    (hfirst : ∀ i < 18, 3 * i + 1 ∈ ((plan n q).cam g64).firstTiles g64 ∧
      (0 < n ∨ 3 * i + 1 ∈ ((plan n q).cam g64).written g64))
    (hfit : (((plan n q).cam g64).written g64 ++ ((plan n q).cam g64).firstTiles g64).toFinset.card
      ≤ 53) : At (n + q) (e.step g64 (fun _ => ()) (plan n q)) := by
  have hval := h.valid hv
  obtain ⟨hI, hpool⟩ := reach_inv h.reach
  have hret : (e.build g64 (plan n q)).error = none := by
    rw [build_error_iff hI hval, hpool]
    refine le_trans (Finset.card_le_card fun b hb => ?_) hfit
    simp only [demand, Finset.mem_union, Finset.mem_filter, mem_toFinset] at hb
    simp only [mem_toFinset, mem_append]
    exact hb.imp_right And.left
  refine ⟨.step h.reach hval ⟨rfl, hlim, hret⟩, ?_, fun _ i hi => ?_⟩
  · rw [step_returned _ hret]
    exact (append_nil _).trans hlive
  · rw [step_returned _ hret]
    have hsink : 3 * i + 1 ∈ (e.build g64 (plan n q)).state.sinks :=
      build_first_sink hI (walkReturns_cam hval _) (hfirst i hi).1
        ((hfirst i hi).2.imp_left fun hn => h.sinks hn i hi)
    simp only [atWrite, ensurePool_sinks]
    exact hsink

/-- The requests have one token less than two tiles. -/
theorem exists_at : ∃ e, At 127 e := by
  have h0 : At 0 (.start (poolSlots 64 18 576) (view 0).mem) := ⟨.start _, rfl, by decide⟩
  have h1 := h0.step (q := 32) (by decide +kernel) (by decide +kernel) (by decide +kernel)
    (by decide +kernel) (by decide +kernel)
  have h2 := h1.step (q := 32) (by decide +kernel) (by decide +kernel) (by decide +kernel)
    (by decide +kernel) (by decide +kernel)
  have h3 := h2.step (q := 32) (by decide +kernel) (by decide +kernel) (by decide +kernel)
    (by decide +kernel) (by decide +kernel)
  exact ⟨_, h3.step (q := 31) (by decide +kernel) (by decide +kernel) (by decide +kernel)
    (by decide +kernel) (by decide +kernel)⟩

end Lockstep

open Lockstep

/-- A batch of eighteen requests with 36 query tokens, on the pool sized for eighteen
requests and 576 query tokens, reached by builds that all returned, is refused. -/
theorem spec_window_exhausts : ∃ e : Engine Unit Unit, Reach g64 (fun _ => ()) (poolSlots 64 18 576)
      (fun e pl => pl.omitted = [] ∧ pl.Within 18 576 ∧ (e.build g64 pl).error = none) e ∧
    (plan 127 2).Valid g64 e ∧ (plan 127 2).Within 18 576 ∧
    (e.build g64 (plan 127 2)).error = some .poolExhausted := by
  obtain ⟨e, h⟩ := exists_at
  have hv := h.valid (q := 2) (by decide +kernel)
  refine ⟨e, h.reach, hv, by decide +kernel, ?_⟩
  obtain ⟨hI, hpool⟩ := reach_inv h.reach
  rw [build_exhausted_iff hI hv, hpool]
  have hcard : 53 < (((plan 127 2).cam g64).written g64 ++
      ((plan 127 2).cam g64).firstTiles g64).toFinset.card := by decide +kernel
  have hfirst : ∀ b ∈ ((plan 127 2).cam g64).firstTiles g64, ∃ i < 18, b = 3 * i + 1 := by
    decide +kernel
  refine lt_of_lt_of_le hcard (Finset.card_le_card fun b hb => ?_)
  simp only [mem_toFinset, mem_append] at hb
  simp only [demand, Finset.mem_union, Finset.mem_filter, mem_toFinset]
  refine hb.imp_right fun hf => ⟨hf, ?_⟩
  obtain ⟨i, hi, rfl⟩ := hfirst b hf
  exact h.sinks (by decide) i hi

end KVarN.Tile
