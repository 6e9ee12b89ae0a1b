import KVarN.Lib.Outcome
import KVarN.Lib.TiledLoop
import KVarN.Mla.Builder

/-!
# The builder's fast skip

A decode step inside a tile skips the builder's work. The skip looks at the lengths only,
by their place in the batch. This module compares the run that skips with the run that
never does, in lockstep: they differ in nothing but how full the blocks are recorded to be,
and there they agree on which blocks are complete.

The skip is late after a step that completes a tile and goes on into the next: the
completed tile keeps its slot, where the full build packs it.

## Main definitions

* `WellFormed`, `Continues`, `ValidRun` — the batches of a run.
* `Config.always` — the deployment that never skips.
* `Settled` — a row that did not complete a tile and go on.

## Main results

* `run_skip_eq_run_always` — skipping changes nothing, in runs that skip after settled
  steps only.
* `run_slots` — no two blocks share a slot, and none is lost.
-/

namespace KVarN.Mla

open KVarN.Lib State Row Scan List Nat

universe u v

/-- The rows of one step, and what the step's tokens are. -/
structure Step (α : Type u) where
  rows : List Row
  tokens : ℕ → ℕ → α

/-- A batch without speculative tokens: the blocks of its tokens are allocated, and a block
that receives writes is in one place of one row, or complete after the step: other requests may
join on it. -/
structure WellFormed (G : ℕ) (rows : List Row) : Prop where
  reqs_nodup : (rows.map req).Nodup
  queryLen_pos : ∀ r ∈ rows, 0 < r.queryLen
  queryLen_le : ∀ r ∈ rows, r.queryLen ≤ r.seqLen
  covered : ∀ r ∈ rows, ∀ k, k * G < r.seqLen → ∃ bid, r.block k = some bid
  exclusive : ∀ r ∈ rows, ∀ r' ∈ rows, ∀ k k' bid,
    r.WritesTo G k bid → r.seqLen < (k + 1) * G → r'.block k' = some bid → r = r' ∧ k = k'

/-- A batch contains every live request: a row goes on where its request was, with a block
table that only grows, or joins with a context of whole blocks. -/
def Continues (G : ℕ) (last rows : List Row) : Prop :=
  ∀ r' ∈ rows, (∃ r ∈ last, r.req = r'.req ∧ r'.committed = r.seqLen ∧
      ∀ k bid, r.block k = some bid → r'.block k = some bid) ∨
    (∀ r ∈ last, r.req ≠ r'.req) ∧ G ∣ r'.committed

def ValidRun {α : Type u} (G : ℕ) : List Row → List (Step α) → Prop
  | _, [] => True
  | last, b :: bs => WellFormed G b.rows ∧ Continues G last b.rows ∧ ValidRun G b.rows bs

/-- A row that did not complete a tile and go on into the next. -/
def Row.Settled (G : ℕ) (r : Row) : Prop := r.committed / G = r.seqLen / G

/-- A step that skips follows a step of settled rows. -/
def SkipsSettled {α : Type u} (G : ℕ) : List Row → List (Step α) → Prop
  | _, [] => True
  | last, b :: bs =>
    (SkipsAfter G (last.map seqLen) b.rows → ∀ r ∈ last, r.Settled G) ∧
    SkipsSettled G b.rows bs

section

variable {α : Type u} {τ : Type v} (cfg : Config α τ)

/-- One step: the builder, then the forward pass. -/
def step (s : State α τ) (b : Step α) : Except Fault (State α τ) :=
  (build cfg s b.rows).map (doKvCacheUpdate cfg b.tokens (b.rows.map fun r => (r, r.committed)))

def run : List (Step α) → State α τ → Except Fault (State α τ)
  | [], s => .ok s
  | b :: bs, s => (step cfg s b).bind (run bs)

/-- The deployment that never skips. -/
def Config.always : Config α τ := { cfg with noSkip := true }

end

/-! ## How full blocks are does not matter beyond completeness -/

section Fill

variable {α : Type u} {τ : Type v} {cfg : Config α τ}
  (bids : List ℕ) (s : State α τ) (g : ℕ → Option Fill)

/-- The state with another record of how full the blocks are. -/
def State.withFill : State α τ := { s with fill := g }

theorem allocate_withFill : allocate cfg bids (s.withFill g) = (allocate cfg bids s).map
    (·.withFill g) := by
  induction bids generalizing s with
  | nil => rfl
  | cons bid bids ih =>
    rw [allocate, allocate]
    by_cases hbid : bid ∈ s.b2s
    · rw [if_pos hbid, if_pos (show bid ∈ (s.withFill g).b2s from hbid)]
      exact ih s
    · rw [if_neg hbid, if_neg (show bid ∉ (s.withFill g).b2s from hbid)]
      cases hfree : s.free with
      | nil =>
        have hfree' : (s.withFill g).free = [] := hfree
        simp only [hfree']
        rfl
      | cons slot free =>
        have hfree' : (s.withFill g).free = slot :: free := hfree
        simp only [hfree']
        exact ih (takeSlot cfg bid slot free s)

theorem release_withFill : release bids (s.withFill g) = (release bids s).withFill fun bid => if bid
    ∈ bids then none else g bid := by
  have hfill := (release_spec bids (s.withFill g)).2.1
  have hrest : ∃ h, release bids (s.withFill g) = (release bids s).withFill h := by
    clear hfill
    induction bids generalizing s g with
    | nil => exact ⟨g, rfl⟩
    | cons bid bids ih => exact ih (releaseOne s bid) (Function.update g bid none)
  obtain ⟨h, hh⟩ := hrest
  rw [hh] at hfill ⊢
  congr 1
  funext bid
  exact hfill bid

theorem doKvCacheUpdate_withFill (tokens : ℕ → ℕ → α) (placed : List (Row × ℕ)) (s : State α τ)
    (g : ℕ → Option Fill) : doKvCacheUpdate cfg tokens placed (s.withFill g) =
      (doKvCacheUpdate cfg tokens placed s).withFill g := by
  have hstore (s : State α τ) (r : Row) (pos : ℕ) (token : α) :
      storeToken cfg (s.withFill g) r pos token = (storeToken cfg s r pos token).withFill g := by
    unfold storeToken
    dsimp only [withFill]
    split <;> rfl
  unfold doKvCacheUpdate
  induction placed generalizing s with
  | nil => rfl
  | cons p placed ih =>
    rw [foldl_cons, foldl_cons, ← ih]
    congr 1
    dsimp only
    generalize List.Ico p.2 (p.2 + p.1.queryLen) = positions
    induction positions generalizing s with
    | nil => rfl
    | cons pos positions ih' => rw [foldl_cons, foldl_cons, hstore, ih']

theorem allocate_always : allocate cfg.always bids s = allocate cfg bids s := by
  induction bids generalizing s with
  | nil => rfl
  | cons bid bids ih =>
    rw [allocate, allocate]
    simp only [ih]
    rfl

/-- A full build does not depend on the switch. -/
theorem buildFull_always (rows : List Row) : buildFull cfg.always s rows = buildFull cfg s rows :=
  allocate_always _ _

/-- Two scans that started from different records. -/
structure Scan.Agree (sc sc' : Scan) : Prop where
  needed : sc'.needed = sc.needed
  flushQ : sc'.flushQ = sc.flushQ
  fill : ∀ bid ∈ sc.needed, sc'.fill bid = sc.fill bid

namespace Scan.Agree

variable {G : ℕ} {sc sc' : Scan}

theorem need (h : sc.Agree sc') (r : Row) (k : ℕ) : (sc.need G r k).Agree (sc'.need G r k) := by
  cases hblock : r.block k with
  | none => rwa [need_of_none hblock, need_of_none hblock]
  | some bid =>
    rw [need_of_block hblock, need_of_block hblock]
    refine ⟨by rw [h.needed], h.flushQ, fun bid' hbid' => ?_⟩
    by_cases heq : bid' = bid
    · simp [heq]
    · simp only [mem_insert_iff, heq, false_or] at hbid'
      simp [heq, h.fill bid' hbid']

theorem row (h : sc.Agree sc') (b2s : Dict ℕ ℕ) (r : Row) :
    (sc.row G b2s r).Agree (sc'.row G b2s r) := by
  have htiles (ks : List ℕ) : (ks.foldl (Scan.need G r) sc).Agree
      (ks.foldl (Scan.need G r) sc') := by
    induction ks using reverseRecOn with
    | nil => exact h
    | append_singleton ks k ih =>
      rw [foldl_append, foldl_append]
      exact ih.need r k
  rw [Scan.row, Scan.row]
  split
  · exact h
  · have ht := htiles (r.tiles G)
    exact ⟨ht.needed, congrArg (walkBack b2s r (r.committed / G)) ht.flushQ, ht.fill⟩

end Scan.Agree

theorem scan_agree (G : ℕ) (b2s : Dict ℕ ℕ) (g g' : ℕ → Option Fill) (rows : List Row) :
    (scan G b2s g rows).Agree (scan G b2s g' rows) := by
  induction rows using reverseRecOn with
  | nil => exact ⟨rfl, rfl, by simp [scan]⟩
  | append_singleton rows r ih =>
    rw [scan, scan, foldl_append, foldl_append]
    exact ih.row b2s r

variable {b2s : Dict ℕ ℕ} {sc : Scan} {s} {rows : List Row}

theorem mem_idle {bid : ℕ} : bid ∈ idle b2s sc ↔ bid ∈ b2s ∧ bid ∉ sc.needed ∧ bid ∉ sc.flushQ := by
  simp [idle, Dict.mem_def]

/-- The record after the queued and the discarded blocks are released. -/
def releasedFill (flushQ discardIds : List ℕ) (g : ℕ → Option Fill) (bid : ℕ) : Option Fill :=
  if bid ∈ discardIds then none else if bid ∈ flushQ then none else g bid

/-- A full build, with the record of how full the blocks are set apart. -/
theorem buildFull_eq {flushQ discardIds : List ℕ} (hsc : scan cfg.group s.b2s s.fill rows = sc)
    (hrec : reclaim cfg.group s.b2s sc = (flushQ, discardIds)) (g : ℕ → Option Fill) :
    buildFull cfg s rows = (allocate cfg (cfg.setOrder sc.needed)
        (release discardIds (release flushQ (batchedFlush cfg flushQ (s.withFill g))))).map
          (·.withFill (releasedFill flushQ discardIds sc.fill)) := by
  have hbase : release discardIds (release flushQ (batchedFlush cfg flushQ
      (s.withFill sc.fill))) =
      (release discardIds (release flushQ (batchedFlush cfg flushQ (s.withFill g)))).withFill
        (releasedFill flushQ discardIds sc.fill) := by
    have hflush : batchedFlush cfg flushQ (s.withFill sc.fill) =
        (batchedFlush cfg flushQ (s.withFill g)).withFill sc.fill := rfl
    rw [hflush, release_withFill, release_withFill]
    rfl
  rw [← allocate_withFill, ← hbase, buildFull, hsc, hrec]
  rfl

/-- **A full build reads only which blocks are complete.** -/
theorem buildFull_withFill {g : ℕ → Option Fill} (rows : List Row)
    (h : ∀ bid ∈ s.b2s, full cfg.group g bid = full cfg.group s.fill bid) :
    ∃ g', buildFull cfg (s.withFill g) rows = (buildFull cfg s rows).map (·.withFill g') ∧
      ∀ s', buildFull cfg s rows = .ok s' → ∀ bid ∈ s'.b2s, g' bid = s'.fill bid := by
  have hagree := scan_agree cfg.group s.b2s s.fill g rows
  have hof := scan_of cfg.group_pos s.b2s s.fill rows
  have hof' := scan_of cfg.group_pos s.b2s g rows
  generalize hsc : scan cfg.group s.b2s s.fill rows = sc at hagree hof
  generalize hsc' : scan cfg.group s.b2s g rows = sc' at hagree hof'
  obtain ⟨flushQ, discardIds, hrec⟩ : ∃ q d, reclaim cfg.group s.b2s sc = (q, d) := ⟨_, _, rfl⟩
  -- the two scans find the same idle blocks, and the same complete ones among them
  have hrec' : reclaim cfg.group s.b2s sc' = (flushQ, discardIds) := by
    have hidle : idle s.b2s sc' = idle s.b2s sc := by
      rw [idle, idle, hagree.needed, hagree.flushQ]
    have hfull : ∀ bid ∈ idle s.b2s sc,
        full cfg.group sc'.fill bid = full cfg.group sc.fill bid := by
      intro bid hbid
      obtain ⟨hb2s, hneed, -⟩ := mem_idle.1 hbid
      rw [full, full, hof.fill_of_notMem bid hneed, hof'.fill_of_notMem bid (hagree.needed ▸ hneed)]
      exact h bid hb2s
    rw [← hrec, reclaim, reclaim, hidle, hagree.flushQ, filter_congr hfull,
      filter_congr fun bid hbid => congrArg (!·) (hfull bid hbid)]
  have heq := buildFull_eq hsc hrec s.fill
  have heq' := buildFull_eq (s := s.withFill g) hsc' hrec' s.fill
  refine ⟨releasedFill flushQ discardIds sc'.fill, ?_, fun s' hs' bid hbid => ?_⟩
  · rw [heq', heq, hagree.needed]
    change (allocate cfg (cfg.setOrder sc.needed) (release discardIds
      (release flushQ (batchedFlush cfg flushQ (s.withFill s.fill))))).map _ = _
    generalize allocate cfg (cfg.setOrder sc.needed) _ = x
    cases x <;> rfl
  · have hneed : bid ∈ sc.needed := (hof.needed bid).2 (((buildFull_eq_ok hs').1 bid).1 hbid)
    rw [heq] at hs'
    cases hall : allocate cfg (cfg.setOrder sc.needed) (release discardIds
        (release flushQ (batchedFlush cfg flushQ (s.withFill s.fill)))) with
    | error e => simp [hall, Except.map] at hs'
    | ok s₁ =>
      obtain rfl : s₁.withFill (releasedFill flushQ discardIds sc.fill) = s' := by
        simpa [hall, Except.map] using hs'
      simp only [withFill, releasedFill, hagree.fill bid hneed]

/-- A full build that finds the blocks with a slot written, and nothing to queue. -/
theorem buildFull_eq_self
    (hneed : ∀ bid, bid ∈ (scan cfg.group s.b2s s.fill rows).needed ↔ bid ∈ s.b2s)
    (hflush : (scan cfg.group s.b2s s.fill rows).flushQ = []) :
    buildFull cfg s rows = .ok (s.withFill (scan cfg.group s.b2s s.fill rows).fill) := by
  generalize hsc : scan cfg.group s.b2s s.fill rows = sc at hneed hflush
  have hidle : idle s.b2s sc = [] := by
    rw [eq_nil_iff_forall_not_mem]
    intro bid hbid
    obtain ⟨hb2s, hno, -⟩ := mem_idle.1 hbid
    exact hno ((hneed bid).2 hb2s)
  have hrec : reclaim cfg.group s.b2s sc = ([], []) := by
    rw [reclaim, hidle, hflush]
    rfl
  have hall : ∀ bids : List ℕ, (∀ bid ∈ bids, bid ∈ s.b2s) → allocate cfg bids s = .ok s := by
    intro bids
    induction bids with
    | nil => exact fun _ => rfl
    | cons bid bids ih =>
      intro hbids
      rw [allocate, if_pos (hbids bid mem_cons_self)]
      exact ih fun bid' hbid' => hbids bid' (mem_cons_of_mem bid hbid')
  have hself : batchedFlush cfg [] (s.withFill s.fill) = s := by
    simp [batchedFlush, withFill]
  rw [buildFull_eq hsc hrec s.fill, hself]
  simp only [release, foldl_nil]
  rw [hall _ fun bid hbid => (hneed bid).1 (cfg.mem_setOrder.1 hbid)]
  have hnone : releasedFill [] [] sc.fill = sc.fill := by
    funext bid
    simp [releasedFill]
  rw [hnone]
  rfl

theorem scan_flushQ_eq_nil {G : ℕ} (g : ℕ → Option Fill)
    (h : ∀ r ∈ rows, ∀ q, walkBack b2s r (r.committed / G) q = q) :
    (scan G b2s g rows).flushQ = [] := by
  induction rows using reverseRecOn with
  | nil => rfl
  | append_singleton rows r ih =>
    have ih' := ih fun r' hr' => h r' (mem_append_left _ hr')
    rw [scan, foldl_append, ← scan, foldl_cons, foldl_nil, row]
    split
    · exact ih'
    · dsimp only
      rw [h r (by simp), (foldl_need _ _).1, ih']

end Fill

/-! ## Rows of a step that skips -/

theorem lt_of_one_lt_mod {G n : ℕ} (hG : 0 < G) (h : 1 < (n + 1) % G) :
    n / G * G < n ∧ n + 1 < (n / G + 1) * G := by
  have hdiv := div_add_mod' n G
  have hlt := mod_lt n hG
  have hsucc : (n / G + 1) * G = n / G * G + G := succ_mul _ _
  have hmod : (n + 1) % G = (n % G + 1) % G := by rw [mod_add_mod]
  rw [hmod] at h
  rcases lt_or_ge (n % G + 1) G with hin | hout
  · rw [mod_eq_of_lt hin] at h
    omega
  · have hfull : n % G + 1 = G := by omega
    rw [hfull, mod_self] at h
    omega

/-- A row that goes on with one token inside a tile. -/
structure Row.GoesOn (G : ℕ) (r r' : Row) : Prop where
  req : r.req = r'.req
  seqLen : r'.seqLen = r.seqLen + 1
  committed : r'.committed = r.seqLen
  block : ∀ k bid, r.block k = some bid → r'.block k = some bid
  inside : 1 < (r.seqLen + 1) % G

section Skip

variable {G : ℕ} {last rows : List Row}

/-- The tile that a settled row wrote, and that it writes when it goes on. -/
theorem Row.GoesOn.writes_iff (hG : 0 < G) {r r' : Row} (h : r.GoesOn G r') (hset : r.Settled G)
    (k : ℕ) : (r.Writes G k ↔ k = r.seqLen / G) ∧ (r'.Writes G k ↔ k = r.seqLen / G) := by
  obtain ⟨hin, -⟩ := lt_of_one_lt_mod hG h.inside
  rw [Row.Writes, Row.Writes, hset, h.committed, h.seqLen]
  have hle : k * G < r.seqLen + 1 ↔ k ≤ r.seqLen / G := by
    rw [le_div_iff_mul_le hG]
    omega
  have hlt : k * G < r.seqLen → k ≤ r.seqLen / G := by
    intro hk
    rw [le_div_iff_mul_le hG]
    omega
  refine ⟨⟨fun h => le_antisymm (hlt h.2) h.1, ?_⟩, ?_⟩
  · rintro rfl
    exact ⟨le_rfl, hin⟩
  · rw [hle]
    exact ⟨fun h => le_antisymm h.2 h.1, fun h => ⟨h.ge, h.le⟩⟩

/-- Every row of a step that skips goes on: a request that joins would be at a tile
boundary. -/
theorem goesOn_of_skips (hwf : WellFormed G rows) (hcont : Continues G last rows)
    (hskip : SkipsAfter G (last.map seqLen) rows) : ∀ r' ∈ rows, ∃ r ∈ last, r.GoesOn G r' := by
  obtain ⟨htok, -, hinside⟩ := hskip
  intro r' hr'
  have hone : r'.queryLen = 1 := by
    refine TiledLoop.eq_one_of_sum_le_length (l := rows.map queryLen) ?_
      (by rw [length_map]; exact htok.le) _ (mem_map_of_mem hr')
    intro n hn
    obtain ⟨r, hr, rfl⟩ := mem_map.1 hn
    exact hwf.queryLen_pos r hr
  have hle := hwf.queryLen_le r' hr'
  have hlen : r'.seqLen = r'.committed + 1 := by
    rw [committed]
    omega
  have hin := hinside r' hr'
  rcases hcont r' hr' with ⟨r, hr, hreq, hcommitted, hblock⟩ | ⟨-, m, hm⟩
  · refine ⟨r, hr, hreq, by rw [hlen, hcommitted], hcommitted, hblock, ?_⟩
    rwa [← hcommitted, ← hlen]
  · rw [hlen, hm, add_comm, add_mul_mod_self_left] at hin
    exact absurd (hin.trans_le (mod_le 1 G)) (by decide)

/-- Every row of the step before goes on: the batch has as many rows. -/
theorem goesOn_onto (hlast : WellFormed G last) (hwf : WellFormed G rows)
    (hcont : Continues G last rows) (hskip : SkipsAfter G (last.map seqLen) rows) :
    ∀ r ∈ last, ∃ r' ∈ rows, r.GoesOn G r' := by
  have hgo := goesOn_of_skips hwf hcont hskip
  have hsub : rows.map req ⊆ last.map req := by
    intro req hreq
    obtain ⟨r', hr', rfl⟩ := mem_map.1 hreq
    obtain ⟨r, hr, h⟩ := hgo r' hr'
    exact mem_map.2 ⟨r, hr, h.req⟩
  have hlen : (last.map req).length ≤ (rows.map req).length := by
    have hlens := congrArg List.length hskip.2.1
    simp only [length_map] at hlens ⊢
    omega
  have hperm := (subperm_of_subset hwf.reqs_nodup hsub).perm_of_length_le hlen
  intro r hr
  obtain ⟨r', hr', hreq⟩ := mem_map.1 (hperm.symm.subset (mem_map_of_mem hr))
  obtain ⟨r₀, hr₀, h⟩ := hgo r' hr'
  obtain rfl : r₀ = r := inj_on_of_nodup_map hlast.reqs_nodup hr₀ hr (h.req.trans hreq)
  exact ⟨r', hr', h⟩

end Skip

/-! ## The lockstep -/

section Lockstep

variable {α : Type u} {τ : Type v} {cfg : Config α τ} {s t : State α τ} {last : List Row}

/-- What the skipping run knows of the step before: the blocks with a slot are those it
wrote, and a block is not complete before its row reached the end of the tile. -/
structure Tracks (cfg : Config α τ) (s : State α τ) (last : List Row) : Prop where
  prev : ∀ p, s.prevSeqlens = some p → p = last.map seqLen
  b2s : ∀ bid, bid ∈ s.b2s ↔ ∃ r ∈ last, ∃ k, r.WritesTo cfg.group k bid
  fill : ∀ r ∈ last, ∀ k bid, r.WritesTo cfg.group k bid → r.seqLen < (k + 1) * cfg.group →
    full cfg.group s.fill bid = false

/-- The run that never skips has the same state, but for how full incomplete blocks are. -/
def Lockstep (cfg : Config α τ) (s t : State α τ) : Prop :=
  ∃ g, t = s.withFill g ∧ ∀ bid ∈ s.b2s, full cfg.group g bid = full cfg.group s.fill bid

variable {r : Row} {k bid : ℕ} {rows : List Row}

/-- The scan of a well-formed batch records an unfinished block as such. -/
theorem full_scan (hwf : WellFormed cfg.group rows) (b2s : Dict ℕ ℕ) (g : ℕ → Option Fill)
    (hr : r ∈ rows) (hw : r.WritesTo cfg.group k bid) (hend : r.seqLen < (k + 1) * cfg.group) :
    full cfg.group (scan cfg.group b2s g rows).fill bid = false := by
  have hof := scan_of cfg.group_pos b2s g rows
  obtain ⟨r', hr', k', hw', hval⟩ := hof.fill_of_mem bid ((hof.needed bid).2 ⟨r, hr, k, hw⟩)
  obtain ⟨rfl, rfl⟩ := hwf.exclusive r hr r' hr' k k' bid hw hend hw'.2
  have hmul : (k + 1) * cfg.group = k * cfg.group + cfg.group := succ_mul k _
  have hlt := hw.1.2
  rw [full, hval, Option.elim_some, decide_eq_false_iff_not]
  simp only [fillAt]
  omega

/-- A full build of a well-formed batch. -/
theorem tracks_of_buildFull {s' : State α τ} (hwf : WellFormed cfg.group rows)
    (h : buildFull cfg (remember s rows) rows = .ok s') : Tracks cfg s' rows := by
  obtain ⟨hmem, hfill, hprev⟩ := buildFull_eq_ok h
  refine ⟨fun p hp => ?_, hmem, fun r hr k bid hw hend => ?_⟩
  · rw [hprev] at hp
    simpa [remember, eq_comm] using hp
  · rcases hfill bid ((hmem bid).2 ⟨r, hr, k, hw⟩) with ⟨hnone, -⟩ | ⟨-, hval⟩
    · rw [full, hnone]
      simpa using cfg.group_pos.ne'
    · rw [full, hval]
      exact full_scan hwf _ _ hr hw hend

section Skipped

/-- **On a step that skips, the full build has nothing to do**: it finds the blocks with a
slot written again and inside their tiles. -/
theorem skip_spec (hs : Tracks cfg s last) (hlast : WellFormed cfg.group last)
    (hwf : WellFormed cfg.group rows) (hcont : Continues cfg.group last rows)
    (hskip : SkipsAfter cfg.group (last.map seqLen) rows) (hset : ∀ r ∈ last, r.Settled cfg.group) :
    (∀ bid, bid ∈ s.b2s ↔ ∃ r ∈ rows, ∃ k, r.WritesTo cfg.group k bid) ∧
    (∀ r ∈ rows, ∀ k bid, r.WritesTo cfg.group k bid →
      r.seqLen < (k + 1) * cfg.group ∧ full cfg.group s.fill bid = false) ∧
    ∀ r ∈ rows, ∀ q, walkBack s.b2s r (r.committed / cfg.group) q = q := by
  have hG := cfg.group_pos
  have hgo := goesOn_of_skips hwf hcont hskip
  have honto := goesOn_onto hlast hwf hcont hskip
  -- a row and the row it goes on from write the same block
  have hsame : ∀ r ∈ last, ∀ r', r.GoesOn cfg.group r' → ∀ k bid,
      r.WritesTo cfg.group k bid ↔ r'.WritesTo cfg.group k bid := by
    intro r hr r' h k bid
    obtain ⟨hiff, hiff'⟩ := h.writes_iff hG (hset r hr) k
    rw [Row.WritesTo, Row.WritesTo, hiff, hiff']
    refine and_congr_right fun hk => ⟨h.block k bid, fun hb => ?_⟩
    obtain ⟨bid', hbid'⟩ := hlast.covered r hr k (hk ▸ (lt_of_one_lt_mod hG h.inside).1)
    rw [hbid', ← h.block k bid' hbid', hb]
  refine ⟨fun bid => ?_, fun r' hr' k bid hw => ?_, fun r' hr' q => ?_⟩
  · rw [hs.b2s bid]
    constructor
    · rintro ⟨r, hr, k, hw⟩
      obtain ⟨r', hr', h⟩ := honto r hr
      exact ⟨r', hr', k, (hsame r hr r' h k bid).1 hw⟩
    · rintro ⟨r', hr', k, hw⟩
      obtain ⟨r, hr, h⟩ := hgo r' hr'
      exact ⟨r, hr, k, (hsame r hr r' h k bid).2 hw⟩
  · obtain ⟨r, hr, h⟩ := hgo r' hr'
    have hk := ((h.writes_iff hG (hset r hr) k).2.1 hw.1)
    obtain ⟨-, hend⟩ := lt_of_one_lt_mod hG h.inside
    rw [← hk] at hend
    refine ⟨by rw [h.seqLen]; omega, hs.fill r hr k bid ((hsame r hr r' h k bid).2 hw) ?_⟩
    omega
  · obtain ⟨r, hr, h⟩ := hgo r' hr'
    refine walkBack_eq_self q fun k bid hk hblock hb2s => ?_
    -- the tile before is in the cache: no row wrote it in the step before
    obtain ⟨r₂, hr₂, k₂, hw₂⟩ := (hs.b2s bid).1 hb2s
    rw [h.committed] at hk
    have hlt : k * cfg.group < r.seqLen := by
      refine lt_of_le_of_lt (mul_le_mul_right _ ?_) (lt_of_one_lt_mod hG h.inside).1
      omega
    obtain ⟨bid', hbid'⟩ := hlast.covered r hr k hlt
    have hsame' : bid' = bid := by
      have := h.block k bid' hbid'
      rw [hblock] at this
      exact (Option.some.inj this).symm
    -- and the tile it wrote is unfinished
    obtain ⟨r₂', -, h₂⟩ := honto r₂ hr₂
    have hk₂ := ((h₂.writes_iff hG (hset _ hr₂) _).1.1 hw₂.1)
    obtain ⟨-, hend⟩ := lt_of_one_lt_mod hG h₂.inside
    rw [← hk₂] at hend
    obtain ⟨rfl, rfl⟩ := hlast.exclusive r₂ hr₂ r hr k₂ k bid hw₂ (by omega) (hsame' ▸ hbid')
    omega

end Skipped

section

variable (h : Lockstep cfg s t) (hs : Tracks cfg s last) (hlast : WellFormed cfg.group last)

include h hs hlast

/-- **One step in lockstep.** -/
theorem Lockstep.build {rows : List Row} (hwf : WellFormed cfg.group rows)
    (hcont : Continues cfg.group last rows)
    (hset : SkipsAfter cfg.group (last.map seqLen) rows → ∀ r ∈ last, r.Settled cfg.group) :
    (∃ s' t', Mla.build cfg s rows = .ok s' ∧ Mla.build cfg.always t rows = .ok t' ∧
      Lockstep cfg s' t' ∧ Tracks cfg s' rows) ∨
    ∃ e, Mla.build cfg s rows = .error e ∧ Mla.build cfg.always t rows = .error e := by
  obtain ⟨g, rfl, hg⟩ := h
  have halways : Mla.build cfg.always (s.withFill g) rows =
      buildFull cfg ((remember s rows).withFill g) rows := by
    rw [Mla.build, if_neg (by simp [fastSkip, Config.always]), buildFull_always]
    rfl
  rw [halways, Mla.build]
  by_cases hskip : fastSkip cfg s rows = true
  · -- the skip: the full build does nothing
    rw [if_pos hskip]
    have hafter : SkipsAfter cfg.group (last.map seqLen) rows := by
      rw [fastSkip, Bool.and_eq_true, Option.any_eq_true] at hskip
      obtain ⟨-, p, hp, hp'⟩ := hskip
      rwa [decide_eq_true_eq, hs.prev p hp] at hp'
    obtain ⟨hb2s, hfill, hwalk⟩ := skip_spec hs hlast hwf hcont hafter (hset hafter)
    have hof := scan_of cfg.group_pos s.b2s g rows
    left
    refine ⟨_, _, rfl, buildFull_eq_self (s := (remember s rows).withFill g) ?_ ?_, ?_, ?_⟩
    · intro bid
      exact (hof.needed bid).trans (hb2s bid).symm
    · exact scan_flushQ_eq_nil g hwalk
    · refine ⟨_, rfl, fun bid hbid => ?_⟩
      obtain ⟨r, hr, k, hw⟩ := (hb2s bid).1 hbid
      obtain ⟨hend, hfalse⟩ := hfill r hr k bid hw
      exact (full_scan hwf s.b2s g hr hw hend).trans hfalse.symm
    · refine ⟨fun p hp => ?_, hb2s, fun r hr k bid hw _ => (hfill r hr k bid hw).2⟩
      simpa [remember, eq_comm] using hp
  · -- both runs build
    rw [if_neg hskip]
    obtain ⟨g', hbuild, hfill⟩ := buildFull_withFill (s := remember s rows) rows hg
    rw [hbuild]
    cases hres : buildFull cfg (remember s rows) rows with
    | error e => exact Or.inr ⟨e, rfl, rfl⟩
    | ok s' =>
      refine Or.inl ⟨s', s'.withFill g', rfl, rfl, ⟨g', rfl, fun bid hbid => ?_⟩,
        tracks_of_buildFull hwf hres⟩
      rw [full, full, hfill s' hres bid hbid]

/-- The forward pass keeps the lockstep. -/
theorem Lockstep.step {b : Step α} (hwf : WellFormed cfg.group b.rows)
    (hcont : Continues cfg.group last b.rows)
    (hset : SkipsAfter cfg.group (last.map seqLen) b.rows → ∀ r ∈ last, r.Settled cfg.group) :
    (∃ s' t', Mla.step cfg s b = .ok s' ∧ Mla.step cfg.always t b = .ok t' ∧
      Lockstep cfg s' t' ∧ Tracks cfg s' b.rows) ∨
    ∃ e, Mla.step cfg s b = .error e ∧ Mla.step cfg.always t b = .error e := by
  rcases h.build hs hlast hwf hcont hset with
    ⟨s', t', hs', ht', ⟨g, rfl, hg⟩, htracks⟩ | ⟨e, h1, h2⟩
  · left
    have hkeep : doKvCacheUpdate cfg b.tokens (b.rows.map fun r => (r, r.committed)) s' = _ :=
      doKvCacheUpdate_eq ..
    refine ⟨_, _, by rw [Mla.step, hs']; rfl, by rw [Mla.step, ht']; rfl,
      ⟨g, doKvCacheUpdate_withFill .., fun bid hbid => ?_⟩, ?_⟩
    · rw [hkeep] at hbid ⊢
      exact hg bid hbid
    · rw [hkeep]
      exact ⟨htracks.prev, htracks.b2s, htracks.fill⟩
  · exact Or.inr ⟨e, by rw [Mla.step, h1]; rfl, by rw [Mla.step, h2]; rfl⟩

/-- The rule for runs. -/
theorem Lockstep.run {steps : List (Step α)} (hvalid : ValidRun cfg.group last steps)
    (hset : SkipsSettled cfg.group last steps) :
    (∃ s' t', Mla.run cfg steps s = .ok s' ∧ Mla.run cfg.always steps t = .ok t' ∧
      Lockstep cfg s' t') ∨
    ∃ e, Mla.run cfg steps s = .error e ∧ Mla.run cfg.always steps t = .error e := by
  induction steps generalizing s t last with
  | nil => exact Or.inl ⟨s, t, rfl, rfl, h⟩
  | cons b bs ih =>
    obtain ⟨hwf, hcont, hrest⟩ := hvalid
    rw [Mla.run, Mla.run]
    rcases h.step hs hlast hwf hcont hset.1 with ⟨s', t', h1, h2, h', hs'⟩ | ⟨e, h1, h2⟩
    · rw [h1, h2]
      exact ih h' hs' hwf hrest hset.2
    · rw [h1, h2]
      exact Or.inr ⟨e, rfl, rfl⟩

end

end Lockstep

/-- **The fast skip is transparent.** A run that skips and the run that never does end with
the same block-to-slot map, free slots, packed tiles and pool, or with the same exception,
when every step that skips follows a step of settled rows. -/
theorem run_skip_eq_run_always {α : Type u} {τ : Type v} (cfg : Config α τ) (int4 : ℕ → τ)
    (steps : List (Step α)) (hvalid : ValidRun cfg.group [] steps)
    (hset : SkipsSettled cfg.group [] steps) : (∃ s t, run cfg steps (init cfg int4) = .ok s ∧
      run cfg.always steps (init cfg int4) = .ok t ∧
      t.b2s = s.b2s ∧ t.free = s.free ∧ t.int4 = s.int4 ∧ t.pool = s.pool) ∨
    ∃ e, run cfg steps (init cfg int4) = .error e ∧
      run cfg.always steps (init cfg int4) = .error e := by
  have hlock : Lockstep cfg (init cfg int4) (init cfg int4) :=
    ⟨_, rfl, fun _ _ => rfl⟩
  have htracks : Tracks cfg (init cfg int4) [] :=
    ⟨by simp [init], by simp [init], by simp⟩
  have hnil : WellFormed cfg.group [] := ⟨by simp, by simp, by simp, by simp, by simp⟩
  rcases hlock.run htracks hnil hvalid hset with ⟨s, t, h1, h2, g, rfl, -⟩ | herr
  · exact Or.inl ⟨s, _, h1, h2, rfl, rfl, rfl, rfl⟩
  · exact Or.inr herr

/-- **No two blocks share a slot, and none is lost.** After every run, of any batches and with or
without skips, the slots of the blocks and the free ones are those of the pool, each once. -/
theorem run_slots {α : Type u} {τ : Type v} (cfg : Config α τ) (int4 : ℕ → τ)
    {steps : List (Step α)} {s : State α τ} (h : run cfg steps (init cfg int4) = .ok s) :
    (s.b2s.values ++ s.free).Perm (range cfg.poolSlots) := by
  suffices hrun : ∀ t, run cfg steps t = .ok s → s.slots.Perm t.slots from hrun _ h
  clear h
  induction steps with
  | nil =>
    rintro t ⟨⟩
    exact .refl _
  | cons b steps ih =>
    intro t h
    rw [run, step] at h
    cases hb : build cfg t b.rows with
    | error e =>
      rw [hb] at h
      cases h
    | ok t' =>
      rw [hb] at h
      have hslots := slots_build hb
      refine (ih _ h).trans ?_
      rwa [doKvCacheUpdate_eq]

/-! ## A request with two blocks -/

namespace Small

/-- Request 0 reaches `seqLen` tokens with `queryLen` new ones. -/
def request (seqLen queryLen : ℕ) : Step ℕ where
  rows := [⟨0, [some 0, some 1], seqLen, queryLen⟩]
  tokens := fun _ pos => pos

theorem group_pos : 0 < 128 := by decide

def deployment : Config ℕ (List ℕ) where
  group := 128
  poolSlots := 8
  noSkip := false
  noZero := false
  zero := 0
  quantise := fun tile => (range 128).map tile
  setOrder := List.reverse
  group_pos := group_pos
  mem_setOrder := mem_reverse

theorem block_request {k : ℕ} {bid seqLen queryLen : ℕ} :
    (mk 0 [some 0, some 1] seqLen queryLen).block k = some bid ↔ k < 2 ∧ bid = k := by
  rcases k with _ | _ | k <;> simp [block, eq_comm]

theorem wellFormed_request {seqLen queryLen : ℕ} (hpos : 0 < queryLen) (hle : queryLen ≤ seqLen)
    (hlen : seqLen ≤ 256) : WellFormed 128 (request seqLen queryLen).rows where
  reqs_nodup := by simp [request]
  queryLen_pos := by simpa [request] using hpos
  queryLen_le := by simpa [request] using hle
  covered := by
    simp only [request, mem_singleton]
    rintro r rfl k hk
    dsimp only at hk
    exact ⟨k, block_request.2 ⟨by omega, rfl⟩⟩
  exclusive := by
    simp only [request, mem_singleton]
    rintro r rfl r' rfl k k' bid ⟨-, hk⟩ - hk'
    rw [block_request] at hk hk'
    exact ⟨rfl, by omega⟩

theorem joins {seqLen : ℕ} : Continues 128 [] (request seqLen seqLen).rows := by
  simp [Continues, request, committed]

theorem goesOn (seqLen queryLen queryLen' : ℕ) :
    Continues 128 (request seqLen queryLen).rows (request (seqLen + queryLen') queryLen').rows := by
  simp [Continues, request, committed, block]

/-- Two requests that share their first block. -/
def twoRows (seqLen seqLen' queryLen queryLen' : ℕ) : Step ℕ where
  rows := [⟨0, [some 0, some 1, some 3], seqLen, queryLen⟩,
    ⟨1, [some 0, some 2], seqLen', queryLen'⟩]
  tokens := fun _ pos => pos

theorem block_first {k bid seqLen queryLen : ℕ} :
    (mk 0 [some 0, some 1, some 3] seqLen queryLen).block k = some bid ↔
      k = 0 ∧ bid = 0 ∨ k = 1 ∧ bid = 1 ∨ k = 2 ∧ bid = 3 := by
  rcases k with _ | _ | _ | k <;> simp [block, eq_comm]

theorem block_second {k bid seqLen queryLen : ℕ} :
    (mk 1 [some 0, some 2] seqLen queryLen).block k = some bid ↔
      k = 0 ∧ bid = 0 ∨ k = 1 ∧ bid = 2 := by
  rcases k with _ | _ | k <;> simp [block, eq_comm]

theorem wellFormed_pair {seqLen seqLen' queryLen queryLen' : ℕ}
    (hlen : 256 ≤ seqLen ∧ seqLen ≤ 384) (hlen' : 128 ≤ seqLen' ∧ seqLen' ≤ 256)
    (hquery : (0 < queryLen ∧ queryLen ≤ seqLen) ∧ 0 < queryLen' ∧ queryLen' ≤ seqLen') :
    WellFormed 128 (twoRows seqLen seqLen' queryLen queryLen').rows where
  reqs_nodup := by simp [twoRows]
  queryLen_pos := by simpa [twoRows] using ⟨hquery.1.1, hquery.2.1⟩
  queryLen_le := by simpa [twoRows] using ⟨hquery.1.2, hquery.2.2⟩
  covered := by
    simp only [twoRows, mem_cons, not_mem_nil, or_false, forall_eq_or_imp, forall_eq]
    refine ⟨fun k hk => ?_, fun k hk => ?_⟩
    · rcases k with _ | _ | _ | k <;> simp [block]
      omega
    · rcases k with _ | _ | k <;> simp [block]
      omega
  exclusive := by
    simp only [twoRows, mem_cons, not_mem_nil, or_false]
    rintro r (rfl | rfl) r' (rfl | rfl) k k' bid ⟨-, hk⟩ hend hk' <;>
      simp only [block_first, block_second] at hk hend hk' <;> simp <;> omega

/-- A prompt of 256 tokens, on whose first block a second request joins in the same step, and two
decode steps of both. -/
def joinedSteps : List (Step ℕ) :=
  [twoRows 256 200 256 72, twoRows 257 201 1 1, twoRows 258 202 1 1]

end Small

open KVarN.Mla.Small

/-- Of the two decode steps the second skips. -/
theorem run_skip_eq_run_always_small :
    (∃ s t, run deployment joinedSteps (init deployment fun _ => []) = .ok s ∧
      run deployment.always joinedSteps (init deployment fun _ => []) = .ok t ∧
      t.b2s = s.b2s ∧ t.free = s.free ∧ t.int4 = s.int4 ∧ t.pool = s.pool) ∨
    ∃ e, run deployment joinedSteps (init deployment fun _ => []) = .error e ∧
      run deployment.always joinedSteps (init deployment fun _ => []) = .error e :=
  run_skip_eq_run_always deployment (fun _ => []) joinedSteps
    ⟨wellFormed_pair (by decide) (by decide) (by decide),
      by simp [Continues, twoRows, committed, deployment],
      wellFormed_pair (by decide) (by decide) (by decide),
      by simp [Continues, twoRows, committed, block],
      wellFormed_pair (by decide) (by decide) (by decide),
      by simp [Continues, twoRows, committed, block], trivial⟩
    ⟨fun _ => by simp, fun h => absurd h (by decide +kernel),
      fun _ => by simp [twoRows, Row.Settled, committed, deployment], trivial⟩

/-- **The fast skip leaves a complete tile in the pool.** A prompt of 130 tokens completes
the first tile; the first decode step skips, where the full build packs the tile and frees
its slot. -/
theorem skip_leaves_complete_tile : ValidRun 128 [] [request 130 130, request 131 1] ∧
    ∃ s t, run deployment [request 130 130, request 131 1] (init deployment fun _ => []) = .ok s ∧
      run deployment.always [request 130 130, request 131 1] (init deployment fun _ => []) = .ok t ∧
      s.b2s.keys = [0, 1] ∧ t.b2s.keys = [1] :=
  ⟨⟨wellFormed_request (by decide) (by decide) (by decide), joins,
    wellFormed_request (by decide) (by decide) (by decide), goesOn 130 130 1, trivial⟩,
    _, _, eq_ok_getD (init deployment fun _ => []) (by decide +kernel),
    eq_ok_getD (init deployment fun _ => []) (by decide +kernel),
    by decide +kernel, by decide +kernel⟩

theorem run_slots_small : ∃ s, run deployment [request 130 130, request 131 1]
    (init deployment fun _ => []) = .ok s ∧ (s.b2s.values ++ s.free).Perm (range 8) :=
  have h := eq_ok_getD (init deployment fun _ => []) (by decide +kernel)
  ⟨_, h, run_slots deployment _ h⟩

end KVarN.Mla
