import KVarN.Lib.Outcome
import KVarN.Mla.Builder

/-!
# Which tiles the latent-attention builder packs

With speculative decoding a step verifies several tokens of a request and accepts some of
them. The builder reads the lengths on the host, where the rejected tokens of the step
before may still be counted. It packs a tile when these lengths say that the tile is
complete, or when nobody writes a complete tile any more.

The packed tiles hold accepted tokens only, as long as the rejected tokens do not complete
a tile on the host that is not complete on the device.

## Main definitions

* `SpecRow` — a row with the accepted tokens of its request; `Follows` — one step after
  another.
* `TileCommitted` — a request has accepted the tokens of a tile.
* `StepAligned` — rejected tokens complete no tile.

## Main results

* `allCommitted_of_aligned` — every tile that is packed is committed.
-/

namespace KVarN.Mla

open KVarN.Lib State Row

universe u v

/-- A row of a verify step: `trueCommitted` tokens of the request are accepted before the
step, and of the new tokens the first `accepted` will be. -/
structure SpecRow extends Row where
  trueCommitted : ℕ
  accepted : ℕ

/-- The rows of one step, and what the step's tokens are. -/
structure SpecStep (α : Type u) where
  rows : List SpecRow
  tokens : ℕ → ℕ → α

namespace SpecStep

variable {α : Type u}

/-- What the builder sees of a step. -/
def seen (b : SpecStep α) : List Row := b.rows.map SpecRow.toRow

end SpecStep

/-- A step after the rows `last`. The device counts accepted tokens; the host may also
count the rejected ones of the step before. A request that was not in that step starts with
equal lengths. Block tables only grow. -/
structure Follows (last rows : List SpecRow) : Prop where
  accepted_le : ∀ r ∈ rows, r.accepted ≤ r.queryLen
  queryLen_le : ∀ r ∈ rows, r.queryLen ≤ r.seqLen
  joins : ∀ r ∈ rows, (∀ r₀ ∈ last, r₀.req ≠ r.req) → r.committed = r.trueCommitted
  committed : ∀ r ∈ rows, ∀ r₀ ∈ last, r₀.req = r.req →
    r.trueCommitted = r₀.trueCommitted + r₀.accepted ∧ r.trueCommitted ≤ r.committed ∧
      r.committed ≤ r.trueCommitted + (r₀.queryLen - r₀.accepted)
  blocks : ∀ r ∈ rows, ∀ r₀ ∈ last, r₀.req = r.req →
    ∀ k bid, r₀.block k = some bid → r.block k = some bid

def SpecRun {α : Type u} : List SpecRow → List (SpecStep α) → Prop
  | _, [] => True
  | last, b :: bs => Follows last b.rows ∧ SpecRun b.rows bs

/-- The accepted tokens of each request after a step. -/
def advance (lens : ℕ → ℕ) (rows : List SpecRow) (req : ℕ) : ℕ :=
  (rows.filter (·.req = req)).foldl (fun n r => max n (r.trueCommitted + r.accepted)) (lens req)

section

variable {α : Type u} {τ : Type v} (cfg : Config α τ)

/-- The tiles that the builder hands to the flush in one step. -/
def handed (s : State α τ) (b : SpecStep α) : List ℕ :=
  if fastSkip cfg s b.seen then [] else flushed cfg s b.seen

/-- A tile holds only positions below the committed length: of a request of the batch that
has the block in its table, or of the request that wrote the block last. -/
def TileCommitted (s : State α τ) (lens : ℕ → ℕ) (b : SpecStep α) (bid : ℕ) : Prop :=
  (∃ r ∈ b.rows, ∃ k, r.block k = some bid ∧ (k + 1) * cfg.group ≤ r.trueCommitted) ∨
    ∃ f, s.fill bid = some f ∧ (f.tile + 1) * cfg.group ≤ lens f.req

/-- The state after a step: the builder, then the forward pass, which writes where the
device is. -/
def specStep (s : State α τ) (b : SpecStep α) : Except Fault (State α τ) :=
  (build cfg s b.seen).map
    (doKvCacheUpdate cfg b.tokens (b.rows.map fun r => (r.toRow, r.trueCommitted)))

/-- Every tile that a run hands to the flush is committed. -/
def AllCommitted : State α τ → (ℕ → ℕ) → List (SpecStep α) → Prop
  | _, _, [] => True
  | s, lens, b :: bs =>
    (∀ bid ∈ handed cfg s b, TileCommitted cfg s lens b bid) ∧
    ∀ s', specStep cfg s b = .ok s' → AllCommitted s' (advance lens b.rows) bs

end

/-- Rejected tokens complete no tile. The host and the device count the same complete tiles
of a request before a step. A tile that a step completes on the host is complete with the
accepted tokens, or the request writes it again in the next step. -/
structure StepAligned {α : Type u} (G : ℕ) (last : List SpecRow) (b : SpecStep α) : Prop where
  count : ∀ r ∈ b.rows, r.committed / G = r.trueCommitted / G
  completed : ∀ r₀ ∈ last, r₀.seqLen / G ≤ (r₀.trueCommitted + r₀.accepted) / G ∨
    ¬ SkipsAfter G (last.map (·.seqLen)) b.seen ∧
      ∃ r ∈ b.rows, r₀.req = r.req ∧ (r₀.seqLen / G - 1) * G < r.seqLen

/-- Every step of a run is aligned with the one before. -/
def Aligned {α : Type u} (G : ℕ) : List SpecRow → List (SpecStep α) → Prop
  | _, [] => True
  | last, b :: bs => StepAligned G last b ∧ Aligned G b.rows bs

/-! ## Accepted tokens only grow -/

theorem le_advance (lens : ℕ → ℕ) (rows : List SpecRow) (req : ℕ) :
    lens req ≤ advance lens rows req := by
  rw [advance]
  generalize rows.filter _ = rows'
  generalize lens req = n
  induction rows' generalizing n with
  | nil => exact le_rfl
  | cons r rows ih => exact (le_max_left _ _).trans (ih _)

theorem accepted_le_advance (lens : ℕ → ℕ) {rows : List SpecRow} {r : SpecRow} (hr : r ∈ rows) :
    r.trueCommitted + r.accepted ≤ advance lens rows r.req := by
  have hfold : ∀ (l : List SpecRow) (n : ℕ),
      n ≤ l.foldl (fun n r => max n (r.trueCommitted + r.accepted)) n ∧
        ∀ r ∈ l, r.trueCommitted + r.accepted ≤
          l.foldl (fun n r => max n (r.trueCommitted + r.accepted)) n := by
    intro l
    induction l with
    | nil => simp
    | cons r₀ l ih =>
      intro n
      obtain ⟨hle, hall⟩ := ih (max n (r₀.trueCommitted + r₀.accepted))
      refine ⟨(le_max_left _ _).trans hle, fun r hr => ?_⟩
      rcases List.mem_cons.1 hr with rfl | hr
      · exact (le_max_right _ _).trans hle
      · exact hall r hr
  exact (hfold _ _).2 r (List.mem_filter.2 ⟨hr, by simp⟩)

/-! ## The invariant -/

section Invariant

variable {α : Type u} {τ : Type v} {cfg : Config α τ} {s s' : State α τ} {lens : ℕ → ℕ}
  {last : List SpecRow} {b : SpecStep α}

/-- A block that looks complete is complete with accepted tokens, or was completed by the
step before, on the host. -/
structure HostFills (cfg : Config α τ) (s : State α τ) (lens : ℕ → ℕ) (last : List SpecRow) :
    Prop where
  prev : ∀ p, s.prevSeqlens = some p → p = last.map (·.seqLen)
  accepted : ∀ r ∈ last, r.trueCommitted + r.accepted ≤ lens r.req
  fill : ∀ bid ∈ s.b2s, ∀ f, s.fill bid = some f → cfg.group ≤ f.tokens →
    (f.tile + 1) * cfg.group ≤ lens f.req ∨ ∃ r ∈ last, r.req = f.req ∧ r.block f.tile = some bid ∧
        (f.tile + 1) * cfg.group ≤ r.seqLen

theorem tokens_fillAt {G : ℕ} {r : Row} {k : ℕ} (h : G ≤ (r.fillAt G k).tokens) (hG : 0 < G) :
    (k + 1) * G ≤ r.seqLen := by
  have hmul : (k + 1) * G = k * G + G := Nat.succ_mul k G
  simp only [fillAt] at h
  omega

/-- What is left of the invariant in the next step: a block that looks complete is
committed, or the request writes it again. -/
theorem HostFills.committed_or_written (h : HostFills cfg s lens last)
    (hfollows : Follows last b.rows) (hstep : StepAligned cfg.group last b)
    {bid : ℕ} (hbid : bid ∈ s.b2s) {f : Fill} (hf : s.fill bid = some f)
    (hfull : cfg.group ≤ f.tokens) : (f.tile + 1) * cfg.group ≤ lens f.req ∨
      ¬ SkipsAfter cfg.group (last.map (·.seqLen)) b.seen ∧
        ∃ r ∈ b.rows, r.toRow.WritesTo cfg.group f.tile bid := by
  rcases h.fill bid hbid f hf hfull with hle | ⟨r₀, hr₀, hreq, hblock, hlen⟩
  · exact Or.inl hle
  have htile : f.tile + 1 ≤ r₀.seqLen / cfg.group :=
    (Nat.le_div_iff_mul_le cfg.group_pos).2 hlen
  rcases hstep.completed r₀ hr₀ with hle | ⟨hskip, r, hr, hreq', hlt⟩
  · refine Or.inl (le_trans ?_ (hreq ▸ h.accepted r₀ hr₀))
    exact (Nat.le_div_iff_mul_le cfg.group_pos).1 (htile.trans hle)
  · -- the request is in the batch, and the tile is below its length
    have hwritten : f.tile * cfg.group < r.seqLen := by
      refine lt_of_le_of_lt (Nat.mul_le_mul_right _ ?_) hlt
      omega
    by_cases hk : r.committed / cfg.group ≤ f.tile
    · exact Or.inr ⟨hskip, r, hr, ⟨hk, hwritten⟩, hfollows.blocks r hr r₀ hr₀ hreq' _ _ hblock⟩
    · left
      have hcommitted : f.tile + 1 ≤ r.trueCommitted / cfg.group := by
        rw [← hstep.count r hr]
        omega
      have htrue := (hfollows.committed r hr r₀ hr₀ hreq').1
      calc (f.tile + 1) * cfg.group ≤ r.trueCommitted :=
            (Nat.le_div_iff_mul_le cfg.group_pos).1 hcommitted
        _ ≤ lens f.req := by
            rw [htrue, ← hreq]
            exact h.accepted r₀ hr₀

theorem mem_seen {r : Row} (h : r ∈ b.seen) : ∃ r' ∈ b.rows, r'.toRow = r := List.mem_map.1 h

section

variable (h : HostFills cfg s lens last) (hfollows : Follows last b.rows)
  (hstep : StepAligned cfg.group last b)

include h hfollows hstep

/-- **A step packs committed tiles only.** -/
theorem HostFills.tileCommitted {bid : ℕ} (hbid : bid ∈ handed cfg s b) :
    TileCommitted cfg s lens b bid := by
  have hscan := scan_of cfg.group_pos s.b2s s.fill b.seen
  rw [handed] at hbid
  split at hbid
  · simp at hbid
  rw [flushed] at hbid
  generalize scan cfg.group s.b2s s.fill b.seen = sc at hbid hscan
  rcases List.mem_append.1 hbid with hq | hq
  · -- below the committed length of a row, on the host and so on the device
    obtain ⟨-, r, hr, k, hk, hblock⟩ := hscan.flushQ bid hq
    obtain ⟨r', hr', rfl⟩ := mem_seen hr
    refine Or.inl ⟨r', hr', k, hblock, ?_⟩
    rw [hstep.count r' hr'] at hk
    exact (Nat.le_div_iff_mul_le cfg.group_pos).1 hk
  · -- written by nobody and complete
    obtain ⟨hidle, hfull⟩ := List.mem_filter.1 hq
    simp only [idle, List.mem_filter, decide_eq_true_eq] at hidle
    obtain ⟨hb2s, hneed, -⟩ := hidle
    rw [full, hscan.fill_of_notMem bid hneed, decide_eq_true_eq] at hfull
    have hG := cfg.group_pos
    cases hf : s.fill bid with
    | none =>
      rw [hf, Option.elim_none] at hfull
      omega
    | some f =>
      rw [hf, Option.elim_some] at hfull
      rcases h.committed_or_written hfollows hstep hb2s hf hfull with hle | ⟨-, r, hr, hw⟩
      · exact Or.inr ⟨f, hf, hle⟩
      · exact absurd ((hscan.needed bid).2 ⟨r.toRow, List.mem_map_of_mem hr, f.tile, hw⟩) hneed

/-- **A step keeps the invariant.** -/
theorem HostFills.step (hs : specStep cfg s b = .ok s') :
    HostFills cfg s' (advance lens b.rows) b.rows := by
  have hlens : b.seen.map seqLen = b.rows.map (·.seqLen) := by
    simp [SpecStep.seen, Function.comp_def]
  cases hbuild : build cfg s b.seen with
  | error e => simp [specStep, hbuild, Except.map] at hs
  | ok s₁ =>
    obtain rfl : doKvCacheUpdate cfg b.tokens
        (b.rows.map fun r => (r.toRow, r.trueCommitted)) s₁ = s' := by
      simpa [specStep, hbuild, Except.map] using hs
    suffices hs₁ : HostFills cfg s₁ (advance lens b.rows) b.rows by
      rw [doKvCacheUpdate_eq]
      exact ⟨hs₁.prev, hs₁.accepted, hs₁.fill⟩
    rw [build] at hbuild
    split at hbuild
    next hskip =>
      obtain rfl : remember s b.seen = s₁ := by simpa using hbuild
      refine ⟨fun p hp => ?_, fun r hr => accepted_le_advance lens hr,
        fun bid hbid f hf hfull => ?_⟩
      · rw [← hlens]
        simpa [remember, eq_comm] using hp
      · left
        rcases h.committed_or_written hfollows hstep hbid hf hfull with hle | ⟨hno, -⟩
        · exact hle.trans (le_advance lens b.rows f.req)
        · -- the builder skipped
          rw [fastSkip, Bool.and_eq_true, Option.any_eq_true] at hskip
          obtain ⟨-, p, hp, hp'⟩ := hskip
          rw [decide_eq_true_eq, h.prev p hp] at hp'
          exact absurd hp' hno
    next =>
      obtain ⟨hmem, hfill, hprev⟩ := buildFull_eq_ok hbuild
      have hscan := scan_of cfg.group_pos s.b2s s.fill b.seen
      refine ⟨fun p hp => ?_, fun r hr => accepted_le_advance lens hr,
        fun bid hbid f hf hfull => ?_⟩
      · rw [hprev] at hp
        rw [← hlens]
        simpa [remember, eq_comm] using hp
      · right
        rcases hfill bid hbid with ⟨hnone, -⟩ | ⟨-, hval⟩
        · simp [hnone] at hf
        · obtain ⟨r, hr, k, hw, hk⟩ :=
            hscan.fill_of_mem bid ((hscan.needed bid).2 ((hmem bid).1 hbid))
          obtain ⟨r', hr', rfl⟩ := mem_seen hr
          obtain rfl : r'.toRow.fillAt cfg.group k = f := by
            rw [hf] at hval
            exact Option.some.inj (hk.symm.trans hval.symm)
          exact ⟨r', hr', rfl, hw.2, tokens_fillAt hfull cfg.group_pos⟩

end

/-- The rule for runs. -/
theorem HostFills.allCommitted {steps : List (SpecStep α)} (h : HostFills cfg s lens last)
    (hrun : SpecRun last steps) (halign : Aligned cfg.group last steps) :
    AllCommitted cfg s lens steps := by
  induction steps generalizing s lens last with
  | nil => trivial
  | cons b bs ih =>
    refine ⟨fun bid hbid => h.tileCommitted hrun.1 halign.1 hbid, fun s' hs' => ?_⟩
    exact ih (h.step hrun.1 halign.1 hs') hrun.2 halign.2

end Invariant

/-- **The builder packs committed tiles only**, in every run in which rejected tokens
complete no tile. -/
theorem allCommitted_of_aligned {α : Type u} {τ : Type v} (cfg : Config α τ) (int4 : ℕ → τ)
    (steps : List (SpecStep α)) (hrun : SpecRun [] steps) (halign : Aligned cfg.group [] steps) :
    AllCommitted cfg (init cfg int4) (fun _ => 0) steps := by
  have hinit : HostFills cfg (init cfg int4) (fun _ => 0) [] :=
    ⟨by simp [init], by simp, by simp [init]⟩
  exact hinit.allCommitted hrun halign

/-! ## A verify step at the end of a tile -/

namespace Small

def config (noSkip : Bool) : Config ℕ Unit where
  group := 128
  poolSlots := 8
  noSkip := noSkip
  noZero := false
  zero := 0
  quantise := fun _ => ()
  setOrder := id
  group_pos := by decide
  mem_setOrder := Iff.rfl

/-- One step of request 0 with two blocks: `queryLen` tokens after `committed` on the host
and `trueCommitted` on the device. -/
def verify (committed trueCommitted queryLen accepted : ℕ) : SpecStep ℕ where
  rows := [⟨⟨0, [some 0, some 1], committed + queryLen, queryLen⟩, trueCommitted, accepted⟩]
  tokens := fun _ pos => pos

theorem follows {committed trueCommitted queryLen accepted committed' queryLen' accepted' : ℕ}
    (haccepted : accepted' ≤ queryLen') (hle : trueCommitted + accepted ≤ committed')
    (hbound : committed' ≤ trueCommitted + accepted + (queryLen - accepted)) :
    Follows (verify committed trueCommitted queryLen accepted).rows
      (verify committed' (trueCommitted + accepted) queryLen' accepted').rows where
  accepted_le := by simpa [verify] using haccepted
  queryLen_le := by simp [verify]
  joins := by simp [verify]
  committed := by simpa [verify, Row.committed] using ⟨hle, hbound⟩
  blocks := by simp [verify, block]

def after (steps : List (SpecStep ℕ)) : State ℕ Unit :=
  steps.foldl (fun s b => (specStep (config false) s b).toOption.getD s)
    (init (config false) fun _ => ())

theorem specStep_after (steps : List (SpecStep ℕ)) {b : SpecStep ℕ}
    (h : (specStep (config false) (after steps) b).isOk = true) :
    specStep (config false) (after steps) b = .ok (after (steps ++ [b])) := by
  have hconcat : after (steps ++ [b]) =
      (specStep (config false) (after steps) b).toOption.getD (after steps) := by
    rw [after, List.foldl_append]
    rfl
  rw [hconcat]
  exact eq_ok_getD _ h

theorem starts (queryLen accepted : ℕ) (h : accepted ≤ queryLen) :
    Follows [] (verify 0 0 queryLen accepted).rows where
  accepted_le := by simpa [verify] using h
  queryLen_le := by simp [verify]
  joins := by simp [verify, committed]
  committed := by simp
  blocks := by simp

end Small

open KVarN.Mla.Small

/-- A prompt of 120 tokens, then four tokens of which one is accepted. -/
theorem allCommitted_of_aligned_small :
    AllCommitted (config false) (init (config false) fun _ => ()) (fun _ => 0)
      [verify 0 0 120 120, verify 120 120 4 1] :=
  allCommitted_of_aligned _ _ _
    ⟨starts _ _ (by decide), follows (by decide) (by decide) (by decide), trivial⟩
    ⟨⟨by simp [verify, committed], by simp⟩,
      ⟨by simp [verify, committed], by simp [verify]⟩, trivial⟩

/-- **Rejected tokens are packed.** After a prompt of 126 tokens, four tokens are verified
and one is accepted; the host counts 130 tokens in the next step and the builder packs the
first tile, of which 127 tokens are accepted. -/
theorem rejected_tokens_packed :
    SpecRun [] [verify 0 0 126 126, verify 126 126 4 1, verify 130 127 4 1] ∧
    ¬ AllCommitted (config false) (init (config false) fun _ => ()) (fun _ => 0)
      [verify 0 0 126 126, verify 126 126 4 1, verify 130 127 4 1] := by
  refine ⟨⟨starts _ _ (by decide), follows (by decide) (by decide) (by decide),
    follows (by decide) (by decide) (by decide), trivial⟩, fun h => ?_⟩
  -- the third step hands the first tile to the flush
  have htile := ((h.2 _ (specStep_after [] (by decide +kernel))).2 _
    (specStep_after _ (by decide +kernel))).1 0 (by decide +kernel)
  rcases htile with ⟨r, hr, k, hblock, hle⟩ | ⟨f, hf, hle⟩
  · obtain rfl : r = ⟨⟨0, [some 0, some 1], 134, 4⟩, 127, 1⟩ := by simpa [verify] using hr
    simp only [config] at hle
    omega
  · obtain rfl : f = ⟨128, 0, 0⟩ := Option.some.inj (hf.symm.trans (by decide +kernel))
    exact absurd hle (by decide +kernel)

end KVarN.Mla
