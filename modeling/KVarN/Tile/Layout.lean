import KVarN.Tile.Metadata
import Mathlib.Data.List.Pairwise

/-!
# Which request owns which block

Requests share vLLM blocks through the prefix cache, and ids of freed blocks are
handed out again. `Layout` is what stays true of the block tables all the same: a
block sits at one index in every row that has it, and rows share only blocks whose
tokens are sure. So a block that is still being written has one writer, and the
only other rows that can show it are those of requests admitted onto it in the
very same step (`progress_unique`, `adopt_index`).

`settled_layout` is the settling of the live requests, `step_layout` a step.
-/

namespace KVarN.Tile

open Req KVarN.Tile.Sched List

variable {V R : Type} {cfg : Config}

/-- A block in both rows sits at one index, and its tokens are sure in both. -/
def Shares (cfg : Config) (r r' : Req V) : Prop :=
  ∀ j j' b, r.row[j]? = some b → r'.row[j']? = some b →
    j = j' ∧ (j + 1) * cfg.blockSize ≤ r.sure ∧ (j + 1) * cfg.blockSize ≤ r'.sure

theorem Shares.symm {r r' : Req V} (h : Shares cfg r r') : Shares cfg r' r := by
  intro j j' b hj hj'
  obtain ⟨rfl, h₁, h₂⟩ := h j' j b hj' hj
  exact ⟨rfl, h₂, h₁⟩

/-- No block sits twice in a row. -/
def RowInj (row : List ℕ) : Prop :=
  ∀ j j' b : ℕ, row[j]? = some b → row[j']? = some b → j = j'

/-- Two different members of a list with a symmetric pairwise relation are related. -/
private theorem pairwise_mem {α : Type} {S : α → α → Prop} {l : List α}
    (hS : ∀ a b, S a b → S b a) (h : l.Pairwise S) {a b : α} (ha : a ∈ l) (hb : b ∈ l)
    (hne : a ≠ b) : S a b :=
  haveI : Std.Symm S := ⟨hS⟩
  h.forall ha hb hne

/-- What stays true of block tables and cached blocks. -/
structure Layout (cfg : Config) (live : List (Req V)) (done : List (Done V)) : Prop where
  inj : ∀ r ∈ live, RowInj r.row
  room : ∀ r ∈ live, r.vals.length ≤ r.row.length * cfg.blockSize
  sure_le : ∀ r ∈ live, r.sure ≤ r.vals.length
  share : live.Pairwise (Shares cfg)
  done_live : ∀ d ∈ done, ∀ r ∈ live, ∀ j, r.row[j]? = some d.block →
    j = d.index ∧ (j + 1) * cfg.blockSize ≤ r.sure
  done_done : ∀ d ∈ done, ∀ d' ∈ done, d.block = d'.block → d.index = d'.index
  done_len : ∀ d ∈ done, d.vals.length = cfg.blockSize
  row_lt : ∀ r ∈ live, ∀ b ∈ r.row, b < cfg.numBlocks
  done_lt : ∀ d ∈ done, d.block < cfg.numBlocks

theorem layout_nil : Layout cfg ([] : List (Req V)) [] := by
  constructor <;> simp

/-- Fewer live requests and cached blocks keep the layout. -/
theorem Layout.mono {live live' : List (Req V)} {done done' : List (Done V)}
    (h : Layout cfg live done) (hs : live'.Sublist live) (hd : done' ⊆ done) :
    Layout cfg live' done' where
  inj := fun r hr => h.inj r (hs.subset hr)
  room := fun r hr => h.room r (hs.subset hr)
  sure_le := fun r hr => h.sure_le r (hs.subset hr)
  share := h.share.sublist hs
  done_live := fun d hd' r hr => h.done_live d (hd hd') r (hs.subset hr)
  done_done := fun d hd₁ d' hd₂ => h.done_done d (hd hd₁) d' (hd hd₂)
  done_len := fun d hd' => h.done_len d (hd hd')
  row_lt := fun r hr => h.row_lt r (hs.subset hr)
  done_lt := fun d hd' => h.done_lt d (hd hd')

/-! ## Settling -/

theorem length_settle {r : Req V} {acc : ℕ} (h : acc ≤ r.vals.length) :
    (r.settle acc).vals.length = acc := by
  simp [settle, h]

theorem mem_complete {r : Req V} {d : Done V} : d ∈ r.complete cfg ↔
    (d.index + 1) * cfg.blockSize ≤ r.vals.length ∧ r.row[d.index]? = some d.block ∧
      d.vals = slice cfg.blockSize r.vals d.index := by
  simp only [complete, mem_filterMap, mem_range, Option.map_eq_some_iff]
  have hdiv : ∀ j, j < r.vals.length / cfg.blockSize ↔
      (j + 1) * cfg.blockSize ≤ r.vals.length := fun j => by
    rw [← Nat.add_one_le_iff, Nat.le_div_iff_mul_le cfg.blockSize_pos]
  constructor
  · rintro ⟨j, hj, b, hb, rfl⟩
    exact ⟨(hdiv j).1 hj, hb, rfl⟩
  · rintro ⟨h₁, h₂, h₃⟩
    refine ⟨d.index, (hdiv _).2 h₁, d.block, h₂, ?_⟩
    rw [← h₃]

theorem length_slice {n i : ℕ} {l : List V} (h : (i + 1) * n ≤ l.length) :
    (slice n l i).length = n := by
  rw [Nat.succ_mul] at h
  simp only [slice, length_take, length_drop]
  omega

private theorem settle_layout {live : List (Req V)} {done : List (Done V)}
    {L : List (Req V × ℕ)} (h : Layout cfg live done) (hp : live.Perm (L.map Prod.fst))
    (hacc : ∀ p ∈ L, p.1.sure ≤ p.2 ∧ p.2 ≤ p.1.vals.length) :
    Layout cfg (L.map fun p => p.1.settle p.2)
      ((L.map fun p => p.1.settle p.2).flatMap (complete cfg) ++ done) := by
  have hmem : ∀ p ∈ L, p.1 ∈ live := fun p hp' => hp.mem_iff.2 (mem_map_of_mem hp')
  have hinj : ∀ r ∈ L.map (fun p => p.1.settle p.2), RowInj r.row := by
    intro r hr
    obtain ⟨p, hp', rfl⟩ := mem_map.1 hr
    exact h.inj p.1 (hmem p hp')
  have hsure : ∀ r ∈ L.map (fun p => p.1.settle p.2), r.vals.length = r.sure := by
    intro r hr
    obtain ⟨p, hp', rfl⟩ := mem_map.1 hr
    exact length_settle (hacc p hp').2
  have hshare : (L.map fun p => p.1.settle p.2).Pairwise (Shares cfg) := by
    rw [pairwise_map]
    have hl := (hp.pairwise_iff (R := Shares cfg) fun h => h.symm).1 h.share
    rw [pairwise_map] at hl
    refine hl.imp_of_mem fun {p q} hpL hqL hs j j' b hj hj' => ?_
    obtain ⟨e, h₁, h₂⟩ := hs j j' b hj hj'
    exact ⟨e, h₁.trans (hacc p hpL).1, h₂.trans (hacc q hqL).1⟩
  -- a complete block of one settled request in the row of another
  have hcross : ∀ d ∈ (L.map fun p => p.1.settle p.2).flatMap (complete cfg),
      ∀ r ∈ L.map (fun p => p.1.settle p.2), ∀ j, r.row[j]? = some d.block →
        j = d.index ∧ (j + 1) * cfg.blockSize ≤ r.sure := by
    intro d hd r hr j hj
    obtain ⟨r₀, hr₀, hd⟩ := mem_flatMap.1 hd
    obtain ⟨hlen, hrow, -⟩ := mem_complete.1 hd
    by_cases hne : r = r₀
    · subst hne
      obtain rfl := hinj r hr _ _ _ hj hrow
      exact ⟨rfl, by rw [← hsure r hr]; exact hlen⟩
    · obtain ⟨e, h₁, -⟩ := pairwise_mem (fun _ _ h => h.symm) hshare hr hr₀ hne _ _ _ hj hrow
      exact ⟨e, h₁⟩
  have hold : ∀ d ∈ done, ∀ r ∈ L.map (fun p => p.1.settle p.2), ∀ j,
      r.row[j]? = some d.block → j = d.index ∧ (j + 1) * cfg.blockSize ≤ r.sure := by
    intro d hd r hr j hj
    obtain ⟨p, hp', rfl⟩ := mem_map.1 hr
    obtain ⟨e, h₁⟩ := h.done_live d hd p.1 (hmem p hp') j hj
    exact ⟨e, h₁.trans (hacc p hp').1⟩
  have hdone : ∀ d ∈ (L.map fun p => p.1.settle p.2).flatMap (complete cfg),
      ∃ r ∈ L.map (fun p => p.1.settle p.2), r.row[d.index]? = some d.block ∧
        d.vals.length = cfg.blockSize := by
    intro d hd
    obtain ⟨r, hr, hd⟩ := mem_flatMap.1 hd
    obtain ⟨hlen, hrow, hvals⟩ := mem_complete.1 hd
    exact ⟨r, hr, hrow, by rw [hvals]; exact length_slice hlen⟩
  refine ⟨hinj, ?_, fun r hr => (hsure r hr).ge, hshare, ?_, ?_, ?_, ?_, ?_⟩
  · intro r hr
    obtain ⟨p, hp', rfl⟩ := mem_map.1 hr
    refine le_trans ?_ (h.room p.1 (hmem p hp'))
    simp [settle]
  · intro d hd
    exact (mem_append.1 hd).elim (hcross d) (hold d)
  · intro d hd d' hd' e
    rcases mem_append.1 hd with hd | hd <;> rcases mem_append.1 hd' with hd' | hd'
    · obtain ⟨r, hr, hrow, -⟩ := hdone d hd
      exact (hcross d' hd' r hr _ (e ▸ hrow)).1
    · obtain ⟨r, hr, hrow, -⟩ := hdone d hd
      exact (hold d' hd' r hr _ (e ▸ hrow)).1
    · obtain ⟨r, hr, hrow, -⟩ := hdone d' hd'
      exact (hold d hd r hr _ (e ▸ hrow)).1.symm
    · exact h.done_done d hd d' hd' e
  · intro d hd
    rcases mem_append.1 hd with hd | hd
    · exact (hdone d hd).choose_spec.2.2
    · exact h.done_len d hd
  · intro r hr
    obtain ⟨p, hp', rfl⟩ := mem_map.1 hr
    exact h.row_lt p.1 (hmem p hp')
  · intro d hd
    rcases mem_append.1 hd with hd | hd
    · obtain ⟨r, hr, hrow, -⟩ := hdone d hd
      obtain ⟨p, hp', rfl⟩ := mem_map.1 hr
      exact h.row_lt p.1 (hmem p hp') _ (mem_of_getElem? hrow)
    · exact h.done_lt d hd

section Plan

variable {e : Engine V R} {pl : Plan V}

/-- **Settling** keeps the layout, with the newly completed blocks added. -/
theorem settled_layout (hL : Layout cfg e.live e.done) (hv : pl.Valid cfg e) :
    Layout cfg (pl.settled ++ pl.ended) (e.settledDone cfg pl) := by
  have h := settle_layout hL hv.live hv.accepted
  rw [map_append] at h
  exact h

/-! ## Rows of a batch -/

/-- Entry `j` of a scheduled row is newly allocated, or held from before. -/
def Sched.Owns (s : Sched V) (j b : ℕ) : Prop :=
  (s.origin.kept.length ≤ j ∧ s.fresh[j - s.origin.kept.length]? = some b) ∨
    ∃ p, s.origin.prior = some p ∧ p.1.row[j]? = some b

/-- Entry `j` of a scheduled row is adopted. -/
def Sched.Adopted (s : Sched V) (j b : ℕ) : Prop :=
  s.origin.prior = none ∧ s.origin.adopted[j]? = some b

variable {s w : Sched V} {j b j' : ℕ} {p : Req V × ℕ} {d : Done V}

/-- Where an entry of a scheduled row comes from. -/
theorem row_cases (h : s.row[j]? = some b) : s.Owns j b ∨ s.Adopted j b := by
  unfold Sched.row at h
  by_cases hj : j < s.origin.kept.length
  · rw [getElem?_append_left hj] at h
    cases ho : s.origin with
    | running r acc => rw [ho] at h; exact Or.inl (Or.inr ⟨_, by rw [ho]; rfl, h⟩)
    | admitted bs vs => rw [ho] at h; exact Or.inr ⟨by rw [ho]; rfl, by rw [ho]; exact h⟩
  · rw [getElem?_append_right (not_lt.1 hj)] at h
    exact Or.inl (Or.inl ⟨not_lt.1 hj, h⟩)

theorem mem_fresh (hs : s ∈ pl.batch) (hb : b ∈ s.fresh) : b ∈ pl.fresh :=
  mem_flatMap.2 ⟨s, hs, hb⟩

theorem mem_continued (hs : s ∈ pl.batch) (hp : s.origin.prior = some p) : p ∈ pl.continued :=
  mem_filterMap.2 ⟨s, hs, hp⟩

/-- A continued request starts at its accepted length. -/
theorem committed_prior (hv : pl.Valid cfg e) (hs : s ∈ pl.batch)
    (hp : s.origin.prior = some p) : s.committed = p.2 := by
  have hacc := (hv.accepted p (mem_append_left _ (mem_append_left _
    (mem_continued hs hp)))).2
  cases ho : s.origin with
  | running r acc =>
    rw [ho] at hp
    obtain rfl := Option.some.inj hp
    simp [committed, ho, Origin.context, hacc]
  | admitted bs vs => rw [ho] at hp; cases hp

theorem prior_settled (hs : s ∈ pl.batch)
    (hp : s.origin.prior = some p) : p.1.settle p.2 ∈ pl.settled ++ pl.ended :=
  mem_append_left _ (mem_map_of_mem
    (mem_append_left pl.omitted (mem_continued hs hp)))

theorem omitted_settled (hp : p ∈ pl.omitted) : p.1.settle p.2 ∈ pl.settled ++ pl.ended :=
  mem_append_left _ (mem_map_of_mem (mem_append_right pl.continued hp))

/-- An adopted block ends by the committed boundary. -/
theorem adopted_committed (hv : pl.Valid cfg e) (hs : s ∈ pl.batch)
    (hn : s.origin.prior = none) (hj : s.origin.adopted[j]? = some b) :
    (j + 1) * cfg.blockSize ≤ s.committed := by
  rw [hv.aligned s hs hn]
  exact Nat.mul_le_mul_right _ (List.getElem?_eq_some_iff.1 hj).1

/-- A block still being written is not adopted. -/
theorem progress_owns (hv : pl.Valid cfg e) (hs : s ∈ pl.batch)
    (hj : s.row[j]? = some b) (hc : s.committed < (j + 1) * cfg.blockSize) : s.Owns j b := by
  refine (row_cases hj).resolve_right fun ⟨hn, h⟩ => ?_
  exact absurd (adopted_committed hv hs hn h) (by omega)

private theorem fresh_disjoint (hv : pl.Valid cfg e) :
    pl.batch.Pairwise fun s s' => List.Disjoint s.fresh s'.fresh :=
  (nodup_flatMap.1 hv.fresh_nodup).2

private theorem fresh_eq (hv : pl.Valid cfg e) {s' : Sched V} (hs : s ∈ pl.batch)
    (hs' : s' ∈ pl.batch) (hb : b ∈ s.fresh) (hb' : b ∈ s'.fresh) : s = s' := by
  by_contra hne
  exact pairwise_mem (fun _ _ h => h.symm) (fresh_disjoint hv) hs hs' hne hb hb'

private theorem prior_shares (hL : Layout cfg e.live e.done) (hv : pl.Valid cfg e) :
    pl.batch.Pairwise fun s s' => ∀ p, s.origin.prior = some p → ∀ p', s'.origin.prior = some p' →
      Shares cfg (p.1.settle p.2) (p'.1.settle p'.2) := by
  have h := (settled_layout hL hv).share
  rw [pairwise_append] at h
  have h₁ := h.1
  rw [Plan.settled, map_append, pairwise_append] at h₁
  have h₂ := h₁.1
  rw [pairwise_map, Plan.continued, pairwise_filterMap] at h₂
  exact h₂

private theorem prior_shares_mem (hL : Layout cfg e.live e.done) (hv : pl.Valid cfg e)
    {s' : Sched V} (hs : s ∈ pl.batch) (hs' : s' ∈ pl.batch) (hne : s ≠ s') {p' : Req V × ℕ}
    (hp : s.origin.prior = some p) (hp' : s'.origin.prior = some p') :
    Shares cfg (p.1.settle p.2) (p'.1.settle p'.2) :=
  pairwise_mem (fun _ _ h p hp p' hp' => (h p' hp' p hp).symm) (prior_shares hL hv) hs hs' hne
    p hp p' hp'

private theorem fresh_prior (hv : pl.Valid cfg e) (hs : s ∈ pl.batch)
    (hp : s.origin.prior = some p) (hj : p.1.row[j]? = some b) (hb : b ∈ pl.fresh) : False :=
  hv.fresh_new p (mem_append_left _ (mem_continued hs hp)) b (mem_of_getElem? hj) hb

/-- **One writer.** A block still being written by `w` is held, other than by
adoption, by no other request of the batch. -/
theorem progress_unique (hL : Layout cfg e.live e.done) (hv : pl.Valid cfg e)
    (hw : w ∈ pl.batch) (hs : s ∈ pl.batch) (hj : w.row[j]? = some b)
    (hc : w.committed < (j + 1) * cfg.blockSize) (hown : s.Owns j' b) : s = w := by
  rcases progress_owns hv hw hj hc with ⟨-, hf⟩ | ⟨p, hp, hrow⟩ <;>
    rcases hown with ⟨-, hf'⟩ | ⟨p', hp', hrow'⟩
  · exact fresh_eq hv hs hw (mem_of_getElem? hf') (mem_of_getElem? hf)
  · exact (fresh_prior hv hs hp' hrow' (mem_fresh hw (mem_of_getElem? hf))).elim
  · exact (fresh_prior hv hw hp hrow (mem_fresh hs (mem_of_getElem? hf'))).elim
  · by_contra hne
    obtain ⟨-, h₁, -⟩ := prior_shares_mem hL hv hw hs (Ne.symm hne) hp hp' j j' b hrow hrow'
    rw [committed_prior hv hw hp] at hc
    exact absurd h₁ (by simpa [settle] using hc)

private theorem owns_index (hL : Layout cfg e.live e.done) (hv : pl.Valid cfg e)
    (hw : w ∈ pl.batch) (h : w.Owns j b) (h' : w.Owns j' b) : j = j' := by
  rcases h with ⟨hk, hf⟩ | ⟨p, hp, hrow⟩ <;> rcases h' with ⟨hk', hf'⟩ | ⟨p', hp', hrow'⟩
  · have hnd : w.fresh.Nodup := (nodup_flatMap.1 hv.fresh_nodup).1 w hw
    have hlt := (List.getElem?_eq_some_iff.1 hf).1
    have := (List.getElem?_inj hlt hnd).1 (hf.trans hf'.symm)
    omega
  · exact (fresh_prior hv hw hp' hrow' (mem_fresh hw (mem_of_getElem? hf))).elim
  · exact (fresh_prior hv hw hp hrow (mem_fresh hw (mem_of_getElem? hf'))).elim
  · rw [hp] at hp'
    obtain rfl := Option.some.inj hp'
    exact (settled_layout hL hv).inj _ (prior_settled hw hp) _ _ _ hrow hrow'

/-! ## Adoption -/

/-- Block `b` may be adopted at index `j`: it is cached there, or a request of the
batch completes it there in this step. -/
inductive Adopts (cfg : Config) (e : Engine V R) (pl : Plan V) (b j : ℕ) : Prop
  | cached (d : Done V) (hd : d ∈ e.settledDone cfg pl) (hb : d.block = b) (hj : d.index = j)
      (hf : b ∉ pl.fresh)
  | now (w : Sched V) (hw : w ∈ pl.batch) (hb : w.row[j]? = some b)
      (hc : w.committed < (j + 1) * cfg.blockSize) (hs : (j + 1) * cfg.blockSize ≤ w.sure)

theorem adopts_of_adopted (hv : pl.Valid cfg e) (hs : s ∈ pl.batch)
    (hj : s.origin.adopted[j]? = some b) : Adopts cfg e pl b j := by
  rcases hv.adopts s hs j (List.getElem?_eq_some_iff.1 hj).1 with
    ⟨d, hd, hb, hidx, -, hf⟩ | ⟨w, hw, hb, hc, hsure, -⟩
  · have hbd : d.block = b := Option.some.inj (hb.symm.trans hj)
    exact .cached d hd hbd hidx (hbd ▸ hf)
  · exact .now w hw (hb.symm.trans hj) hc hsure

section

variable (hL : Layout cfg e.live e.done) (hv : pl.Valid cfg e)

include hL hv

/-- A cached block is not being written. -/
theorem cached_not_progress
    (hd : d ∈ e.settledDone cfg pl) (hf : d.block ∉ pl.fresh) (hw : w ∈ pl.batch)
    (hj : w.row[j]? = some d.block) : (j + 1) * cfg.blockSize ≤ w.committed := by
  by_contra hc
  rw [not_le] at hc
  rcases progress_owns hv hw hj hc with ⟨-, h⟩ | ⟨p, hp, hrow⟩
  · exact hf (mem_fresh hw (mem_of_getElem? h))
  · obtain ⟨-, h₁⟩ := (settled_layout hL hv).done_live d hd _ (prior_settled hw hp) j hrow
    rw [committed_prior hv hw hp] at hc
    exact absurd h₁ (by simpa [settle] using hc)

/-- A block is adopted at one index. -/
theorem adopt_index (h : Adopts cfg e pl b j) (h' : Adopts cfg e pl b j') : j = j' := by
  cases h with
  | cached d hd hb hj hf =>
    subst hb
    cases h' with
    | cached d' hd' hb' hj' hf' =>
      rw [← hj, ← hj']
      exact (settled_layout hL hv).done_done d hd d' hd' hb'.symm
    | now w hw hb' hc hs => exact absurd (cached_not_progress hL hv hd hf hw hb') (by omega)
  | now w hw hb hc hs =>
    cases h' with
    | cached d hd hb' hj' hf =>
      subst hb'
      exact absurd (cached_not_progress hL hv hd hf hw hb) (by omega)
    | now w' hw' hb' hc' hs' =>
      have hown := progress_owns hv hw' hb' hc'
      obtain rfl := progress_unique hL hv hw hw' hb hc hown
      exact owns_index hL hv hw (progress_owns hv hw hb hc) hown

/-- A block one request holds and another adopts sits at one index, and the holder
cannot lose its tokens. -/
private theorem owned_adopts (hs : s ∈ pl.batch) (hown : s.Owns j b) (h : Adopts cfg e pl b j') :
    j = j' ∧ (j + 1) * cfg.blockSize ≤ s.sure := by
  cases h with
  | cached d hd hb hj' hf =>
    subst hb
    rcases hown with ⟨-, hfr⟩ | ⟨p, hp, hrow⟩
    · exact absurd (mem_fresh hs (mem_of_getElem? hfr)) hf
    · obtain ⟨e₁, h₁⟩ := (settled_layout hL hv).done_live d hd _ (prior_settled hs hp) j hrow
      have hc := committed_prior hv hs hp
      have hsure := (hv.sure_le s hs).1
      simp only [settle] at h₁
      exact ⟨e₁.trans hj', by omega⟩
  | now w hw hb hc hws =>
    obtain rfl := progress_unique hL hv hw hs hb hc hown
    have e₁ := owns_index hL hv hs hown (progress_owns hv hs hb hc)
    exact ⟨e₁, e₁ ▸ hws⟩

end

private theorem adopted_sure (hv : pl.Valid cfg e) (hs : s ∈ pl.batch)
    (h : s.Adopted j b) : (j + 1) * cfg.blockSize ≤ s.sure :=
  (adopted_committed hv hs h.1 h.2).trans (hv.sure_le s hs).1

section

variable (hL : Layout cfg e.live e.done) (hv : pl.Valid cfg e)

include hL hv

theorem sched_inj (hs : s ∈ pl.batch) : RowInj s.row := by
  intro j j' b hj hj'
  rcases row_cases hj with h | h <;> rcases row_cases hj' with h' | h'
  · exact owns_index hL hv hs h h'
  · exact (owned_adopts hL hv hs h (adopts_of_adopted hv hs h'.2)).1
  · exact (owned_adopts hL hv hs h' (adopts_of_adopted hv hs h.2)).1.symm
  · exact adopt_index hL hv (adopts_of_adopted hv hs h.2) (adopts_of_adopted hv hs h'.2)

/-- Two requests of a batch share only sure blocks. -/
private theorem batch_shares : pl.batch.Pairwise fun s s' => Shares cfg s.req s'.req := by
  refine ((fresh_disjoint hv).and (prior_shares hL hv)).imp_of_mem ?_
  rintro s s' hs hs' ⟨hF, hC⟩ j j' b hj hj'
  rcases row_cases hj with h | h <;> rcases row_cases hj' with h' | h'
  · rcases h with ⟨-, hf⟩ | ⟨p, hp, hrow⟩ <;> rcases h' with ⟨-, hf'⟩ | ⟨p', hp', hrow'⟩
    · exact (hF (mem_of_getElem? hf) (mem_of_getElem? hf')).elim
    · exact (fresh_prior hv hs' hp' hrow' (mem_fresh hs (mem_of_getElem? hf))).elim
    · exact (fresh_prior hv hs hp hrow (mem_fresh hs' (mem_of_getElem? hf'))).elim
    · obtain ⟨e₁, h₁, h₂⟩ := hC p hp p' hp' j j' b hrow hrow'
      have hc := committed_prior hv hs hp
      have hc' := committed_prior hv hs' hp'
      have hsure := (hv.sure_le s hs).1
      have hsure' := (hv.sure_le s' hs').1
      simp only [settle] at h₁ h₂
      exact ⟨e₁, by simp only [req]; omega, by simp only [req]; omega⟩
  · obtain ⟨rfl, h₁⟩ := owned_adopts hL hv hs h (adopts_of_adopted hv hs' h'.2)
    exact ⟨rfl, h₁, adopted_sure hv hs' h'⟩
  · obtain ⟨rfl, h₁⟩ := owned_adopts hL hv hs' h' (adopts_of_adopted hv hs h.2)
    exact ⟨rfl, adopted_sure hv hs h, h₁⟩
  · obtain rfl := adopt_index hL hv (adopts_of_adopted hv hs h.2) (adopts_of_adopted hv hs' h'.2)
    exact ⟨rfl, adopted_sure hv hs h, adopted_sure hv hs' h'⟩

/-- A request of the batch and one left out share only committed blocks. -/
theorem omitted_shares (hs : s ∈ pl.batch) {q : Req V × ℕ} (hq : q ∈ pl.omitted)
    (hj : s.row[j]? = some b) (hj' : q.1.row[j']? = some b) :
    j = j' ∧ (j + 1) * cfg.blockSize ≤ s.committed ∧ (j + 1) * cfg.blockSize ≤ q.2 := by
  have hcross : ∀ w ∈ pl.batch, ∀ p, w.origin.prior = some p →
      Shares cfg (p.1.settle p.2) (q.1.settle q.2) := by
    intro w hw p hp
    have h := (settled_layout hL hv).share
    rw [pairwise_append, Plan.settled, map_append, pairwise_append] at h
    exact h.1.2.2 _ (mem_map_of_mem (mem_continued hw hp)) _ (mem_map_of_mem hq)
  have hnew : b ∉ pl.fresh :=
    hv.fresh_new q (mem_append_right _ hq) b (mem_of_getElem? hj')
  rcases row_cases hj with (⟨-, hf⟩ | ⟨p, hp, hrow⟩) | h
  · exact absurd (mem_fresh hs (mem_of_getElem? hf)) hnew
  · obtain ⟨e₁, h₁, h₂⟩ := hcross s hs p hp j j' b hrow hj'
    rw [committed_prior hv hs hp]
    exact ⟨e₁, h₁, h₂⟩
  · have hc := adopted_committed hv hs h.1 h.2
    cases adopts_of_adopted hv hs h.2 with
    | cached d hd hb hidx hf =>
      subst hb
      obtain ⟨e₁, h₁⟩ := (settled_layout hL hv).done_live d hd _ (omitted_settled hq) j' hj'
      obtain rfl : j = j' := hidx.symm.trans e₁.symm
      exact ⟨rfl, hc, h₁⟩
    | now w hw hb hcw hws =>
      rcases progress_owns hv hw hb hcw with ⟨-, hf⟩ | ⟨p, hp, hrow⟩
      · exact absurd (mem_fresh hw (mem_of_getElem? hf)) hnew
      · obtain ⟨-, h₁, -⟩ := hcross w hw p hp j j' b hrow hj'
        rw [committed_prior hv hw hp] at hcw
        exact absurd h₁ (by simpa [settle] using hcw)

/-- A request of the batch holds a cached block at its index, below its boundary. -/
theorem done_shares (hs : s ∈ pl.batch) (hd : d ∈ e.settledDone cfg pl) (hf : d.block ∉ pl.fresh)
    (hj : s.row[j]? = some d.block) : j = d.index ∧ (j + 1) * cfg.blockSize ≤ s.committed := by
  refine ⟨?_, cached_not_progress hL hv hd hf hs hj⟩
  have hA : Adopts cfg e pl d.block d.index := .cached d hd rfl rfl hf
  rcases row_cases hj with h | h
  · exact (owned_adopts hL hv hs h hA).1
  · exact adopt_index hL hv (adopts_of_adopted hv hs h.2) hA

private theorem sched_row_lt (hs : s ∈ pl.batch) (hb : b ∈ s.row) : b < cfg.numBlocks := by
  have hown : ∀ w ∈ pl.batch, ∀ j, w.Owns j b → b < cfg.numBlocks := by
    rintro w hw j (⟨-, hf⟩ | ⟨p, hp, hrow⟩)
    · exact hv.fresh_lt b (mem_fresh hw (mem_of_getElem? hf))
    · exact (settled_layout hL hv).row_lt _ (prior_settled hw hp) b (mem_of_getElem? hrow)
  obtain ⟨j, hj⟩ := mem_iff_getElem?.1 hb
  rcases row_cases hj with h | h
  · exact hown s hs j h
  · cases adopts_of_adopted hv hs h.2 with
    | cached d hd hb _ _ => exact hb ▸ (settled_layout hL hv).done_lt d hd
    | now w hw hb hc _ => exact hown w hw j (progress_owns hv hw hb hc)

end

theorem mem_nextDone : d ∈ e.nextDone cfg pl ↔ d ∈ e.settledDone cfg pl ∧ d.block ∉ pl.fresh := by
  simp [Engine.nextDone]

/-- A step whose build raises keeps the layout. -/
theorem raise_layout (hL : Layout cfg e.live e.done) (hv : pl.Valid cfg e) :
    Layout cfg pl.settled (e.nextDone cfg pl) :=
  (settled_layout hL hv).mono (sublist_append_left _ _) fun _ hd => (mem_nextDone.1 hd).1

/-- **A step** keeps the layout. -/
theorem step_layout (hL : Layout cfg e.live e.done) (hv : pl.Valid cfg e) :
    Layout cfg (pl.batch.map req ++ pl.omitted.map fun p => p.1.settle p.2)
      (e.nextDone cfg pl) := by
  have hS := settled_layout hL hv
  have homit : ∀ {P : Req V → Prop}, (∀ r ∈ pl.settled ++ pl.ended, P r) →
      ∀ r ∈ pl.omitted.map (fun p => p.1.settle p.2), P r := by
    intro P h r hr
    obtain ⟨p, hp, rfl⟩ := mem_map.1 hr
    exact h _ (omitted_settled hp)
  have hboth : ∀ {P : Req V → Prop}, (∀ s ∈ pl.batch, P s.req) →
      (∀ r ∈ pl.settled ++ pl.ended, P r) →
      ∀ r ∈ pl.batch.map req ++ pl.omitted.map (fun p => p.1.settle p.2), P r := by
    intro P h₁ h₂ r hr
    rcases mem_append.1 hr with hr | hr
    · obtain ⟨s, hs, rfl⟩ := mem_map.1 hr
      exact h₁ s hs
    · exact homit h₂ r hr
  have hfilter : ∀ d ∈ e.nextDone cfg pl, d ∈ e.settledDone cfg pl ∧ d.block ∉ pl.fresh :=
    fun d => mem_nextDone.1
  refine ⟨hboth (fun s hs => sched_inj hL hv hs) hS.inj, hboth (fun s hs => hv.room s hs) hS.room,
    hboth (fun s hs => (hv.sure_le s hs).2) hS.sure_le, ?_, ?_, ?_, ?_,
    hboth (fun s hs b hb => sched_row_lt hL hv hs hb) hS.row_lt, ?_⟩
  · rw [pairwise_append]
    refine ⟨by rw [pairwise_map]; exact batch_shares hL hv, ?_, ?_⟩
    · have h := hS.share
      rw [pairwise_append, Plan.settled, map_append, pairwise_append] at h
      exact h.1.2.1
    · intro r hr r' hr' j j' b hj hj'
      obtain ⟨s, hs, rfl⟩ := mem_map.1 hr
      obtain ⟨q, hq, rfl⟩ := mem_map.1 hr'
      obtain ⟨e₁, h₁, h₂⟩ := omitted_shares hL hv hs hq hj hj'
      exact ⟨e₁, h₁.trans (hv.sure_le s hs).1, h₂⟩
  · intro d hd
    obtain ⟨hd, hf⟩ := hfilter d hd
    refine hboth (fun s hs j hj => ?_) (fun r hr => hS.done_live d hd r hr)
    obtain ⟨e₁, h₁⟩ := done_shares hL hv hs hd hf hj
    exact ⟨e₁, h₁.trans (hv.sure_le s hs).1⟩
  · intro d hd d' hd'
    exact hS.done_done d (hfilter d hd).1 d' (hfilter d' hd').1
  · exact fun d hd => hS.done_len d (hfilter d hd).1
  · exact fun d hd => hS.done_lt d (hfilter d hd).1

end Plan

end KVarN.Tile
