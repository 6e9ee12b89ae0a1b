import KVarN.Tile.Build

/-!
# What each stage of a build does

One specification per stage of `build`. The stages are loops over mutable
containers; each specification says what the loop leaves in terms of what it
started from, so that no later proof unfolds a loop.

* `mark_*` — which tiles are needed, which are sinks, which stay retired;
* `walkBack_spec` — every queued tile lies below a committed boundary, with all
  tiles above it resident;
* `reclaim_*` — flushed, discarded and retired tiles, by fill count and label;
* `freed_*` — the allocator once the flushed and discarded slots are free.

The allocation stage has a module of its own.
-/

namespace KVarN.Tile

open KVarN.Lib GroupState Dict List

/-! ## Needed tiles and fill counts -/

private theorem foldl_insert (l : List ℕ) :
    l.foldl (fun acc b => acc.insert b) [] = l.reverse ∪ [] :=
  foldl_eq_foldr_reverse

variable {cfg : Config} {cam : AttnMetadata} {b : ℕ}

theorem mem_written : b ∈ cam.written cfg ↔
      (∃ w ∈ cam.tileWrites cfg, w.1 = b) ∨ b ∈ cam.slotTiles cfg := by
  rw [AttnMetadata.written, foldl_insert]
  simp [or_comm]

theorem nodup_written (cfg : Config) (cam : AttnMetadata) : (cam.written cfg).Nodup := by
  rw [AttnMetadata.written, foldl_insert]
  exact nodup_nil.union _

variable (ws : List (ℕ × ℕ)) (fill f : Dict ℕ ℕ) {P : ℕ → Prop}

private theorem get?_foldl_set_of_notMem (h : ∀ w ∈ ws, w.1 ≠ b) :
    (ws.foldl (fun f w => f.set w.1 w.2) f).get? b = f.get? b := by
  induction ws generalizing f with
  | nil => rfl
  | cons w ws ih =>
    rw [foldl_cons, ih _ fun w' hw' => h w' (mem_cons_of_mem _ hw'), get?_set,
      if_neg (h w mem_cons_self).symm]

private theorem get?_foldl_set_of_mem (hb : ∃ w ∈ ws, w.1 = b) (hP : ∀ w ∈ ws, w.1 = b → P w.2) : ∃
    x, (ws.foldl (fun f w => f.set w.1 w.2) f).get? b = some x ∧ P x := by
  induction ws generalizing f with
  | nil => simp at hb
  | cons w ws ih =>
    rw [foldl_cons]
    have hP' : ∀ w' ∈ ws, w'.1 = b → P w'.2 := fun w' hw' => hP w' (mem_cons_of_mem _ hw')
    by_cases hrest : ∃ w' ∈ ws, w'.1 = b
    · exact ih _ hrest hP'
    · -- the assignment at `w` is the last one to `b`
      have hw : w.1 = b := by
        obtain ⟨w', hw', e⟩ := hb
        rcases mem_cons.1 hw' with rfl | hw'
        · exact e
        · exact absurd ⟨w', hw', e⟩ hrest
      refine ⟨w.2, ?_, hP w mem_cons_self hw⟩
      rw [get?_foldl_set_of_notMem _ _ fun w' hw' e => hrest ⟨w', hw', e⟩, hw, get?_set_self]

theorem recordFill_of_notMem (h : ∀ w ∈ cam.tileWrites cfg, w.1 ≠ b) :
    (cam.recordFill cfg fill).get? b = fill.get? b :=
  get?_foldl_set_of_notMem _ _ h

/-- A property of every fill assigned to a tile is one of its recorded fill. -/
theorem recordFill_of_mem (hb : ∃ w ∈ cam.tileWrites cfg, w.1 = b)
    (hP : ∀ w ∈ cam.tileWrites cfg, w.1 = b → P w.2) : ∃ x, (cam.recordFill cfg fill).get? b = some
    x ∧ P x :=
  get?_foldl_set_of_mem _ _ hb hP

/-- The hint covers every written tile. -/
theorem written_lt_hint (h : b ∈ cam.written cfg) : b < (cam.written cfg).foldl max 0 + 1 :=
  Nat.lt_succ_of_le ((max?_eq_some_iff.1 max?_cons').2 b (mem_cons_of_mem 0 h))

/-! ## Marking -/

section Mark

variable (cfg) (cam) (s : GroupState)

@[simp] theorem prepare_needed : (prepare cfg cam s).needed = cam.written cfg := rfl
@[simp] theorem prepare_blockToSlot : (prepare cfg cam s).state.blockToSlot = s.blockToSlot := by
  simp [prepare]
@[simp] theorem prepare_sinks : (prepare cfg cam s).state.sinks = s.sinks := by simp [prepare]
@[simp] theorem prepare_retiredSinks :
    (prepare cfg cam s).state.retiredSinks = s.retiredSinks := by simp [prepare]
@[simp] theorem prepare_poolSize : (prepare cfg cam s).state.poolSize = s.poolSize := by
  simp [prepare]
@[simp] theorem prepare_blockFill :
    (prepare cfg cam s).state.blockFill = cam.recordFill cfg s.blockFill := by simp [prepare]

theorem prepare_coherent {s : GroupState} (h : s.Coherent) : (prepare cfg cam s).state.Coherent :=
  (h.withLabels _ s.retiredSinks).ensurePool _

theorem written_lt_shape (h : b ∈ cam.written cfg) :
    b < (prepare cfg cam s).state.blockToSlotT.shape :=
  (written_lt_hint h).trans_le (le_shape_ensurePool _ _)

end Mark

/-- The marking loop changes nothing but the sinks. -/
private theorem foldl_markSink_frame {β : Type} (f : GroupState → β)
    (hf : ∀ s b, f (addSink s b) = f s) (l : List ℕ) (m : Marked) :
    f (l.foldl markSink m).state = f m.state := by
  induction l generalizing m with
  | nil => rfl
  | cons x l ih =>
    rw [foldl_cons, ih]
    unfold markSink
    split
    · rfl
    split
    · exact hf _ _
    · rfl

variable (row0 l : List ℕ) (m : Marked)

private theorem mem_markSink_needed (s0 b : ℕ) :
    b ∈ (markSink m s0).needed ↔ b ∈ m.needed ∨ (b = s0 ∧ b ∈ m.state.sinks) := by
  unfold markSink
  by_cases h : s0 ∈ m.state.sinks
  · rw [if_pos h, and_iff_left_of_imp fun e => e ▸ h]
    exact mem_insert_iff.trans or_comm
  · rw [if_neg h]
    have hno : ¬(b = s0 ∧ b ∈ m.state.sinks) := fun ⟨e, hb⟩ => h (e ▸ hb)
    split <;> simp [hno]

private theorem mem_markSink_sinks (s0 b : ℕ) :
    b ∈ (markSink m s0).state.sinks ↔ b ∈ m.state.sinks ∨ (b = s0 ∧ b ∈ m.needed) := by
  unfold markSink
  by_cases h : s0 ∈ m.state.sinks
  · rw [if_pos h]
    exact ⟨Or.inl, fun hb => hb.elim id fun ⟨e, _⟩ => e ▸ h⟩
  · rw [if_neg h]
    by_cases hn : s0 ∈ m.needed
    · rw [if_pos hn, and_iff_left_of_imp fun e => e ▸ hn]
      exact Finset.mem_insert.trans or_comm
    · rw [if_neg hn]
      exact ⟨Or.inl, fun hb => hb.elim id fun ⟨e, hb⟩ => absurd (e ▸ hb) hn⟩

private theorem mem_foldl_markSink (b : ℕ) :
    (b ∈ (l.foldl markSink m).needed ↔ b ∈ m.needed ∨ (b ∈ l ∧ b ∈ m.state.sinks)) ∧
      (b ∈ (l.foldl markSink m).state.sinks ↔ b ∈ m.state.sinks ∨ (b ∈ l ∧ b ∈ m.needed)) := by
  induction l generalizing m with
  | nil => simp
  | cons x l ih =>
    obtain ⟨h₁, h₂⟩ := ih (markSink m x)
    rw [foldl_cons, h₁, h₂, mem_markSink_needed, mem_markSink_sinks, mem_cons]
    by_cases hx : b = x
    · simp only [hx, true_and, true_or]
      constructor <;> grind
    · simp [hx]

private theorem foldl_markSink_nodup (h : m.needed.Nodup) : (l.foldl markSink m).needed.Nodup := by
  induction l generalizing m with
  | nil => exact h
  | cons x l ih =>
    refine ih _ ?_
    unfold markSink
    split
    · exact h.insert
    split <;> exact h

private theorem foldl_markSink_coherent (h : m.state.Coherent)
    (hlt : ∀ b ∈ m.needed, b < m.state.blockToSlotT.shape) : (l.foldl markSink m).state.Coherent :=
    by
  induction l generalizing m with
  | nil => exact h
  | cons x l ih =>
    have hlt' : ∀ b ∈ (markSink m x).needed, b < (markSink m x).state.blockToSlotT.shape := by
      have hs : (markSink m x).state.blockToSlotT = m.state.blockToSlotT :=
        foldl_markSink_frame blockToSlotT (fun _ _ => rfl) [x] m
      intro b hb
      rw [hs]
      rcases (mem_markSink_needed m x b).1 hb with hb | ⟨-, hb⟩
      · exact hlt b hb
      · exact h.sinks_lt b hb
    refine ih _ ?_ hlt'
    unfold markSink
    split
    · exact h
    split
    · rename_i hn; exact h.addSink (hlt x hn)
    · exact h

/-! ## Un-retiring -/

variable (s : GroupState)

private theorem unretire_sinks (x b : ℕ) : b ∈ (unretire row0 s x).sinks ↔ b ∈ s.sinks ∧
    ¬(b = x ∧ b ∉ row0) := by
  unfold unretire
  split
  · rename_i h
    have hx : b = x ∧ b ∉ row0 ↔ b = x := and_iff_left_of_imp fun e => e ▸ h.1
    exact Finset.mem_erase.trans (and_comm.trans (and_congr_right' (not_congr hx.symm)))
  · rename_i h
    refine ⟨fun hb => ⟨hb, ?_⟩, And.left⟩
    rintro ⟨rfl, hrow⟩
    exact h ⟨hrow, hb⟩

private theorem foldl_unretire_frame {β : Type} (f : GroupState → β)
    (hd : ∀ s b, f (dropSink s b) = f s)
    (hr : ∀ s t, f { s with retiredSinks := t } = f s) (row0 l : List ℕ) (s : GroupState) :
    f (l.foldl (unretire row0) s) = f s := by
  induction l generalizing s with
  | nil => rfl
  | cons x l ih =>
    rw [foldl_cons, ih]
    unfold unretire
    split
    · exact (hd _ _).trans (hr _ _)
    · exact hr _ _

private theorem foldl_unretire_sinks (b : ℕ) : b ∈ (l.foldl (unretire row0) s).sinks ↔ b ∈ s.sinks ∧
    ¬(b ∈ l ∧ b ∉ row0) := by
  induction l generalizing s with
  | nil => simp
  | cons x l ih =>
    rw [foldl_cons, ih, unretire_sinks, mem_cons]
    tauto

private theorem foldl_unretire_retired : (l.foldl (unretire row0) s).retiredSinks.keys =
    s.retiredSinks.keys.filter fun b => b ∉ l := by
  induction l generalizing s with
  | nil => simp
  | cons x l ih =>
    have hx : (unretire row0 s x).retiredSinks = s.retiredSinks.pop x := by
      unfold unretire; split <;> rfl
    rw [foldl_cons, ih, hx, keys_pop, filter_filter]
    refine filter_congr fun b _ => ?_
    simp only [mem_cons, not_or, ne_eq, Bool.decide_and, decide_not]
    exact Bool.and_comm _ _

private theorem foldl_unretire_coherent {s : GroupState} (h : s.Coherent) :
    (l.foldl (unretire row0) s).Coherent := by
  induction l generalizing s with
  | nil => exact h
  | cons x l ih =>
    refine ih ?_
    unfold unretire
    split
    · exact (h.withLabels s.blockFill _).dropSink x
    · exact h.withLabels s.blockFill _

/-! ## The marking stage as a whole -/

section MarkSpec

variable (cfg) (cam)

/-- The marking stage changes nothing but the labels. -/
private theorem mark_frame {β : Type} (f : GroupState → β)
    (ha : ∀ s b, f (addSink s b) = f s) (hd : ∀ s b, f (dropSink s b) = f s)
    (hr : ∀ s t, f { s with retiredSinks := t } = f s) :
    f (mark cfg cam s).state = f (prepare cfg cam s).state :=
  (foldl_unretire_frame f hd hr _ _ _).trans (foldl_markSink_frame f ha _ _)

@[simp] theorem mark_blockToSlot : (mark cfg cam s).state.blockToSlot = s.blockToSlot :=
  (mark_frame cfg cam s blockToSlot (fun _ _ => rfl) (fun _ _ => rfl)
    fun _ _ => rfl).trans (prepare_blockToSlot cfg cam s)

@[simp] theorem mark_poolSize : (mark cfg cam s).state.poolSize = s.poolSize :=
  (mark_frame cfg cam s poolSize (fun _ _ => rfl) (fun _ _ => rfl)
    fun _ _ => rfl).trans (prepare_poolSize cfg cam s)

@[simp] theorem mark_blockFill :
    (mark cfg cam s).state.blockFill = cam.recordFill cfg s.blockFill :=
  (mark_frame cfg cam s blockFill (fun _ _ => rfl) (fun _ _ => rfl)
    fun _ _ => rfl).trans (prepare_blockFill cfg cam s)

private theorem mark_blockToSlotT :
    (mark cfg cam s).state.blockToSlotT = (prepare cfg cam s).state.blockToSlotT :=
  mark_frame cfg cam s blockToSlotT (fun _ _ => rfl) (fun _ _ => rfl) fun _ _ => rfl

private theorem markSinks_retiredSinks :
    (markSinks cfg cam s).state.retiredSinks = s.retiredSinks :=
  (foldl_markSink_frame retiredSinks (fun _ _ => rfl) _ _).trans
    (prepare_retiredSinks cfg cam s)

theorem nodup_mark_needed : (mark cfg cam s).needed.Nodup :=
  foldl_markSink_nodup _ _ (nodup_written cfg cam)

variable {cfg cam s}

/-- **The needed tiles**: what the step writes, and the first tile of every
request whose first tile is a sink. -/
theorem mem_mark_needed :
    b ∈ (mark cfg cam s).needed ↔ b ∈ cam.written cfg ∨ (b ∈ cam.firstTiles cfg ∧ b ∈ s.sinks) := by
  have h := (mem_foldl_markSink (cam.firstTiles cfg) (prepare cfg cam s) b).1
  simpa [mark, markSinks] using h

/-- **The sinks**: the old ones and the first tiles written now, less the recycled
retired tiles that are nobody's first tile. -/
theorem mem_mark_sinks : b ∈ (mark cfg cam s).state.sinks ↔
      (b ∈ s.sinks ∨ (b ∈ cam.firstTiles cfg ∧ b ∈ cam.written cfg)) ∧
        ¬(b ∈ s.retiredSinks ∧ b ∈ (mark cfg cam s).needed ∧ b ∉ cam.firstTiles cfg) := by
  have h₁ := (mem_foldl_markSink (cam.firstTiles cfg) (prepare cfg cam s) b).2
  simp only [prepare_sinks, prepare_needed] at h₁
  simp only [mark, foldl_unretire_sinks, markSinks_retiredSinks, mem_filter, decide_eq_true_eq]
  rw [markSinks, h₁, mem_def]
  simp only [and_assoc]

theorem mark_retired_keys : (mark cfg cam s).state.retiredSinks.keys
      = s.retiredSinks.keys.filter fun b => b ∉ (mark cfg cam s).needed := by
  simp only [mark, foldl_unretire_retired, markSinks_retiredSinks]
  refine filter_congr fun b hb => ?_
  simp [hb]

theorem mem_mark_retired : b ∈ (mark cfg cam s).state.retiredSinks ↔
      b ∈ s.retiredSinks ∧ b ∉ (mark cfg cam s).needed := by
  rw [mem_def, mark_retired_keys, mem_filter, mem_def]
  simp

theorem mark_coherent (h : s.Coherent) : (mark cfg cam s).state.Coherent :=
  foldl_unretire_coherent _ _ (foldl_markSink_coherent _ _ (prepare_coherent cfg cam h)
    fun _ hb => written_lt_shape cfg cam s hb)

theorem mark_needed_lt (h : s.Coherent) (hb : b ∈ (mark cfg cam s).needed) :
    b < (mark cfg cam s).state.blockToSlotT.shape := by
  rw [mark_blockToSlotT]
  rcases mem_mark_needed.1 hb with hb | ⟨-, hb⟩
  · exact written_lt_shape cfg cam s hb
  · exact (prepare_coherent cfg cam h).sinks_lt b (by simpa using hb)

end MarkSpec

/-! ## The walk-back -/

/-- The tiles `t ≤ u < n` of a row all hold slots and carry no sink label. -/
def WalkedTo (cfg : Config) (s : GroupState) (table : List ℤ) (n t : ℕ) : Prop :=
  ∀ u, t ≤ u → u < n → ∃ b, rowTile cfg table u = some b ∧ b ∈ s.blockToSlot ∧ b ∉ s.sinks

variable {s} {rows : List BatchRow} {table : List ℤ} {t : ℕ} {flush flush' : List ℕ}

private theorem walkRow_spec (h : walkRow cfg s table t flush = .ok flush') :
    (flush.Nodup → flush'.Nodup) ∧ ∀ b ∈ flush', b ∈ flush ∨ ∃ t', 1 ≤ t' ∧ t' ≤ t ∧ rowTile cfg
    table t' = some b ∧ WalkedTo cfg s table (t + 1) t' := by
  induction t generalizing flush with
  | zero =>
    obtain rfl := Except.ok.inj h
    exact ⟨id, fun b hb => Or.inl hb⟩
  | succ t ih =>
    have stop : (Except.ok flush : Except BuildError (List ℕ)) = .ok flush' →
        (flush.Nodup → flush'.Nodup) ∧ ∀ b ∈ flush', b ∈ flush ∨
          ∃ t', 1 ≤ t' ∧ t' ≤ t + 1 ∧ rowTile cfg table t' = some b ∧
            WalkedTo cfg s table (t + 1 + 1) t' := by
      intro e
      obtain rfl := Except.ok.inj e
      exact ⟨id, fun b hb => Or.inl hb⟩
    cases hv : table[(t + 1) / cfg.tpr]? with
    | none => simp [walkRow, hv] at h
    | some vbid =>
      simp only [walkRow, hv] at h
      split at h
      · exact stop h
      rename_i hneg
      split at h
      · exact stop h
      rename_i hgo
      push Not at hgo
      obtain ⟨hq, hs, hd⟩ := hgo
      have htile : rowTile cfg table (t + 1) = some (cfg.tileRow vbid (t + 1)) := by
        simp [rowTile, hv, hneg]
      -- tile `t + 1` is queued; the recursion walks the tiles below it
      have hto : ∀ {t'}, t' ≤ t + 1 → WalkedTo cfg s table (t + 1) t' →
          WalkedTo cfg s table (t + 1 + 1) t' := by
        intro t' _ hw u hu₁ hu₂
        rcases Nat.lt_succ_iff_lt_or_eq.1 hu₂ with hu | rfl
        · exact hw u hu₁ hu
        · exact ⟨_, htile, hd, hs⟩
      obtain ⟨hnd, hmem⟩ := ih h
      refine ⟨fun hf => hnd ?_, fun b hb => ?_⟩
      · exact nodup_append.2 ⟨hf, by simp, by
          intro a ha c hc e
          rw [mem_singleton] at hc
          exact hq (hc ▸ e ▸ ha)⟩
      · rcases hmem b hb with hb | ⟨t', h₁, h₂, h₃, h₄⟩
        · rcases mem_append.1 hb with hb | hb
          · exact Or.inl hb
          · rw [mem_singleton] at hb
            subst hb
            exact Or.inr ⟨t + 1, by omega, le_rfl, htile,
              hto le_rfl fun u hu₁ hu₂ => absurd hu₁ (by omega)⟩
        · exact Or.inr ⟨t', h₁, by omega, h₃, hto (by omega) h₄⟩

/-- Tile row `b` is tile `t ≥ 1` of row `r`, below its committed boundary, and
every tile from it up to the boundary holds a slot and is no sink. -/
def Walked (cfg : Config) (s : GroupState) (r : BatchRow) (b : ℕ) : Prop :=
  ∃ t, 1 ≤ t ∧ t < r.committed / cfg.group ∧ rowTile cfg r.table t = some b ∧
    WalkedTo cfg s r.table (r.committed / cfg.group) t

/-- **The walk-back** queues tiles it reached from a committed boundary, once each. -/
theorem walkBack_spec (h : walkBack cfg s rows flush = .ok flush') : (flush.Nodup → flush'.Nodup) ∧
    ∀ b ∈ flush', b ∈ flush ∨ ∃ r ∈ rows, Walked cfg s r b := by
  induction rows generalizing flush with
  | nil =>
    obtain rfl := Except.ok.inj h
    exact ⟨id, fun b hb => Or.inl hb⟩
  | cons r rows ih =>
    have lift : ∀ b, (∃ r' ∈ rows, Walked cfg s r' b) → ∃ r' ∈ r :: rows, Walked cfg s r' b :=
      fun b ⟨r', hr', hw⟩ => ⟨r', mem_cons_of_mem _ hr', hw⟩
    rw [walkBack] at h
    split at h
    · obtain ⟨hnd, hmem⟩ := ih h
      exact ⟨hnd, fun b hb => (hmem b hb).imp_right (lift b)⟩
    split at h
    · exact absurd h (by simp)
    rename_i flush₁ hrow
    obtain ⟨hnd₁, hmem₁⟩ := walkRow_spec hrow
    obtain ⟨hnd, hmem⟩ := ih h
    refine ⟨fun hf => hnd (hnd₁ hf), fun b hb => ?_⟩
    rcases hmem b hb with hb | hb
    · rcases hmem₁ b hb with hb | ⟨t, h₁, h₂, h₃, h₄⟩
      · exact Or.inl hb
      · have hpos : r.committed / cfg.group - 1 + 1 = r.committed / cfg.group := by omega
        rw [hpos] at h₄
        exact Or.inr ⟨r, mem_cons_self, t, h₁, by omega, h₃, h₄⟩
    · exact Or.inr (lift b hb)

/-- A tile the walk-back can reach holds a slot and is no sink. -/
theorem Walked.resident {r : BatchRow}
    (h : Walked cfg s r b) : b ∈ s.blockToSlot ∧ b ∉ s.sinks := by
  obtain ⟨t, -, hlt, htile, hto⟩ := h
  obtain ⟨c, hc, hd, hs⟩ := hto t le_rfl hlt
  rw [htile] at hc
  obtain rfl := Option.some.inj hc
  exact ⟨hd, hs⟩

private theorem walkRow_ok (flush : List ℕ) (h : t / cfg.tpr < table.length) : ∃ flush', walkRow cfg
    s table t flush = .ok flush' := by
  induction t generalizing flush with
  | zero => exact ⟨flush, rfl⟩
  | succ t ih =>
    have ht : t / cfg.tpr < table.length :=
      (Nat.div_le_div_right (Nat.le_succ t)).trans_lt h
    rw [walkRow, getElem?_eq_getElem h]
    simp only
    split
    · exact ⟨_, rfl⟩
    split
    · exact ⟨_, rfl⟩
    · exact ih _ ht

private theorem walkRow_ne_exhausted (cfg : Config) (s : GroupState) (table : List ℤ) (t : ℕ)
    (flush : List ℕ) : walkRow cfg s table t flush ≠ .error .poolExhausted := by
  induction t generalizing flush with
  | zero => simp [walkRow]
  | succ t ih =>
    rw [walkRow]
    split
    · simp
    split
    · simp
    split
    · simp
    · exact ih _

/-- The walk-back raises nothing but index errors. -/
theorem walkBack_ne_exhausted (cfg : Config) (s : GroupState) (rows : List BatchRow)
    (flush : List ℕ) : walkBack cfg s rows flush ≠ .error .poolExhausted := by
  induction rows generalizing flush with
  | nil => simp [walkBack]
  | cons r rows ih =>
    rw [walkBack]
    split
    · exact ih _
    split
    · rename_i e he
      intro hx
      rw [Except.error.injEq] at hx
      exact walkRow_ne_exhausted _ _ _ _ _ (hx ▸ he)
    · exact ih _

/-- No row reaches past the block table, so the walk-back returns. -/
theorem walkBack_ok (flush : List ℕ)
    (h : ∀ r ∈ rows, r.table ≠ [] → (r.committed / cfg.group - 1) / cfg.tpr < r.table.length) : ∃
    flush', walkBack cfg s rows flush = .ok flush' := by
  induction rows generalizing flush with
  | nil => exact ⟨flush, rfl⟩
  | cons r rows ih =>
    have hrest := fun fl => ih fl fun r' hr' => h r' (mem_cons_of_mem _ hr')
    rw [walkBack]
    split
    · exact hrest flush
    · rename_i hne
      obtain ⟨fl, hfl⟩ := walkRow_ok (s := s) flush
        (h r mem_cons_self fun e => hne (Or.inr e))
      rw [hfl]
      exact hrest fl

/-! ## Reclaim -/

/-- The reclaim loop changes nothing but the labels. -/
private theorem foldl_reclaimTile_frame {β : Type} (f : GroupState → β)
    (hd : ∀ s b, f (dropSink s b) = f s)
    (hr : ∀ s t, f { s with retiredSinks := t } = f s) (l : List ℕ) (r : Reclaim) :
    f (l.foldl (reclaimTile cfg) r).state = f r.state := by
  induction l generalizing r with
  | nil => rfl
  | cons x l ih =>
    rw [foldl_cons, ih]
    unfold reclaimTile
    split
    · split
      · exact hr _ _
      · rfl
    · dsimp only
      split
      · exact hd _ _
      · rfl

private theorem reclaimTile_sinks (cfg : Config) (r : Reclaim) (x b : ℕ) :
    b ∈ (reclaimTile cfg r x).state.sinks ↔ b ∈ r.state.sinks ∧ ¬(b = x ∧ ¬r.state.Full cfg b) := by
  unfold reclaimTile
  by_cases hf : r.state.Full cfg x
  · rw [if_pos hf]
    have hno : ¬(b = x ∧ ¬r.state.Full cfg b) := fun ⟨e, h⟩ => h (e ▸ hf)
    split <;> simp [hno]
  · rw [if_neg hf]
    dsimp only
    split
    · have hx : b = x ∧ ¬r.state.Full cfg b ↔ b = x := and_iff_left_of_imp fun e => e ▸ hf
      exact Finset.mem_erase.trans (and_comm.trans (and_congr_right' (not_congr hx.symm)))
    · rename_i hx
      refine ⟨fun hb => ⟨hb, ?_⟩, And.left⟩
      rintro ⟨rfl, -⟩
      exact hx hb

/-- The reclaim loop, over distinct tiles. The labels it drops are those of tiles
it has passed, so every decision reads the labels of the start. -/
private theorem foldl_reclaimTile (cfg : Config) (l : List ℕ) (r : Reclaim) (hl : l.Nodup) :
    (l.foldl (reclaimTile cfg) r).flush
      = r.flush ++ l.filter (fun b => r.state.Full cfg b ∧ b ∉ r.state.sinks) ∧
    (l.foldl (reclaimTile cfg) r).discard = r.discard ++ l.filter (fun b => ¬r.state.Full cfg b) ∧
    (∀ b, b ∈ (l.foldl (reclaimTile cfg) r).state.sinks ↔
      b ∈ r.state.sinks ∧ ¬(b ∈ l ∧ ¬r.state.Full cfg b)) ∧
    (l.foldl (reclaimTile cfg) r).state.retiredSinks.keys = r.state.retiredSinks.keys ++
        l.filter (fun b => (r.state.Full cfg b ∧ b ∈ r.state.sinks) ∧
          b ∉ r.state.retiredSinks) := by
  induction l generalizing r with
  | nil => simp
  | cons x l ih =>
    obtain ⟨hx, hl'⟩ := nodup_cons.1 hl
    have hfill : (reclaimTile cfg r x).state.blockFill = r.state.blockFill :=
      foldl_reclaimTile_frame blockFill (fun _ _ => rfl) (fun _ _ => rfl) [x] r
    have hfull : ∀ b, (reclaimTile cfg r x).state.Full cfg b ↔ r.state.Full cfg b := by
      intro b; unfold GroupState.Full; rw [hfill]
    have hne : ∀ b ∈ l, b ≠ x := fun b hb e => hx (e ▸ hb)
    have hsink : ∀ b ∈ l, (b ∈ (reclaimTile cfg r x).state.sinks ↔ b ∈ r.state.sinks) := by
      intro b hb
      rw [reclaimTile_sinks]
      exact ⟨And.left, fun h => ⟨h, fun ⟨e, _⟩ => hne b hb e⟩⟩
    obtain ⟨h₁, h₂, h₃, h₄⟩ := ih (reclaimTile cfg r x) hl'
    rw [foldl_cons]
    have hret : ∀ b ∈ l, (b ∈ (reclaimTile cfg r x).state.retiredSinks ↔
        b ∈ r.state.retiredSinks) := by
      intro b hb
      unfold reclaimTile
      split
      · split
        · simp [hne b hb]
        · rfl
      · dsimp only; split <;> rfl
    refine ⟨?_, ?_, ?_, ?_⟩
    · rw [h₁]
      have hc : l.filter (fun b => (reclaimTile cfg r x).state.Full cfg b ∧
          b ∉ (reclaimTile cfg r x).state.sinks)
          = l.filter (fun b => r.state.Full cfg b ∧ b ∉ r.state.sinks) :=
        filter_congr fun b hb => by simp only [hfull, hsink b hb]
      rw [hc, filter_cons]
      unfold reclaimTile
      by_cases hf : r.state.Full cfg x <;>
        by_cases hs : x ∈ r.state.sinks <;> simp [hf, hs]
    · rw [h₂]
      have hc : l.filter (fun b => ¬(reclaimTile cfg r x).state.Full cfg b)
          = l.filter (fun b => ¬r.state.Full cfg b) :=
        filter_congr fun b _ => by simp only [hfull]
      rw [hc, filter_cons]
      unfold reclaimTile
      by_cases hf : r.state.Full cfg x <;>
        by_cases hs : x ∈ r.state.sinks <;> simp [hf, hs]
    · intro b
      rw [h₃, reclaimTile_sinks, hfull, mem_cons]
      tauto
    · rw [h₄]
      have hc : l.filter (fun b => ((reclaimTile cfg r x).state.Full cfg b ∧
            b ∈ (reclaimTile cfg r x).state.sinks) ∧
            b ∉ (reclaimTile cfg r x).state.retiredSinks)
          = l.filter (fun b => (r.state.Full cfg b ∧ b ∈ r.state.sinks) ∧
            b ∉ r.state.retiredSinks) :=
        filter_congr fun b hb => by simp only [hfull, hsink b hb, hret b hb]
      rw [hc, filter_cons]
      unfold reclaimTile
      by_cases hf : r.state.Full cfg x <;>
        by_cases hs : x ∈ r.state.sinks <;> simp only [hf, hs, if_true, if_false]
      · by_cases hr : x ∈ r.state.retiredSinks
        · simp [hr, keys_set_of_mem hr]
        · simp [hr, keys_set_of_notMem hr]
      all_goals simp [dropSink]

private theorem foldl_reclaimTile_coherent (cfg : Config) (l : List ℕ) (r : Reclaim)
    (h : r.state.Coherent) : (l.foldl (reclaimTile cfg) r).state.Coherent := by
  induction l generalizing r with
  | nil => exact h
  | cons x l ih =>
    refine ih _ ?_
    unfold reclaimTile
    split
    · split
      · exact h.withLabels r.state.blockFill _
      · exact h
    · dsimp only
      split
      · exact h.dropSink x
      · exact h

section ReclaimSpec

variable {m}

/-- The slot-holding tiles the reclaim looks at. -/
def reclaimable (m : Marked) (flush : List ℕ) : List ℕ :=
  m.state.blockToSlot.keys.filter fun b => b ∉ m.needed ∧ b ∉ flush

theorem mem_reclaimable : b ∈ reclaimable m flush ↔
    b ∈ m.state.blockToSlot ∧ b ∉ m.needed ∧ b ∉ flush := by
  simp [reclaimable, mem_def]

private theorem nodup_reclaimable (m : Marked) (flush : List ℕ) : (reclaimable m flush).Nodup :=
  m.state.blockToSlot.nodup_keys.filter _

@[simp] theorem reclaim_blockToSlot :
    (reclaim cfg m flush).state.blockToSlot = m.state.blockToSlot :=
  foldl_reclaimTile_frame blockToSlot (fun _ _ => rfl) (fun _ _ => rfl) _ _
@[simp] theorem reclaim_poolSize : (reclaim cfg m flush).state.poolSize = m.state.poolSize :=
  foldl_reclaimTile_frame poolSize (fun _ _ => rfl) (fun _ _ => rfl) _ _
@[simp] theorem reclaim_blockFill : (reclaim cfg m flush).state.blockFill = m.state.blockFill :=
  foldl_reclaimTile_frame blockFill (fun _ _ => rfl) (fun _ _ => rfl) _ _
@[simp] theorem reclaim_blockToSlotT :
    (reclaim cfg m flush).state.blockToSlotT = m.state.blockToSlotT :=
  foldl_reclaimTile_frame blockToSlotT (fun _ _ => rfl) (fun _ _ => rfl) _ _

theorem mem_reclaim_flush : b ∈ (reclaim cfg m flush).flush ↔
    b ∈ flush ∨ (b ∈ reclaimable m flush ∧ m.state.Full cfg b ∧ b ∉ m.state.sinks) := by
  have h := (foldl_reclaimTile cfg _ ⟨m.state, flush, []⟩ (nodup_reclaimable m flush)).1
  rw [reclaim, show (m.state.blockToSlot.keys.filter fun b => b ∉ m.needed ∧ b ∉ flush)
    = reclaimable m flush from rfl, h]
  simp

theorem mem_reclaim_discard : b ∈ (reclaim cfg m flush).discard ↔
    b ∈ reclaimable m flush ∧ ¬m.state.Full cfg b := by
  have h := (foldl_reclaimTile cfg _ ⟨m.state, flush, []⟩ (nodup_reclaimable m flush)).2.1
  rw [reclaim, show (m.state.blockToSlot.keys.filter fun b => b ∉ m.needed ∧ b ∉ flush)
    = reclaimable m flush from rfl, h]
  simp

theorem mem_reclaim_sinks : b ∈ (reclaim cfg m flush).state.sinks ↔
    b ∈ m.state.sinks ∧ ¬(b ∈ reclaimable m flush ∧ ¬m.state.Full cfg b) :=
  (foldl_reclaimTile cfg _ ⟨m.state, flush, []⟩ (nodup_reclaimable m flush)).2.2.1 b

/-- **Retirement order**: the tiles retired before, then the full sinks the
reclaim finds, in the order of the slot map. -/
theorem reclaim_retired_keys : (reclaim cfg m flush).state.retiredSinks.keys
    = m.state.retiredSinks.keys ++ (reclaimable m flush).filter fun b =>
        (m.state.Full cfg b ∧ b ∈ m.state.sinks) ∧ b ∉ m.state.retiredSinks :=
  (foldl_reclaimTile cfg _ ⟨m.state, flush, []⟩ (nodup_reclaimable m flush)).2.2.2

theorem mem_reclaim_retired : b ∈ (reclaim cfg m flush).state.retiredSinks ↔
    b ∈ m.state.retiredSinks ∨
      (b ∈ reclaimable m flush ∧ m.state.Full cfg b ∧ b ∈ m.state.sinks) := by
  rw [mem_def, reclaim_retired_keys, mem_append, mem_filter, ← mem_def]
  by_cases h : b ∈ m.state.retiredSinks <;> simp [h]

theorem reclaim_coherent (h : m.state.Coherent) : (reclaim cfg m flush).state.Coherent :=
  foldl_reclaimTile_coherent cfg _ _ h

end ReclaimSpec

/-! ## Freeing slots -/

private theorem foldl_release_frame (l : List ℕ) (s : GroupState) :
    (l.foldl release s).poolSize = s.poolSize ∧ (l.foldl release s).sinks = s.sinks ∧
    (l.foldl release s).retiredSinks = s.retiredSinks ∧
    (l.foldl release s).blockToSlotT.shape = s.blockToSlotT.shape := by
  induction l generalizing s with
  | nil => simp
  | cons x l ih => simpa using ih (s.release x)

private theorem foldl_release_get? (l : List ℕ) (s : GroupState) (b : ℕ) :
    (l.foldl release s).blockToSlot.get? b = (if b ∈ l then none else s.blockToSlot.get? b) ∧
    (l.foldl release s).blockFill.get? b = if b ∈ l then none else s.blockFill.get? b := by
  induction l generalizing s with
  | nil => simp
  | cons x l ih =>
    obtain ⟨h₁, h₂⟩ := ih (s.release x)
    rw [foldl_cons, h₁, h₂, release_blockToSlot, release_blockFill, get?_pop, get?_pop]
    by_cases hl : b ∈ l <;> by_cases hx : b = x <;> simp [hl, hx]

private theorem foldl_release_coherent (l : List ℕ) {s : GroupState} (h : s.Coherent) :
    (l.foldl release s).Coherent := by
  induction l generalizing s with
  | nil => exact h
  | cons x l ih => exact ih (h.release x)

section Freed

variable (b) (r : Reclaim)

@[simp] theorem freed_poolSize : r.freed.poolSize = r.state.poolSize :=
  (foldl_release_frame _ _).1
@[simp] theorem freed_sinks : r.freed.sinks = r.state.sinks := (foldl_release_frame _ _).2.1
@[simp] theorem freed_retiredSinks : r.freed.retiredSinks = r.state.retiredSinks :=
  (foldl_release_frame _ _).2.2.1
@[simp] theorem freed_shape : r.freed.blockToSlotT.shape = r.state.blockToSlotT.shape :=
  (foldl_release_frame _ _).2.2.2

theorem freed_get? : r.freed.blockToSlot.get? b
    = if b ∈ r.flush ++ r.discard then none else r.state.blockToSlot.get? b :=
  (foldl_release_get? _ _ b).1

theorem freed_fill : r.freed.blockFill.get? b
    = if b ∈ r.flush ++ r.discard then none else r.state.blockFill.get? b :=
  (foldl_release_get? _ _ b).2

theorem freed_coherent (h : r.state.Coherent) : r.freed.Coherent := foldl_release_coherent _ h

theorem mem_freed : b ∈ r.freed.blockToSlot ↔
    b ∈ r.state.blockToSlot ∧ b ∉ r.flush ∧ b ∉ r.discard := by
  rw [mem_iff_get?, freed_get?, mem_iff_get?]
  by_cases h : b ∈ r.flush ++ r.discard
  · rw [if_pos h]
    rw [mem_append] at h
    constructor
    · rintro ⟨_, h'⟩; cases h'
    · rintro ⟨-, h₁, h₂⟩; exact absurd h (by tauto)
  · rw [if_neg h]
    rw [mem_append, not_or] at h
    exact ⟨fun h' => ⟨h', h⟩, And.left⟩

end Freed

end KVarN.Tile
