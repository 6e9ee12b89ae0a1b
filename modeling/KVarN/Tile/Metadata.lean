import KVarN.Tile.Engine

/-!
# The metadata of a plan, as the builder sees it

`build` reads tensors: cumulative query lengths, a padded block table, a slot
mapping. This module translates what it computes from them back into the terms of
the plan: which tile rows a request's tiles live in (`Config.tile`), which tiles
the step writes (`mem_written_cam`), and what the walk-back can reach
(`reached_cam`).
-/

namespace KVarN.Tile

open KVarN.Tile.Sched AttnMetadata Config List

variable {V R : Type} {cfg : Config}

/-! ## Tiles of a row -/

/-- The tile row of tile `t` of a request. -/
def Config.tile (cfg : Config) (row : List ℕ) (t : ℕ) : Option ℕ :=
  row[t / cfg.tpr]?.map fun b => b * cfg.tpr + t % cfg.tpr

variable {row : List ℕ} {t τ n : ℕ}

theorem tile_eq_some :
    cfg.tile row t = some τ ↔ ∃ b, row[t / cfg.tpr]? = some b ∧ b * cfg.tpr + t % cfg.tpr = τ := by
  simp [tile, Option.map_eq_some_iff]

/-- The quotient and the offset of a position. -/
theorem mul_add_div_mod {d k : ℕ} (b : ℕ) (hk : k < d) :
    (b * d + k) / d = b ∧ (b * d + k) % d = k :=
  (Nat.div_mod_unique (by omega)).2 ⟨by rw [Nat.mul_comm, Nat.add_comm], hk⟩

/-- A tile row belongs to one block, at one offset. -/
theorem tile_block {b c k l : ℕ} (hk : k < cfg.tpr) (hl : l < cfg.tpr)
    (h : b * cfg.tpr + k = c * cfg.tpr + l) : b = c ∧ k = l := by
  obtain ⟨hb, hk⟩ := mul_add_div_mod b hk
  obtain ⟨hc, hl⟩ := mul_add_div_mod c hl
  rw [h] at hb hk
  exact ⟨hb.symm.trans hc, hk.symm.trans hl⟩

theorem tile_mod_lt (cfg : Config) (t : ℕ) : t % cfg.tpr < cfg.tpr := Nat.mod_lt _ cfg.tpr_pos

/-- Two tiles in one tile row are in one block, at one offset of it. -/
theorem tile_inj {row' : List ℕ} {t' : ℕ} (h : cfg.tile row t = some τ)
    (h' : cfg.tile row' t' = some τ) :
    ∃ b, row[t / cfg.tpr]? = some b ∧ row'[t' / cfg.tpr]? = some b ∧
      t % cfg.tpr = t' % cfg.tpr := by
  obtain ⟨b, hb, e⟩ := tile_eq_some.1 h
  obtain ⟨c, hc, e'⟩ := tile_eq_some.1 h'
  obtain ⟨rfl, hm⟩ := tile_block (tile_mod_lt cfg t) (tile_mod_lt cfg t') (e.trans e'.symm)
  exact ⟨b, hb, hc, hm⟩

theorem tile_exists (h : t / cfg.tpr < row.length) : ∃ τ, cfg.tile row t = some τ :=
  ⟨_, tile_eq_some.2 ⟨row[t / cfg.tpr], getElem?_eq_getElem h, rfl⟩⟩

/-- A position with a block has a tile. -/
theorem tile_lt_of_pos (ht : t * cfg.group < n)
    (hn : n ≤ row.length * cfg.blockSize) : t / cfg.tpr < row.length := by
  rw [Nat.div_lt_iff_lt_mul cfg.tpr_pos]
  have h : t * cfg.group < row.length * cfg.tpr * cfg.group := by
    rw [Nat.mul_assoc, cfg.tpr_mul_group]
    omega
  exact Nat.lt_of_mul_lt_mul_right h

/-- The tiles of block `j` end where the block does. -/
theorem block_le_iff {j : ℕ} : (j + 1) * cfg.blockSize ≤ n ↔ (j + 1) * cfg.tpr ≤ n / cfg.group := by
  rw [Nat.le_div_iff_mul_le cfg.group_pos, Nat.mul_assoc, cfg.tpr_mul_group]

/-- A tile at or above the tile of `n` is in no block that ends by `n`. -/
theorem not_block_le (h : n / cfg.group ≤ t) : ¬(t / cfg.tpr + 1) * cfg.blockSize ≤ n := by
  rw [block_le_iff]
  intro hx
  have hlt : t < (t / cfg.tpr + 1) * cfg.tpr := by
    rw [Nat.mul_comm]
    exact Nat.lt_mul_div_succ t cfg.tpr_pos
  omega

private theorem pos_div (cfg : Config) (p : ℕ) : p / cfg.group / cfg.tpr = p / cfg.blockSize := by
  rw [Nat.div_div_eq_div_mul, Nat.mul_comm, cfg.tpr_mul_group]

private theorem pos_mod (cfg : Config) (p : ℕ) :
    p % cfg.blockSize / cfg.group = p / cfg.group % cfg.tpr := by
  rw [← cfg.tpr_mul_group, Nat.mul_comm, Nat.mod_mul_right_div_self]

/-- A mapped token goes to the tile of its position, at the offset of its position. -/
theorem slotOf_spec {p : ℕ} (h : cfg.tile row (p / cfg.group) = some τ) :
    0 ≤ slotOf cfg row p ∧ (slotOf cfg row p / (cfg.group : ℤ)).toNat = τ ∧
      (slotOf cfg row p % (cfg.group : ℤ)).toNat = p % cfg.group := by
  obtain ⟨b, hb, rfl⟩ := tile_eq_some.1 h
  rw [pos_div] at hb
  have hmod : p % cfg.blockSize % cfg.group = p % cfg.group := by
    rw [← cfg.tpr_mul_group]
    exact Nat.mod_mul_left_mod p cfg.tpr cfg.group
  have hs : slotOf cfg row p = ((b * cfg.tpr * cfg.group + p % cfg.blockSize : ℕ) : ℤ) := by
    simp only [slotOf, hb]
    rw [Nat.mul_assoc, cfg.tpr_mul_group]
  rw [hs]
  refine ⟨Int.natCast_nonneg _, ?_, ?_⟩
  · rw [← Int.natCast_ediv, Int.toNat_natCast, Nat.mul_comm _ cfg.group,
      Nat.mul_add_div cfg.group_pos, pos_mod]
  · rw [← Int.natCast_emod, Int.toNat_natCast, Nat.mul_comm _ cfg.group, Nat.mul_add_mod, hmod]

/-! ## Rows of the metadata -/

private theorem zipWith_cumSum (a : ℤ) (l : List ℕ) :
    zipWith (fun x y => y - x) (cumSum a l) (cumSum a l).tail = l.map Int.ofNat := by
  induction l generalizing a with
  | nil => rfl
  | cons x l ih =>
    have hhd : ∃ rest, cumSum (a + x) l = (a + x) :: rest := by
      cases l <;> exact ⟨_, rfl⟩
    obtain ⟨rest, hrest⟩ := hhd
    have ih' := ih (a + x)
    simp only [cumSum, tail_cons, map_cons] at ih' ⊢
    rw [hrest] at ih' ⊢
    have hx : a + (x : ℤ) - a = x := by omega
    rw [zipWith_cons_cons, ← ih', tail_cons, hx]
    rfl

/-- The row of a scheduled request. -/
def Sched.batchRow (btCols : ℕ) (s : Sched V) : BatchRow :=
  ⟨s.vals.length, s.query.length, s.table btCols⟩

theorem rows_cam (pl : Plan V) : (pl.cam cfg).rows = pl.batch.map (batchRow pl.btCols) := by
  have hq : (pl.cam cfg).queryLens = pl.batch.map fun s => (s.query.length : ℤ) := by
    simp only [queryLens, Plan.cam, zipWith_cumSum, map_map]
    rfl
  apply ext_getElem
  · simp [rows, Plan.cam]
  · intro i h₁ h₂
    have hi : i < pl.batch.length := by simpa using h₂
    simp only [rows, getElem_map, getElem_zipIdx, hq, Nat.zero_add]
    simp [Plan.cam, batchRow, List.getD, getElem?_eq_getElem hi]

theorem batchRow_committed (btCols : ℕ) (s : Sched V) :
    (s.batchRow btCols).committed = s.committed := by
  simp [BatchRow.committed, batchRow, vals, committed]

theorem getElem?_table {btCols : ℕ} {s : Sched V} (h : s.row.length ≤ btCols) (i : ℕ) :
    (s.table btCols)[i]? =
      if i < btCols then some ((s.row[i]?.map Int.ofNat).getD (-1)) else none := by
  unfold table
  by_cases hi : i < btCols
  · rw [getElem?_take_of_lt hi, if_pos hi]
    by_cases hr : i < s.row.length
    · rw [getElem?_append_left (by simpa using hr)]
      simp [hr]
    · rw [getElem?_append_right (by simpa using hr)]
      have hlen : i - s.row.length < btCols - s.row.length := by omega
      simp [hr, hlen]
  · rw [if_neg hi]
    exact getElem?_eq_none (by simp; omega)

/-- The builder's tile rows are the request's. -/
theorem rowTile_table {btCols : ℕ} {s : Sched V} (h : s.row.length ≤ btCols) (t : ℕ) :
    rowTile cfg (s.table btCols) t = cfg.tile s.row t := by
  unfold rowTile tile
  rw [getElem?_table h]
  by_cases hi : t / cfg.tpr < s.row.length
  · have hb : t / cfg.tpr < btCols := by omega
    simp [hi, hb, tileRow]
  · rw [getElem?_eq_none (not_lt.1 hi)]
    by_cases hb : t / cfg.tpr < btCols <;> simp [hb]

/-! ## Written tiles -/

section Written

variable {e : Engine V R} {pl : Plan V}

/-- Tile `t` of a scheduled request receives a token in the step. -/
def Sched.Writes (cfg : Config) (s : Sched V) (t : ℕ) : Prop :=
  s.committed / cfg.group ≤ t ∧ t * cfg.group < s.vals.length

variable {s : Sched V}

theorem lt_ceil_iff : t < (n + cfg.group - 1) / cfg.group ↔ t * cfg.group < n := by
  have hg := cfg.group_pos
  rw [← Nat.add_one_le_iff, Nat.le_div_iff_mul_le hg, Nat.succ_mul]
  omega

/-- The tiles a row writes, within the table. -/
theorem mem_writtenIdx {r : BatchRow} {btCols : ℕ} : t ∈ r.writtenIdx cfg btCols ↔
    r.committed / cfg.group ≤ t ∧ t * cfg.group < r.seqLen ∧ t / cfg.tpr < btCols := by
  rw [← lt_ceil_iff, Nat.div_lt_iff_lt_mul cfg.tpr_pos, BatchRow.writtenIdx]
  split
  · next h =>
    rcases h with h | h
    · simp [h]
    · simp [h, Nat.div_eq_of_lt (Nat.sub_lt cfg.group_pos Nat.one_pos)]
  · rw [mem_range'_1]
    omega

theorem mem_tileWrites_cam (hv : pl.Valid cfg e) {w : ℕ × ℕ} :
    w ∈ (pl.cam cfg).tileWrites cfg ↔ ∃ s ∈ pl.batch, ∃ t, s.Writes cfg t ∧
      cfg.tile s.row t = some w.1 ∧
      w.2 = min s.vals.length ((t + 1) * cfg.group) - t * cfg.group := by
  simp only [tileWrites, rows_cam, mem_flatMap, mem_map]
  constructor
  · rintro ⟨-, ⟨s, hs, rfl⟩, hw⟩
    obtain ⟨t, ht, hw⟩ := mem_filterMap.1 hw
    rw [mem_writtenIdx, batchRow_committed] at ht
    obtain ⟨tr, htr, rfl⟩ := Option.map_eq_some_iff.1 hw
    exact ⟨s, hs, t, ⟨ht.1, ht.2.1⟩, (rowTile_table (hv.width s hs) t).symm.trans htr, rfl⟩
  · rintro ⟨s, hs, t, ⟨hlo, hhi⟩, htile, hw⟩
    refine ⟨_, ⟨s, hs, rfl⟩, mem_filterMap.2 ⟨t, ?_, ?_⟩⟩
    · rw [mem_writtenIdx, batchRow_committed]
      exact ⟨hlo, hhi, (tile_lt_of_pos hhi (hv.room s hs)).trans_le (hv.width s hs)⟩
    · rw [← rowTile_table (hv.width s hs)] at htile
      exact Option.map_eq_some_iff.2 ⟨w.1, htile, by rw [batchRow, ← hw]⟩

theorem mem_writes {w : ℤ × V} :
    w ∈ s.writes cfg ↔ ∃ i, s.query[i]? = some w.2 ∧ w.1 = slotOf cfg s.row (s.committed + i) := by
  simp only [writes, mem_iff_getElem?, getElem?_zip_eq_some, getElem?_map, Option.map_eq_some_iff]
  constructor
  · rintro ⟨i, ⟨p, hp, hw⟩, hq⟩
    have hi : i < s.query.length := (List.getElem?_eq_some_iff.1 hq).1
    rw [getElem?_range' hi] at hp
    refine ⟨i, hq, ?_⟩
    rw [← hw, ← Option.some.inj hp, Nat.one_mul]
  · rintro ⟨i, hq, hw⟩
    have hi : i < s.query.length := (List.getElem?_eq_some_iff.1 hq).1
    exact ⟨i, ⟨s.committed + i, by rw [getElem?_range' hi, Nat.one_mul], hw.symm⟩, hq⟩

theorem length_vals (s : Sched V) : s.vals.length = s.committed + s.query.length := by
  simp [vals, committed]

/-- The tile of a query token is one the request writes. -/
theorem writes_pos {i : ℕ} (hi : i < s.query.length) :
    s.Writes cfg ((s.committed + i) / cfg.group) := by
  refine ⟨Nat.div_le_div_right (Nat.le_add_right _ _), ?_⟩
  have h := Nat.div_mul_le_self (s.committed + i) cfg.group
  rw [length_vals]
  omega

section

variable (hv : pl.Valid cfg e)

include hv

/-- **The written tiles** are those the requests' query tokens fall into. -/
theorem mem_written_cam : τ ∈ (pl.cam cfg).written cfg ↔
      ∃ s ∈ pl.batch, ∃ t, s.Writes cfg t ∧ cfg.tile s.row t = some τ := by
  rw [mem_written]
  constructor
  · rintro (⟨w, hw, rfl⟩ | hslot)
    · obtain ⟨s, hs, t, hwr, htile, -⟩ := (mem_tileWrites_cam hv).1 hw
      exact ⟨s, hs, t, hwr, htile⟩
    · obtain ⟨sm, hsm, rfl⟩ := mem_map.1 hslot
      obtain ⟨hsm, hpos⟩ := mem_filter.1 hsm
      obtain ⟨w, hw, rfl⟩ := mem_map.1 hsm
      obtain ⟨s, hs, hw⟩ := mem_flatMap.1 hw
      obtain ⟨i, hq, hw⟩ := mem_writes.1 hw
      have hi : i < s.query.length := (List.getElem?_eq_some_iff.1 hq).1
      have hwr : s.Writes cfg _ := writes_pos hi
      obtain ⟨τ, hτ⟩ := tile_exists (tile_lt_of_pos hwr.2 (hv.room s hs))
      refine ⟨s, hs, _, hwr, ?_⟩
      rw [hw, (slotOf_spec hτ).2.1]
      exact hτ
  · rintro ⟨s, hs, t, hwr, htile⟩
    exact Or.inl ⟨(τ, _), (mem_tileWrites_cam hv).2 ⟨s, hs, t, hwr, htile, rfl⟩, rfl⟩

/-! ## The walk-back of a plan -/

private theorem committed_room (hs : s ∈ pl.batch) :
    s.committed ≤ s.row.length * cfg.blockSize := by
  have h := hv.room s hs
  rw [length_vals] at h
  omega

/-- A tile below the committed boundary lies in a block of the request. -/
theorem committed_tile_lt (hs : s ∈ pl.batch)
    (ht : t < s.committed / cfg.group) : t / cfg.tpr < s.row.length := by
  refine tile_lt_of_pos ?_ (committed_room hv hs)
  have h := Nat.div_mul_le_self s.committed cfg.group
  have hlt : t * cfg.group < s.committed / cfg.group * cfg.group :=
    Nat.mul_lt_mul_of_pos_right ht cfg.group_pos
  omega

theorem walkReturns_cam (g : GroupState) : WalkReturns cfg (pl.cam cfg) g := by
  refine walkBack_ok [] fun r hr hne => ?_
  rw [rows_cam] at hr
  obtain ⟨s, hs, rfl⟩ := mem_map.1 hr
  rw [batchRow_committed]
  have hlen : (s.batchRow pl.btCols).table.length = pl.btCols :=
    (pl.cam cfg).rect _ (mem_map.2 ⟨s, hs, rfl⟩)
  rw [hlen]
  rcases Nat.eq_zero_or_pos (s.committed / cfg.group) with h0 | hpos
  · rw [h0, Nat.zero_sub, Nat.zero_div]
    rcases Nat.eq_zero_or_pos pl.btCols with hb | hb
    · exact absurd (length_eq_zero_iff.1 (hlen.trans hb)) hne
    · exact hb
  · exact (committed_tile_lt hv hs (Nat.sub_lt hpos Nat.one_pos)).trans_le (hv.width s hs)

/-- The tiles `t ≤ u < n` of a request are resident and no sinks. -/
def ResidentTo (cfg : Config) (g : GroupState) (row : List ℕ) (n t : ℕ) : Prop :=
  ∀ u, t ≤ u → u < n → ∃ b, cfg.tile row u = some b ∧ b ∈ g.blockToSlot ∧ b ∉ g.sinks

/-- **The walk-back** reaches tiles from `1` up below a request's committed boundary. -/
theorem reached_cam {g : GroupState} :
    Reached cfg (pl.cam cfg) g τ ↔ ∃ s ∈ pl.batch, ∃ t, 1 ≤ t ∧ t < s.committed / cfg.group ∧
      cfg.tile s.row t = some τ ∧
      ResidentTo cfg (mark cfg (pl.cam cfg) g).state s.row (s.committed / cfg.group) t := by
  simp only [Reached, rows_cam, mem_map]
  constructor
  · rintro ⟨-, ⟨s, hs, rfl⟩, t, h₁, h₂, h₃, h₄⟩
    rw [batchRow_committed] at h₂ h₄
    have htab : ∀ u, rowTile cfg (s.table pl.btCols) u = cfg.tile s.row u :=
      rowTile_table (hv.width s hs)
    refine ⟨s, hs, t, h₁, h₂, (htab t).symm.trans h₃, fun u hu hu' => ?_⟩
    obtain ⟨b, hb, hb'⟩ := h₄ u hu hu'
    exact ⟨b, (htab u).symm.trans hb, hb'⟩
  · rintro ⟨s, hs, t, h₁, h₂, h₃, h₄⟩
    have htab : ∀ u, rowTile cfg (s.table pl.btCols) u = cfg.tile s.row u :=
      rowTile_table (hv.width s hs)
    refine ⟨_, ⟨s, hs, rfl⟩, t, h₁, by rwa [batchRow_committed], (htab t).trans h₃, ?_⟩
    rw [batchRow_committed]
    intro u hu hu'
    obtain ⟨b, hb, hb'⟩ := h₄ u hu hu'
    exact ⟨b, (htab u).trans hb, hb'⟩

end

end Written

/-! ## Addresses -/

/-- `_compute_slot_mapping_kernel` for the token at position `p` of a request, without
context parallelism. -/
def slotMappingOf (cfg : Config) (table : List ℤ) (p : ℕ) : ℤ :=
  table.getD (p / cfg.blockSize) 0 * cfg.blockSize + (p % cfg.blockSize : ℕ)

variable {cam : AttnMetadata} {table : List ℤ} {b : ℕ}

theorem rowTile_eq_some : rowTile cfg table t = some τ ↔
    ∃ v, table[t / cfg.tpr]? = some v ∧ 0 ≤ v ∧ v.toNat * cfg.tpr + t % cfg.tpr = τ := by
  unfold rowTile tileRow
  cases table[t / cfg.tpr]? with
  | none => simp
  | some v => by_cases hv : v < 0 <;> simp [hv, not_le.2, not_lt.1]

theorem rowTile_eq_none : rowTile cfg table t = none ↔
    table.length ≤ t / cfg.tpr ∨ ∃ v ∈ table[t / cfg.tpr]?, v < 0 := by
  unfold rowTile
  cases h : table[t / cfg.tpr]? with
  | none => simpa using h
  | some v =>
    have hlt := (List.getElem?_eq_some_iff.1 h).1
    by_cases hv : v < 0 <;> simp [hv, hlt]

/-- A token goes to its tile row, at its offset. -/
theorem slotMappingOf_eq {p : ℕ} (h : rowTile cfg table (p / cfg.group) = some τ) :
    slotMappingOf cfg table p = ((τ * cfg.group + p % cfg.group : ℕ) : ℤ) := by
  obtain ⟨v, hv, hpos, rfl⟩ := rowTile_eq_some.1 h
  obtain ⟨n, rfl⟩ := Int.eq_ofNat_of_zero_le hpos
  rw [pos_div] at hv
  have hmod : p % cfg.blockSize = p % cfg.group + p / cfg.group % cfg.tpr * cfg.group := by
    rw [Nat.mul_comm _ cfg.group, ← Nat.mod_mul, Nat.mul_comm cfg.group, cfg.tpr_mul_group]
  have hslot : n * cfg.blockSize + p % cfg.blockSize =
      (n * cfg.tpr + p / cfg.group % cfg.tpr) * cfg.group + p % cfg.group := by
    rw [hmod, Nat.add_mul, Nat.mul_assoc, cfg.tpr_mul_group]
    omega
  rw [slotMappingOf, getD_eq_getElem?_getD, hv, Int.toNat_natCast, ← hslot]
  rfl

/-- A mapped token is in a tile. -/
theorem rowTile_of_slot {p : ℕ} (hblk : p / cfg.blockSize < table.length)
    (hpos : 0 ≤ slotMappingOf cfg table p) : rowTile cfg table (p / cfg.group) =
      some (slotMappingOf cfg table p / (cfg.group : ℤ)).toNat := by
  cases hτ : rowTile cfg table (p / cfg.group) with
  | none =>
    rw [rowTile_eq_none, pos_div] at hτ
    obtain ⟨v, hv, hneg⟩ := hτ.resolve_left (not_le.2 hblk)
    rw [slotMappingOf, getD_eq_getElem?_getD, hv] at hpos
    have hle :=
      Int.mul_le_mul_of_nonneg_right (by omega : v ≤ -1) (Int.natCast_nonneg cfg.blockSize)
    have hlt := Nat.mod_lt p cfg.blockSize_pos
    simp only [Option.getD_some] at hpos
    omega
  | some τ =>
    rw [slotMappingOf_eq hτ, ← Int.natCast_ediv, Int.toNat_natCast,
      (mul_add_div_mod _ (Nat.mod_lt p cfg.group_pos)).1]

theorem rows_getElem? {r : BatchRow} (hr : cam.rows[b]? = some r) :
    cam.seqLens[b]? = some r.seqLen ∧ cam.blockTable[b]? = some r.table := by
  simp only [rows, getElem?_map, getElem?_zipIdx, Option.map_map, Option.map_eq_some_iff] at hr
  obtain ⟨⟨sl, row⟩, hzip, rfl⟩ := hr
  exact getElem?_zip_eq_some.1 hzip

theorem tileRowTable_of_row {r : BatchRow} (hr : cam.rows[b]? = some r) (t : ℕ) :
    tileRowTable cfg cam b t = if t * cfg.group < r.seqLen ∧ t < cfg.maxTiles then
      ((rowTile cfg r.table t).map Int.ofNat).getD (-1) else -1 := by
  obtain ⟨hsl, hrow⟩ := rows_getElem? hr
  simp only [tileRowTable, hsl, hrow, lt_min_iff, lt_ceil_iff]
  cases rowTile cfg r.table t <;> rfl

theorem tileRowTable_eq_iff {r : BatchRow} (hr : cam.rows[b]? = some r) (t τ : ℕ) :
    tileRowTable cfg cam b t = τ ↔
      (t * cfg.group < r.seqLen ∧ t < cfg.maxTiles) ∧ rowTile cfg r.table t = some τ := by
  have hne : (-1 : ℤ) ≠ τ := by omega
  rw [tileRowTable_of_row hr]
  cases rowTile cfg r.table t with
  | none => split_ifs with h <;> simp [h, hne]
  | some row =>
    split_ifs with h
    · simp only [h, true_and, Option.map_some, Option.getD_some, Option.some.injEq]
      exact Int.ofNat_inj
    · simp [h]

/-- **Tile addressing.** An entry of the tile-unit block table is `-1` past the request, past
the table or in an unallocated block, and otherwise the row in which the slot mapping has the
tokens of the tile. Rows of different tiles differ. If every request has a query and fits the
model, the build needs exactly the entries of the tiles that the queries fall into. -/
theorem tile_addressing (cfg : Config) (cam : AttnMetadata) : (∀ b r, cam.rows[b]? = some r → ∀ t,
      (tileRowTable cfg cam b t = -1 ↔ (r.seqLen + cfg.group - 1) / cfg.group ≤ t ∨
        cfg.maxTiles ≤ t ∨ r.table.length ≤ t / cfg.tpr ∨ ∃ v ∈ r.table[t / cfg.tpr]?, v < 0) ∧
      ∀ p, p / cfg.group = t → tileRowTable cfg cam b t ≠ -1 → slotMappingOf cfg r.table p =
          tileRowTable cfg cam b t * cfg.group + (p % cfg.group : ℕ)) ∧
    (∀ v k v' k' : ℕ, k < cfg.tpr → k' < cfg.tpr → (v, k) ≠ (v', k') →
      cfg.tileRow v k ≠ cfg.tileRow v' k') ∧
    ((∀ r ∈ cam.rows, 0 < r.queryLen ∧ r.seqLen ≤ cfg.maxModelLen) →
      (∀ s ∈ cam.slotMapping, 0 ≤ s → ∃ r ∈ cam.rows, ∃ p, r.committed ≤ p ∧ p < r.seqLen ∧
        p / cfg.blockSize < r.table.length ∧ s = slotMappingOf cfg r.table p) →
      ∀ τ : ℕ, τ ∈ cam.written cfg ↔ ∃ b r, cam.rows[b]? = some r ∧ ∃ p, r.committed ≤ p ∧
        p < r.seqLen ∧ tileRowTable cfg cam b (p / cfg.group) = τ) := by
  refine ⟨fun b r hr t => ⟨?_, ?_⟩, fun v k v' k' hk hk' hne h => ?_, fun hrows hslots τ => ?_⟩
  · rw [tileRowTable_of_row hr, ← rowTile_eq_none, ← not_lt, lt_ceil_iff, ← not_lt (a := t)]
    cases rowTile cfg r.table t <;> split_ifs with h <;> simp <;> omega
  · rintro p rfl hp
    cases hτ : rowTile cfg r.table (p / cfg.group) with
    | none => simp [tileRowTable_of_row hr, hτ] at hp
    | some τ =>
      rw [tileRowTable_of_row hr, hτ] at hp ⊢
      rw [if_pos (by_contra fun hx => hp (if_neg hx)), slotMappingOf_eq hτ]
      rfl
  · simp only [tileRow, Int.toNat_natCast, Nat.mod_eq_of_lt hk, Nat.mod_eq_of_lt hk'] at h
    obtain ⟨rfl, rfl⟩ := tile_block hk hk' h
    exact hne rfl
  have hwidth : ∀ r ∈ cam.rows, r.table.length = cam.btCols := by
    intro r hr
    obtain ⟨b, hb⟩ := mem_iff_getElem?.1 hr
    exact cam.rect _ (mem_of_getElem? (rows_getElem? hb).2)
  -- a tile of the request is in the table, as its length is within the model's
  have hentry : ∀ r ∈ cam.rows, ∀ p < r.seqLen, rowTile cfg r.table (p / cfg.group) = some τ →
      ∃ b, cam.rows[b]? = some r ∧ tileRowTable cfg cam b (p / cfg.group) = τ := by
    intro r hr p hp hτ
    obtain ⟨b, hb⟩ := mem_iff_getElem?.1 hr
    have htile := (Nat.div_mul_le_self p cfg.group).trans_lt hp
    refine ⟨b, hb, (tileRowTable_eq_iff hb _ τ).2 ⟨⟨htile, ?_⟩, hτ⟩⟩
    exact lt_ceil_iff.2 (htile.trans_le (hrows r hr).2)
  rw [mem_written]
  constructor
  · rintro (⟨w, hw, rfl⟩ | hslot)
    · obtain ⟨r, hr, hw⟩ := mem_flatMap.1 hw
      obtain ⟨t, ht, hw⟩ := mem_filterMap.1 hw
      obtain ⟨τ, hτ, rfl⟩ := Option.map_eq_some_iff.1 hw
      obtain ⟨hlo, hhi, -⟩ := mem_writtenIdx.1 ht
      have hcommitted : r.committed < r.seqLen := by
        have := (hrows r hr).1
        unfold BatchRow.committed
        omega
      -- the first position of the tile that is not committed
      have hdiv : max r.committed (t * cfg.group) / cfg.group = t := by
        refine Nat.div_eq_of_lt_le (le_max_right _ _) (max_lt ?_ ?_)
        · exact (Nat.div_lt_iff_lt_mul cfg.group_pos).1 (Nat.lt_succ_of_le hlo)
        · exact Nat.mul_lt_mul_of_pos_right (Nat.lt_succ_self t) cfg.group_pos
      have hp : max r.committed (t * cfg.group) < r.seqLen := max_lt hcommitted hhi
      obtain ⟨b, hb, htab⟩ := hentry r hr _ hp (by rwa [hdiv])
      exact ⟨b, r, hb, _, le_max_left _ _, hp, htab⟩
    · obtain ⟨sm, hsm, rfl⟩ := mem_map.1 hslot
      obtain ⟨hsm, hpos⟩ := mem_filter.1 hsm
      obtain ⟨r, hr, p, hlo, hhi, hblk, rfl⟩ := hslots sm hsm (by simpa using hpos)
      obtain ⟨b, hb, htab⟩ := hentry r hr p hhi (rowTile_of_slot hblk (by simpa using hpos))
      exact ⟨b, r, hb, p, hlo, hhi, htab⟩
  · rintro ⟨b, r, hb, p, hlo, hhi, hτ⟩
    obtain ⟨⟨htile, -⟩, hτ⟩ := (tileRowTable_eq_iff hb _ τ).1 hτ
    have hr := mem_of_getElem? hb
    obtain ⟨v, hv, -⟩ := rowTile_eq_some.1 hτ
    have hblk := hwidth r hr ▸ (List.getElem?_eq_some_iff.1 hv).1
    exact Or.inl ⟨(τ, _), mem_flatMap.2 ⟨r, hr, mem_filterMap.2 ⟨p / cfg.group,
      mem_writtenIdx.2 ⟨Nat.div_le_div_right hlo, htile, hblk⟩,
      Option.map_eq_some_iff.2 ⟨τ, hτ, rfl⟩⟩⟩, rfl⟩

/-- The second query token of the second request is written. -/
theorem tile_addressing_twoRequests : 6 ∈ twoRequests.written g64 := by
  refine ((tile_addressing g64 twoRequests).2.2 (by decide) (fun s hs _ => ?_) 6).2
    ⟨1, _, rfl, 64, by decide⟩
  simp only [twoRequests, mem_cons, not_mem_nil, or_false] at hs
  obtain rfl | rfl | rfl := hs
  · exact ⟨_, mem_of_getElem? (i := 0) rfl, 129, by decide⟩
  · exact ⟨_, mem_of_getElem? (i := 1) rfl, 63, by decide⟩
  · exact ⟨_, mem_of_getElem? (i := 1) rfl, 64, by decide⟩

/-- A request without a query needs its last tile, too. -/
theorem idle_tile_needed :
    (⟨[1], some [0, 0], [[3]], 1, [], by decide⟩ : AttnMetadata).written g64 = [3] ∧
    (⟨[1], some [0, 0], [[3]], 1, [], by decide⟩ : AttnMetadata).rows.map (fun r =>
      (r.committed, r.seqLen)) = [(1, 1)] := by
  decide +kernel

end KVarN.Tile
