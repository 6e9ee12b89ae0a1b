import KVarN.Eplb.Exchange

/-!
# Every rank gets the experts of the new map

The ranks that have an expert and those that need it are lists that every rank computes alike,
however many other experts it asks for. The receivers are split over the senders evenly with a
remainder, so each receiver knows its sender and each sender its receivers: the posted sends and
receives are the same routes. A row of the new map then stays, comes from a local row, is received,
or is copied from the row of the same expert that was.

## Main definitions

* `senders`, `receivers` — who has an expert and who needs it.
* `Paired` — who sends an expert to whom.

## Main results

* `moveToBuffer_eq` — what a rank posts.
* `sends_perm_recvs` — **sends and receives match.**
* `exchange_delivers` — every row of the new map holds its expert.
-/

namespace KVarN.Eplb

open KVarN.Core (bind_eq_ok orRaise_eq_ok)
open KVarN.Lib Send List

variable {total ranks n : ℕ} {old new : ℕ → ℤ} {e : ℤ} {r : ℕ}

/-! ## Who sends and who receives -/

/-- The ranks with an expert, in the order of their first position. -/
def ranksOf (total n : ℕ) (indices : ℕ → ℤ) (e : ℤ) : List ℕ :=
  (((range total).filter (indices · = e)).map (· / n)).eraseDups

theorem nodup_ranksOf : (ranksOf total n old e).Nodup := nodup_eraseDups _

variable {experts : List ℤ} {row : ℕ}

/-- The ranks with an expert do not depend on what else is asked for. -/
theorem lookup_ranksByExpert (total n : ℕ) (old : ℕ → ℤ) (he : e ∈ experts) :
    ((ranksByExpert total n old experts).lookup e).getD [] = ranksOf total n old e := by
  have hpos : ((range total).filter (old · ∈ experts)).Pairwise (· ≤ ·) :=
    (pairwise_le_range).filter _
  have hfilter : ((range total).filter (old · ∈ experts)).filter (old · = e)
      = (range total).filter (old · = e) := by
    rw [filter_filter]
    refine filter_congr fun p _ => ?_
    by_cases h : old p = e
    · simp [h, he]
    · simp [h]
  rw [ranksByExpert, lookup_map_snd fun (_ : ℤ) (run : List ℕ) => (run.map (· / n)).eraseDups,
    lookup_runs_insertionSort old hpos, hfilter, ranksOf]
  split_ifs with h
  · simp [h]
  · rfl

theorem lookup_withEmpty (he : e ∈ experts) (l : List (ℤ × List ℕ)) :
    (withEmpty experts l).lookup e = some ((l.lookup e).getD []) := by
  rw [withEmpty, lookup_append]
  cases h : l.lookup e with
  | some rs => rfl
  | none =>
    have hmem : e ∈ experts.filter fun e => (l.lookup e).isNone := by simp [he, h]
    generalize (experts.filter fun e => (l.lookup e).isNone) = es at hmem
    induction es with
    | nil => cases hmem
    | cons a es ih =>
      rw [map_cons, lookup_cons]
      by_cases hea : e = a
      · simp [hea]
      · have hes : e ∈ es := (mem_cons.1 hmem).resolve_left hea
        simpa [beq_false_of_ne hea] using ih hes

/-- The ranks that send an expert. -/
def senders (ranks n : ℕ) (old : ℕ → ℤ) (e : ℤ) : List ℕ := ranksOf (ranks * n) n old e

/-- The ranks that receive an expert: those that need it and do not have it. -/
def receivers (ranks n : ℕ) (old new : ℕ → ℤ) (e : ℤ) : List ℕ :=
  (ranksOf (ranks * n) n new e).filter (· ∉ senders ranks n old e)

/-- **Every rank computes the same senders and receivers.** -/
theorem lookup_getEpRanks (ranks n : ℕ) (old new : ℕ → ℤ) (he : e ∈ experts) :
    (getEpRanksWithExpertsBatch (ranks * n) n old new experts).1.lookup e
        = some (senders ranks n old e) ∧
      (getEpRanksWithExpertsBatch (ranks * n) n old new experts).2.lookup e
        = some (receivers ranks n old new e) := by
  have he' : e ∈ experts.dedup.insertionSort (· ≤ ·) :=
    (perm_insertionSort _ _).mem_iff.2 (mem_dedup.2 he)
  have hsend := lookup_ranksByExpert (ranks * n) n old he'
  have hrecv := lookup_ranksByExpert (ranks * n) n new he'
  refine ⟨?_, ?_⟩
  · rw [getEpRanksWithExpertsBatch, lookup_withEmpty he', hsend, senders]
  · rw [getEpRanksWithExpertsBatch, lookup_withEmpty he']
    rw [lookup_map_snd fun (e : ℤ) (rs : List ℕ) => rs.filter (· ∉ ((ranksByExpert (ranks * n) n old
      (experts.dedup.insertionSort (· ≤ ·))).lookup e).getD [])]
    rw [hsend, receivers, senders, ← hrecv]
    cases (ranksByExpert (ranks * n) n new (experts.dedup.insertionSort (· ≤ ·))).lookup e <;> rfl

theorem mem_ranksOf {indices : ℕ → ℤ} : r ∈ ranksOf (ranks * n) n indices e ↔
      r < ranks ∧ ∃ row < n, localExperts n r indices row = e := by
  simp only [ranksOf, mem_eraseDups, mem_map, mem_filter, mem_range,
    decide_eq_true_eq, localExperts]
  constructor
  · rintro ⟨p, ⟨hp, rfl⟩, rfl⟩
    have hn : 0 < n := Nat.pos_of_ne_zero fun h => by simp [h] at hp
    refine ⟨Nat.div_lt_of_lt_mul (by rwa [Nat.mul_comm]), p % n, Nat.mod_lt p hn, ?_⟩
    rw [Nat.div_add_mod']
  · rintro ⟨hr, row, hrow, rfl⟩
    refine ⟨r * n + row, ⟨?_, rfl⟩, ?_⟩
    · calc r * n + row < r * n + n := by omega
        _ = (r + 1) * n := (Nat.succ_mul r n).symm
        _ ≤ ranks * n := Nat.mul_le_mul_right n hr
    · rw [Nat.mul_comm, Nat.mul_add_div (by omega), Nat.div_eq_of_lt hrow, Nat.add_zero]

theorem mem_receivers :
    r ∈ receivers ranks n old new e ↔ (r < ranks ∧ ∃ row < n, localExperts n r new row = e) ∧
      ∀ row < n, localExperts n r old row ≠ e := by
  rw [receivers, mem_filter, mem_ranksOf, decide_eq_true_eq, senders, mem_ranksOf]
  refine and_congr_right fun h => ?_
  simp [h.1]

/-! ## What a rank posts -/

theorem idxOf?_of_mem {l : List ℕ} (h : r ∈ l) : l.idxOf? r = some (l.idxOf r) := by
  obtain ⟨i, hi⟩ := Option.isSome_iff_exists.1 (isSome_idxOf?.2 h)
  rw [idxOf_eq_getD_idxOf?, hi, Option.getD_some]

theorem perm_byExpert (l : List (ℤ × ℕ)) : (byExpert l).Perm l := perm_insertionSort _ l

theorem mem_sendMap {src : ℕ} (h : (e, src) ∈ sendMap n old r) :
    src < n ∧ localExperts n r old src = e ∧ e ≠ -1 := by
  obtain ⟨hrow, rfl⟩ := mem_of_mem_unique h
  simpa using hrow

theorem exists_mem_sendMap (hrow : row < n) (h : localExperts n r old row ≠ -1) :
    ∃ src, (localExperts n r old row, src) ∈ sendMap n old r :=
  exists_mem_unique _ (by simpa using ⟨hrow, h⟩)

/-- A row that is received holds an expert of the new map that the rank does not have. -/
theorem mem_recv (h : (e, row) ∈ (transferMetadata n old new r).recv) :
    row < n ∧ localExperts n r new row = e ∧ e ≠ -1 ∧
      ∀ row' < n, localExperts n r old row' ≠ e := by
  obtain ⟨hrow, rfl⟩ := mem_of_mem_unique h
  obtain ⟨hlt, hneed⟩ := mem_filter.1 hrow
  have hneed' : (localExperts n r old row ≠ localExperts n r new row ∧
      (localExperts n r new row = -1 ∨
        ∀ row' < n, localExperts n r old row' ≠ localExperts n r new row)) ∧
      localExperts n r new row ≠ -1 := by simpa using hneed
  exact ⟨mem_range.1 hlt, rfl, hneed'.2, hneed'.1.2.resolve_left hneed'.2⟩

theorem exists_mem_recv (hrow : row < n) (hne : localExperts n r new row ≠ -1)
    (hnew : ∀ row' < n, localExperts n r old row' ≠ localExperts n r new row) :
    ∃ row', (localExperts n r new row, row') ∈ (transferMetadata n old new r).recv := by
  refine exists_mem_unique _ (mem_filter.2 ⟨mem_range.2 hrow, ?_⟩)
  simpa [hne, hnew row hrow] using hnew

section Posts

variable {W : Type} (ranks n old new r)

def sendsOf (w : ℕ → W) : List (Send W) :=
  (byExpert (sendMap n old r)).flatMap fun e =>
    (share (senders ranks n old e.1).length (receivers ranks n old new e.1)
      ((senders ranks n old e.1).idxOf r)).map fun dst => ⟨r, dst, e.1, w e.2⟩

/-- The rank from which an expert is received. -/
def sourceOf (e : ℤ) : Option ℕ :=
  (senders ranks n old e)[owner (senders ranks n old e).length (receivers ranks n old new e).length
    ((receivers ranks n old new e).idxOf r)]?

def recvsOf : List Recv :=
  (byExpert (transferMetadata n old new r).recv).flatMap fun e =>
    (sourceOf ranks n old new r e.1).toList.map fun src => ⟨src, r, e.1, e.2⟩

variable {ranks n old new r}

theorem mem_senders : r ∈ senders ranks n old e ↔
    r < ranks ∧ ∃ row < n, localExperts n r old row = e := mem_ranksOf

theorem postSend_eq (new : ℕ → ℤ) (hr : r < ranks) (w : ℕ → W) {src : ℕ}
    (he : e ∈ experts) (h : (e, src) ∈ sendMap n old r) :
    postSend r w (getEpRanksWithExpertsBatch (ranks * n) n old new experts) e src
      = .ok ((share (senders ranks n old e).length (receivers ranks n old new e)
          ((senders ranks n old e).idxOf r)).map fun dst => ⟨r, dst, e, w src⟩) := by
  obtain ⟨hsend, hrecv⟩ := lookup_getEpRanks ranks n old new he
  obtain ⟨hsrc, hold, -⟩ := mem_sendMap h
  have hmem : r ∈ senders ranks n old e := mem_senders.2 ⟨hr, src, hsrc, hold⟩
  refine bind_eq_ok.2 ⟨_, orRaise_eq_ok.2 hsend, bind_eq_ok.2 ⟨_, orRaise_eq_ok.2 hrecv, ?_⟩⟩
  split_ifs with hnil
  · have hrecvNil := hnil.resolve_left (ne_nil_of_mem hmem)
    rw [hrecvNil]
    simp [share, pure, Except.pure]
  · exact bind_eq_ok.2 ⟨_, orRaise_eq_ok.2 (idxOf?_of_mem hmem), rfl⟩

theorem postRecv_eq (hr : r < ranks) (he : e ∈ experts)
    (h : (e, row) ∈ (transferMetadata n old new r).recv) :
    postRecv r (getEpRanksWithExpertsBatch (ranks * n) n old new experts) e row
      = .ok ((sourceOf ranks n old new r e).toList.map fun src => ⟨src, r, e, row⟩) := by
  obtain ⟨hsend, hrecv⟩ := lookup_getEpRanks ranks n old new he
  obtain ⟨hrow, hnew, -, hold⟩ := mem_recv h
  have hmem : r ∈ receivers ranks n old new e := mem_receivers.2 ⟨⟨hr, row, hrow, hnew⟩, hold⟩
  refine bind_eq_ok.2 ⟨_, orRaise_eq_ok.2 hsend, bind_eq_ok.2 ⟨_, orRaise_eq_ok.2 hrecv, ?_⟩⟩
  split_ifs with hnil
  · have hsendNil := hnil.resolve_right (ne_nil_of_mem hmem)
    simp [sourceOf, hsendNil, pure, Except.pure]
  · have hpos := length_pos_iff.2 (not_or.1 hnil).1
    have hlt := owner_lt hpos (idxOf_lt_length_iff.2 hmem)
    have hsrc := getElem?_eq_getElem hlt
    refine bind_eq_ok.2 ⟨_, orRaise_eq_ok.2 (idxOf?_of_mem hmem),
      bind_eq_ok.2 ⟨_, orRaise_eq_ok.2 hsrc, ?_⟩⟩
    rw [sourceOf, hsrc]
    rfl

variable (ranks n old new r) in
def postedOf (w b : ℕ → W) : Posted W :=
  ⟨sendsOf ranks n old new r w, recvsOf ranks n old new r, localMoves n old new r w b,
    transferMetadata n old new r⟩

/-- **What a rank posts.** -/
theorem moveToBuffer_eq (old new : ℕ → ℤ) (hr : r < ranks) (w b : ℕ → W) :
    moveToBuffer ranks n old new r w b = .ok (postedOf ranks n old new r w b) := by
  have hsends := mapM_eq_ok_map fun a (ha : a ∈ byExpert (sendMap n old r)) =>
    postSend_eq new hr w (mem_map_of_mem ha)
      ((perm_byExpert _).mem_iff.1 ha)
  have hrecvs := mapM_eq_ok_map fun a (ha : a ∈ byExpert (transferMetadata n old new r).recv) =>
    postRecv_eq hr (mem_map_of_mem ha) ((perm_byExpert _).mem_iff.1 ha)
  rw [moveToBuffer]
  simp only [hsends, hrecvs]
  rfl

end Posts

/-! ## Sends and receives match -/

section Routes

variable {W : Type} {a b : ℕ}

/-- An expert goes from one rank to another. -/
def Paired (ranks n : ℕ) (old new : ℕ → ℤ) (a b : ℕ) (e : ℤ) : Prop :=
  e ≠ -1 ∧ ∃ j, (receivers ranks n old new e)[j]? = some b ∧
    (senders ranks n old e)[owner (senders ranks n old e).length
      (receivers ranks n old new e).length j]? = some a

theorem nodup_senders : (senders ranks n old e).Nodup := nodup_ranksOf

theorem nodup_receivers : (receivers ranks n old new e).Nodup := nodup_ranksOf.filter _

/-- The place of a rank in a list of ranks. -/
theorem getElem?_eq_some_iff_idxOf {l : List ℕ} (hl : l.Nodup) {i : ℕ} :
    l[i]? = some a ↔ a ∈ l ∧ i = l.idxOf a := by
  constructor
  · intro h
    obtain ⟨hi, rfl⟩ := List.getElem?_eq_some_iff.1 h
    exact ⟨getElem_mem hi, (hl.idxOf_getElem i hi).symm⟩
  · rintro ⟨hmem, rfl⟩
    rw [getElem?_eq_getElem (idxOf_lt_length_iff.2 hmem), getElem_idxOf]

theorem mem_route_sendsOf (w : ℕ → ℕ → W) : (a, b, e) ∈ (range ranks).flatMap
        (fun r => (sendsOf ranks n old new r (w r)).map route) ↔ Paired ranks n old new a b e := by
  simp only [mem_flatMap, mem_range, mem_map, sendsOf, (perm_byExpert _).mem_iff]
  constructor
  · rintro ⟨r, hr, s, ⟨⟨e', src⟩, he', dst, hdst, rfl⟩, heq⟩
    obtain ⟨rfl, rfl, rfl⟩ : r = a ∧ dst = b ∧ e' = e := by simpa [route] using heq
    obtain ⟨hsrc, hold, hne⟩ := mem_sendMap he'
    have hmem : r ∈ senders ranks n old e' := mem_senders.2 ⟨hr, src, hsrc, hold⟩
    obtain ⟨j, hj, hown⟩ := (mem_share (idxOf_lt_length_iff.2 hmem)).1 hdst
    exact ⟨hne, j, hj, (getElem?_eq_some_iff_idxOf nodup_senders).2 ⟨hmem, hown⟩⟩
  · rintro ⟨hne, j, hj, hown⟩
    obtain ⟨hmem, hown⟩ := (getElem?_eq_some_iff_idxOf nodup_senders).1 hown
    obtain ⟨hr, row, hrow, rfl⟩ := mem_senders.1 hmem
    obtain ⟨src, hsrc⟩ := exists_mem_sendMap hrow hne
    refine ⟨a, hr, _, ⟨_, hsrc, b, ?_, rfl⟩, rfl⟩
    exact (mem_share (idxOf_lt_length_iff.2 hmem)).2 ⟨j, hj, hown⟩

theorem mem_route_recvsOf :
    (a, b, e) ∈ (range ranks).flatMap (fun r => (recvsOf ranks n old new r).map Recv.route)
      ↔ Paired ranks n old new a b e := by
  simp only [mem_flatMap, mem_range, mem_map, recvsOf, (perm_byExpert _).mem_iff, Option.mem_toList]
  constructor
  · rintro ⟨r, hr, s, ⟨⟨e', row⟩, he', src, hsrc, rfl⟩, heq⟩
    obtain ⟨rfl, rfl, rfl⟩ : src = a ∧ r = b ∧ e' = e := by simpa [Recv.route] using heq
    obtain ⟨hrow, hnew, hne, hold⟩ := mem_recv he'
    have hmem : r ∈ receivers ranks n old new e' := mem_receivers.2 ⟨⟨hr, row, hrow, hnew⟩, hold⟩
    exact ⟨hne, _, (getElem?_eq_some_iff_idxOf nodup_receivers).2 ⟨hmem, rfl⟩, hsrc⟩
  · rintro ⟨hne, j, hj, hown⟩
    obtain ⟨hmem, rfl⟩ := (getElem?_eq_some_iff_idxOf nodup_receivers).1 hj
    obtain ⟨⟨hr, row, hrow, rfl⟩, hold⟩ := mem_receivers.1 hmem
    obtain ⟨row', hrow'⟩ := exists_mem_recv hrow hne hold
    exact ⟨b, hr, _, ⟨_, hrow', a, hown, rfl⟩, rfl⟩

theorem nodup_byExpert_fst {l : List (ℤ × ℕ)} (h : (l.map (·.1)).Nodup) :
    ((byExpert l).map (·.1)).Nodup :=
  ((perm_byExpert l).map _).nodup_iff.2 h

theorem nodup_route_sendsOf (w : ℕ → ℕ → W) : ((range ranks).flatMap fun r =>
      (sendsOf ranks n old new r (w r)).map route).Nodup := by
  refine nodup_flatMap_of_key id (·.1) (by simpa using nodup_range) (fun r hr => ?_) ?_
  · rw [sendsOf, map_flatMap]
    refine nodup_flatMap_of_key (·.1) (·.2.2) (nodup_byExpert_fst nodup_unique_fst) ?_ ?_
    · intro e he
      obtain ⟨hsrc, hold, -⟩ := mem_sendMap ((perm_byExpert _).mem_iff.1 he)
      have hmem : r ∈ senders ranks n old e.1 :=
        mem_senders.2 ⟨mem_range.1 hr, e.2, hsrc, hold⟩
      rw [map_map]
      refine (nodup_share (idxOf_lt_length_iff.2 hmem) nodup_receivers).map fun d d' h => ?_
      simpa [route] using h
    · simp [route]
  · intro r _ route h
    obtain ⟨s, hs, rfl⟩ := mem_map.1 h
    simp only [sendsOf, mem_flatMap, mem_map] at hs
    obtain ⟨e, _, dst, _, rfl⟩ := hs
    rfl

theorem nodup_route_recvsOf :
    ((range ranks).flatMap fun r => (recvsOf ranks n old new r).map Recv.route).Nodup := by
  refine nodup_flatMap_of_key id (·.2.1) (by simpa using nodup_range) (fun r hr => ?_) ?_
  · rw [recvsOf, map_flatMap]
    refine nodup_flatMap_of_key (·.1) (·.2.2) (nodup_byExpert_fst nodup_unique_fst) ?_ ?_
    · intro e _
      cases sourceOf ranks n old new r e.1 <;> simp
    · simp [Recv.route]
  · intro r _ route h
    obtain ⟨s, hs, rfl⟩ := mem_map.1 h
    simp only [recvsOf, mem_flatMap, mem_map] at hs
    obtain ⟨e, _, src, _, rfl⟩ := hs
    rfl

/-- **Sends and receives match**: the same routes are posted on both sides. -/
theorem sends_perm_recvs (w : ℕ → ℕ → W) :
    ((range ranks).flatMap fun r => (sendsOf ranks n old new r (w r)).map route).Perm
      ((range ranks).flatMap fun r => (recvsOf ranks n old new r).map Recv.route) :=
  (perm_ext_iff_of_nodup (nodup_route_sendsOf w) nodup_route_recvsOf).2 fun ⟨_, _, _⟩ =>
    (mem_route_sendsOf w).trans mem_route_recvsOf.symm

end Routes

/-! ## The rows of a rank -/

section Rows

variable {W : Type} {wt : ℤ → W}

theorem isUnchanged_iff : (transferMetadata n old new r).isUnchanged row = true ↔
    localExperts n r old row = localExperts n r new row := by
  simp [transferMetadata]

theorem isReceivedLocally_iff (h : localExperts n r new row ≠ -1) (hrow : row < n) :
    (transferMetadata n old new r).isReceivedLocally row = true ↔
      ∃ row' < n, localExperts n r old row' = localExperts n r new row := by
  simp only [transferMetadata, Bool.or_eq_true, decide_eq_true_eq, Bool.and_eq_true, mem_map,
    mem_range]
  exact ⟨fun h' => h'.elim (fun heq => ⟨row, hrow, heq⟩) (·.2), fun h' => .inr ⟨h, h'⟩⟩

/-- A row that is moved locally. -/
theorem exists_row_of_moved (h : (!(transferMetadata n old new r).isUnchanged row &&
      (transferMetadata n old new r).isReceivedLocally row) = true) :
    localExperts n r new row ≠ -1 ∧
      ∃ row' < n, localExperts n r old row' = localExperts n r new row := by
  obtain ⟨hun, hloc⟩ := Bool.and_eq_true_iff.1 h
  have hun' : (transferMetadata n old new r).isUnchanged row = false := by simpa using hun
  simp only [transferMetadata, decide_eq_false_iff_not] at hun'
  simpa [transferMetadata, hun'] using hloc

theorem recvPrimaryMask_iff : (transferMetadata n old new r).recvPrimaryMask row = true ↔
    ∃ e, (e, row) ∈ (transferMetadata n old new r).recv := by
  simp [transferMetadata]

/-- A row that is not a duplicate of a received row. -/
def Settled (md : TransferMetadata) (row : ℕ) : Prop :=
  md.isUnchanged row = true ∨ md.isReceivedLocally row = true ∨ md.recvPrimaryMask row = true

/-- The rows that `move_from_buffer` copies back. -/
def copiedBack (n : ℕ) (md : TransferMetadata) : List ℕ :=
  (range n).filter fun row =>
    !md.isUnchanged row && (md.isReceivedLocally row || md.recvPrimaryMask row)

/-- The entry of the received row with the expert of a row. -/
def primaryEntry (n : ℕ) (new : ℕ → ℤ) (r : ℕ) (md : TransferMetadata) (row : ℕ) : Option (ℤ × ℕ) :=
  (byExpert md.recv)[searchsorted ((byExpert md.recv).map (·.1)) (localExperts n r new row)]?

/-- The received row with the expert of a row. -/
def primary (n : ℕ) (new : ℕ → ℤ) (r : ℕ) (md : TransferMetadata) (row : ℕ) : ℕ :=
  (primaryEntry n new r md row).elim 0 (·.2)

/-- The rows that are copied from a received row. -/
def duplicates (n : ℕ) (new : ℕ → ℤ) (r : ℕ) (md : TransferMetadata) : List ℕ :=
  ((range n).filter fun row => !md.isUnchanged row && !md.isReceivedLocally row
    && (!md.recvPrimaryMask row && localExperts n r new row ≠ -1)).filter
      fun row => (primaryEntry n new r md row).any (·.1 = localExperts n r new row)

theorem moveFromBuffer_eq (w b : ℕ → W) (md : TransferMetadata) :
    moveFromBuffer n new r w b md
      = if md.recv = [] then writeRows b w (copiedBack n md)
        else copyRows (primary n new r md) (writeRows b w (copiedBack n md))
          (duplicates n new r md) := rfl

theorem notMem_duplicates {md : TransferMetadata} (h : Settled md row) :
    row ∉ duplicates n new r md := by
  intro hmem
  simp only [duplicates, mem_filter, Bool.and_eq_true, Bool.not_eq_true'] at hmem
  rcases h with h | h | h <;> simp [h] at hmem

/-- The source of a duplicate was received. -/
theorem primary_notMem_duplicates {dst : ℕ}
    (h : dst ∈ duplicates n new r (transferMetadata n old new r)) :
    primary n new r (transferMetadata n old new r) dst
      ∉ duplicates n new r (transferMetadata n old new r) := by
  have hany := (mem_filter.1 h).2
  rw [primary]
  cases hget : primaryEntry n new r (transferMetadata n old new r) dst with
  | none => simp [hget] at hany
  | some a =>
    have hmem : a ∈ (transferMetadata n old new r).recv :=
      (perm_byExpert _).mem_iff.1 (mem_of_getElem? hget)
    exact notMem_duplicates (.inr (.inr (recvPrimaryMask_iff.2 ⟨a.1, hmem⟩)))

theorem pairwise_byExpert_fst (l : List (ℤ × ℕ)) : ((byExpert l).map (·.1)).Pairwise (· ≤ ·) := by
  have : Std.Total fun a b : ℤ × ℕ => a.1 ≤ b.1 := ⟨fun a b => le_total a.1 b.1⟩
  have : IsTrans (ℤ × ℕ) fun a b => a.1 ≤ b.1 := ⟨fun a b c => le_trans⟩
  exact pairwise_map.2 (pairwise_insertionSort _ l)

section

variable (hrow : row < n) (hne : localExperts n r new row ≠ -1)
  (h : ¬ Settled (transferMetadata n old new r) row)

include hrow hne h

/-- A row that is left over finds the received row with its expert. -/
theorem exists_primary :
    ∃ src, (localExperts n r new row, src) ∈ (transferMetadata n old new r).recv ∧
      primaryEntry n new r (transferMetadata n old new r) row
        = some (localExperts n r new row, src) := by
  have hold : ∀ row' < n, localExperts n r old row' ≠ localExperts n r new row :=
    fun row' hrow' heq =>
      h (.inr (.inl ((isReceivedLocally_iff hne hrow).2 ⟨row', hrow', heq⟩)))
  obtain ⟨src, hsrc⟩ := exists_mem_recv hrow hne hold
  have hfound := getElem?_searchsorted (pairwise_byExpert_fst (transferMetadata n old new r).recv)
    (mem_map.2 ⟨_, (perm_byExpert _).mem_iff.2 hsrc, rfl⟩)
  rw [getElem?_map, Option.map_eq_some_iff] at hfound
  obtain ⟨⟨e, src'⟩, hget, rfl⟩ := hfound
  exact ⟨src', (perm_byExpert _).mem_iff.1 (mem_of_getElem? hget), hget⟩

theorem mem_duplicates {src : ℕ} (hget : primaryEntry n new r (transferMetadata n old new r) row
      = some (localExperts n r new row, src)) :
    row ∈ duplicates n new r (transferMetadata n old new r) := by
  simp only [Settled, not_or, Bool.not_eq_true] at h
  simp [duplicates, hget, hrow, hne, h]

end

/-- The weights of the old map. -/
def HoldsWeights (ranks n : ℕ) (indices : ℕ → ℤ) (wt : ℤ → W) (w : ℕ → ℕ → W) : Prop :=
  ∀ r < ranks, ∀ row < n, localExperts n r indices row ≠ -1 →
    w r row = wt (localExperts n r indices row)

instance [DecidableEq W] (ranks n : ℕ) (indices : ℕ → ℤ) (wt : ℤ → W) (w : ℕ → ℕ → W) :
    Decidable (HoldsWeights ranks n indices wt w) :=
  inferInstanceAs (Decidable (∀ r < ranks, ∀ row < n, _ → _))

variable {w : ℕ → ℕ → W} (hw : HoldsWeights ranks n old wt w)

include hw

/-- Every send carries the weights of its expert. -/
theorem tensor_of_mem_sends {s : Send W}
    (h : s ∈ (range ranks).flatMap fun r => sendsOf ranks n old new r (w r)) :
    s.tensor = wt s.expert := by
  simp only [mem_flatMap, mem_range, sendsOf, mem_map, (perm_byExpert _).mem_iff] at h
  obtain ⟨r, hr, ⟨e, src⟩, he, dst, -, rfl⟩ := h
  obtain ⟨hsrc, rfl, hne⟩ := mem_sendMap he
  exact hw r hr src hsrc hne

/-- The local moves of a rank. -/
theorem localMoves_eq (hr : r < ranks) (b : ℕ → W) :
    localMoves n old new r (w r) b = writeRows (fun row => wt (localExperts n r new row)) b
      ((range n).filter fun row => !(transferMetadata n old new r).isUnchanged row &&
        (transferMetadata n old new r).isReceivedLocally row) := by
  refine foldl_ext _ _ _ fun b' dst hdst => ?_
  obtain ⟨-, hmoved⟩ := mem_filter.1 hdst
  obtain ⟨hne, row, hrow, heq⟩ := exists_row_of_moved hmoved
  have hmem : row ∈ (range n).filter (localExperts n r old · ≠ -1) := by
    simpa [heq] using ⟨hrow, hne⟩
  obtain ⟨src, hsrc, hlookup, hid⟩ := exists_lookup_unique (localExperts n r old) hmem
  have hsend : (sendMap n old r).lookup (localExperts n r new dst) = some src := heq ▸ hlookup
  have hval := hw r hr src (by simpa using (mem_filter.1 hsrc).1) (by rwa [hid, heq])
  simp only [hsend, hval, hid, heq]

variable (hpresent : ∀ r < ranks, ∀ row < n, localExperts n r new row ≠ -1 →
  ∃ r' < ranks, ∃ row' < n, localExperts n r' old row' = localExperts n r new row)

include hpresent

omit hw in
/-- Every row that waits for an expert has a receive. -/
theorem mem_row_recvsOf (hr : r < ranks) : row ∈ (recvsOf ranks n old new r).map (·.row) ↔
      (transferMetadata n old new r).recvPrimaryMask row = true := by
  rw [recvPrimaryMask_iff]
  simp only [recvsOf, mem_map, mem_flatMap, (perm_byExpert _).mem_iff, Option.mem_toList]
  constructor
  · rintro ⟨_, ⟨e, he, src, -, rfl⟩, rfl⟩
    exact ⟨e.1, he⟩
  · rintro ⟨e, he⟩
    obtain ⟨hrow, hnew, hne, hold⟩ := mem_recv he
    obtain ⟨r', hr', row', hrow', heq⟩ := hpresent r hr row hrow (by rwa [hnew])
    have hsend : r' ∈ senders ranks n old e :=
      mem_senders.2 ⟨hr', row', hrow', heq.trans hnew⟩
    have hrecv : r ∈ receivers ranks n old new e := mem_receivers.2 ⟨⟨hr, row, hrow, hnew⟩, hold⟩
    have hlt := owner_lt (length_pos_of_mem hsend) (idxOf_lt_length_iff.2 hrecv)
    exact ⟨_, ⟨_, he, _, getElem?_eq_getElem hlt, rfl⟩, rfl⟩

section

variable (hr : r < ranks) (b : ℕ → W)

include hr b

omit hpresent in
/-- The receives of a rank are served. -/
theorem execute_eq : execute ((range ranks).flatMap fun r => sendsOf ranks n old new r (w r))
        (recvsOf ranks n old new r) b = .ok (writeRows (fun row => wt (localExperts n r new row)) b
          ((recvsOf ranks n old new r).map (·.row))) := by
  rw [writeRows, foldl_map]
  refine foldlM_eq_ok (fun b' rv hrv => ?_) b
  have hroute : rv.route ∈ (range ranks).flatMap fun r =>
      (sendsOf ranks n old new r (w r)).map route := by
    refine (mem_route_sendsOf w).2 (mem_route_recvsOf.1 ?_)
    exact mem_flatMap.2 ⟨r, mem_range.2 hr, mem_map_of_mem hrv⟩
  rw [← map_flatMap] at hroute
  obtain ⟨s₀, hs₀, hs₀r⟩ := mem_map.1 hroute
  have hfound : (((range ranks).flatMap fun r => sendsOf ranks n old new r (w r)).find?
      (·.route = rv.route)).isSome := find?_isSome.2 ⟨s₀, hs₀, by simpa using hs₀r⟩
  obtain ⟨s, hs⟩ := Option.isSome_iff_exists.1 hfound
  have hsroute : s.route = rv.route := by simpa using find?_some hs
  have htensor := tensor_of_mem_sends hw (mem_of_find?_eq_some hs)
  have hexpert : s.expert = rv.expert := congrArg (·.2.2) hsroute
  have hnew : localExperts n r new rv.row = rv.expert := by
    simp only [recvsOf, mem_flatMap, mem_map, (perm_byExpert _).mem_iff] at hrv
    obtain ⟨e, he, src, -, rfl⟩ := hrv
    exact (mem_recv he).2.1
  refine bind_eq_ok.2 ⟨s, orRaise_eq_ok.2 hs, ?_⟩
  rw [htensor, hexpert, hnew]
  rfl

/-- The buffer of a rank after the transfers. -/
theorem buffer_apply (hrow : row < n) (hun : (transferMetadata n old new r).isUnchanged row = false)
    (h : (transferMetadata n old new r).isReceivedLocally row = true ∨
      (transferMetadata n old new r).recvPrimaryMask row = true) :
    writeRows (fun row => wt (localExperts n r new row)) (localMoves n old new r (w r) b)
      ((recvsOf ranks n old new r).map (·.row)) row = wt (localExperts n r new row) := by
  rw [writeRows_apply, localMoves_eq hw hr, writeRows_apply]
  rcases h with h | h
  · have hmem : row ∈ (range n).filter fun row =>
        !(transferMetadata n old new r).isUnchanged row &&
          (transferMetadata n old new r).isReceivedLocally row := by
      simp [hrow, hun, h]
    rw [if_pos hmem, ite_self]
  · rw [if_pos ((mem_row_recvsOf hpresent hr).2 h)]

/-- The rows that stay or are copied back from the buffer. -/
theorem copiedBack_apply (hrow : row < n)
    (hne : localExperts n r new row ≠ -1) (h : Settled (transferMetadata n old new r) row) :
    writeRows (writeRows (fun row => wt (localExperts n r new row)) (localMoves n old new r (w r) b)
        ((recvsOf ranks n old new r).map (·.row))) (w r)
      (copiedBack n (transferMetadata n old new r)) row = wt (localExperts n r new row) := by
  rw [writeRows_apply]
  cases hun : (transferMetadata n old new r).isUnchanged row with
  | true =>
    have heq := isUnchanged_iff.1 hun
    rw [if_neg (by simp [copiedBack, hun]), ← heq]
    exact hw r hr row hrow (by rwa [heq])
  | false =>
    have h' := h.resolve_left (by simp [hun])
    rw [if_pos (by simpa [copiedBack, hun, hrow] using h')]
    exact buffer_apply hw hpresent hr b hrow hun h'

/-- **A rank's rows after the exchange.** -/
theorem moveFromBuffer_apply (hrow : row < n) (hne : localExperts n r new row ≠ -1) :
    moveFromBuffer n new r (w r)
        (writeRows (fun row => wt (localExperts n r new row)) (localMoves n old new r (w r) b)
          ((recvsOf ranks n old new r).map (·.row))) (transferMetadata n old new r) row
      = wt (localExperts n r new row) := by
  rw [moveFromBuffer_eq]
  by_cases hset : Settled (transferMetadata n old new r) row
  · split_ifs
    · exact copiedBack_apply hw hpresent hr b hrow hne hset
    · rw [copyRows_apply fun dst => primary_notMem_duplicates, if_neg (notMem_duplicates hset)]
      exact copiedBack_apply hw hpresent hr b hrow hne hset
  · -- the expert was received into another row
    obtain ⟨src, hsrc, hget⟩ := exists_primary hrow hne hset
    have hmem : row ∈ duplicates n new r (transferMetadata n old new r) :=
      mem_duplicates hrow hne hset hget
    obtain ⟨hlt, hnew, hne', -⟩ := mem_recv hsrc
    rw [if_neg (ne_nil_of_mem hsrc), copyRows_apply fun dst => primary_notMem_duplicates,
      if_pos hmem, primary, hget, Option.elim_some, ← hnew]
    exact copiedBack_apply hw hpresent hr b hlt (by rwa [hnew])
      (.inr (.inr (recvPrimaryMask_iff.2 ⟨_, hsrc⟩)))

end

omit hpresent in
theorem finish_eq (new : ℕ → ℤ) (b : ℕ → ℕ → W) {p : Posted W × ℕ}
    (hp : p ∈ ((range ranks).map fun r => postedOf ranks n old new r (w r) (b r)).zipIdx) : (do
      let buffer ← execute (((range ranks).map fun r =>
        postedOf ranks n old new r (w r) (b r)).flatMap Posted.sends) p.1.recvs p.1.buffer
      return moveFromBuffer n new p.2 (w p.2) buffer p.1.transferMetadata)
      = .ok (moveFromBuffer n new p.2 (w p.2)
          (writeRows (fun row => wt (localExperts n p.2 new row))
            (localMoves n old new p.2 (w p.2) (b p.2)) ((recvsOf ranks n old new p.2).map (·.row)))
          p.1.transferMetadata) := by
  have hget := mk_mem_zipIdx_iff_getElem?.1 hp
  rw [getElem?_map, Option.map_eq_some_iff] at hget
  obtain ⟨r, hr, hpr⟩ := hget
  obtain ⟨hlt, hr⟩ := List.getElem?_eq_some_iff.1 hr
  rw [length_range] at hlt
  rw [getElem_range] at hr
  subst hr
  refine bind_eq_ok.2 ⟨_, ?_, rfl⟩
  rw [← hpr, flatMap_map]
  exact execute_eq hw hlt _

/-- **The exchange** comes to an end on every rank. -/
theorem exchange_eq (b : ℕ → ℕ → W) : ∃ final, exchange ranks n old new w b = .ok final ∧
      ∀ r < ranks, ∀ row < n, localExperts n r new row ≠ -1 →
        final[r]?.map (· row) = some (wt (localExperts n r new row)) := by
  have hpost := mapM_eq_ok_map fun r (hr : r ∈ range ranks) =>
    moveToBuffer_eq (n := n) old new (mem_range.1 hr) (w r) (b r)
  have hfrom := mapM_eq_ok_map fun p => finish_eq hw new b (p := p)
  refine ⟨_, bind_eq_ok.2 ⟨_, hpost, hfrom⟩, fun r hr row hrow hne => ?_⟩
  rw [getElem?_map, getElem?_zipIdx, getElem?_map, getElem?_range hr]
  simp only [Option.map_some, Nat.zero_add]
  exact congrArg some (moveFromBuffer_apply hw hpresent hr (b r) hrow hne)

end Rows

/-- **Every rank gets the experts of the new map**: for any two maps, whatever the ranks and the
rows, the posted sends are the posted receives, and in the end every row of the new map holds the
weights of its expert. -/
theorem exchange_delivers {W : Type} (ranks n : ℕ) (old new : ℕ → ℤ) (wt : ℤ → W) (w b : ℕ → ℕ → W)
    (hw : HoldsWeights ranks n old wt w)
    (hpresent : ∀ r < ranks, ∀ row < n, localExperts n r new row ≠ -1 →
      ∃ r' < ranks, ∃ row' < n, localExperts n r' old row' = localExperts n r new row) :
    ∃ posted final,
      (range ranks).mapM (fun r => moveToBuffer ranks n old new r (w r) (b r)) = .ok posted ∧
      ((posted.flatMap (·.sends)).map route).Perm ((posted.flatMap (·.recvs)).map Recv.route) ∧
      exchange ranks n old new w b = .ok final ∧
      ∀ r < ranks, ∀ row < n, localExperts n r new row ≠ -1 →
        final[r]?.map (· row) = some (wt (localExperts n r new row)) := by
  obtain ⟨final, hfinal, hrows⟩ := exchange_eq hw hpresent b
  refine ⟨_, final, mapM_eq_ok_map fun r hr =>
    moveToBuffer_eq old new (mem_range.1 hr) (w r) (b r), ?_, hfinal, hrows⟩
  rw [flatMap_map, flatMap_map, map_flatMap, map_flatMap]
  exact sends_perm_recvs w

/-- Two ranks with two rows, one of them empty. -/
def oldMap (p : ℕ) : ℤ := [0, 1, 2, -1].getD p (-1)

/-- Expert 2 moves to both rows of the first rank, experts 0 and 1 to the second one. -/
def newMap (p : ℕ) : ℤ := [2, 2, 0, 1].getD p (-1)

theorem exchange_delivers_two : ∃ posted final,
      (range 2).mapM (fun r => moveToBuffer 2 2 oldMap newMap r
        (fun row => oldMap (r * 2 + row)) fun _ => 9) = .ok posted ∧
      ((posted.flatMap (·.sends)).map route).Perm ((posted.flatMap (·.recvs)).map Recv.route) ∧
      exchange 2 2 oldMap newMap (fun r row => oldMap (r * 2 + row)) (fun _ _ => 9) = .ok final ∧
      ∀ r < 2, ∀ row < 2, localExperts 2 r newMap row ≠ -1 →
        final[r]?.map (· row) = some (localExperts 2 r newMap row) :=
  exchange_delivers 2 2 oldMap newMap id (fun r row => oldMap (r * 2 + row)) (fun _ _ => 9)
    (by decide) (by decide)

end KVarN.Eplb
