import KVarN.Sched.System

/-!
# The accounts of the encoder cache

Two counters of `EncoderCacheManager` follow from its map of entries: the free slots are those
that no entry takes, and the freeable ones those that no entry with a reference takes. The
entries without a reference wait in `freeable` to be evicted.

## Main definitions

* `EncoderCache.Accounted` — the counters and the list agree with the entries.
* `EncoderCache.Reached` — the states after sequences of calls.

## Main results

* `EncoderCache.Accounted.canAllocate` — when an item fits, and that evicting finds the room.
* `encoder_accounts` — the accounts after every sequence of calls.
-/

namespace KVarN.Sched

open KVarN.Lib KVarN.Core Dict

@[simp] theorem addTo_ne_nil {ids : List ReqId} {id : ReqId} : addTo ids id ≠ [] :=
  List.ne_nil_of_mem (mem_addTo.2 (.inl rfl))

namespace EncoderCache

def taken (size : MmHash → ℕ) (e : EncoderCache) : ℕ := e.cached.sumBy fun h _ => size h

/-- The slots of the entries that a request refers to. -/
def referenced (size : MmHash → ℕ) (e : EncoderCache) : ℕ :=
  e.cached.sumBy fun h refs => if refs = [] then 0 else size h

/-- Items with one identifier have one number of embeddings. -/
def Sized {H : Type} (size : MmHash → ℕ) (r : Request H) : Prop :=
  ∀ f ∈ r.mmFeatures, f.getNumEmbeds = size f.identifier

/-- **The accounts**: the counters and the list of entries that can be evicted. -/
structure Accounted (size : MmHash → ℕ) (cap : ℕ) (e : EncoderCache) : Prop where
  free : e.numFreeSlots + e.taken size = cap
  freeableSlots : e.numFreeableSlots + e.referenced size = cap
  freeable : ∀ h k, e.freeable.get? h = some k ↔ e.cached.get? h = some [] ∧ k = size h
  nonneg : 0 ≤ e.numFreeSlots

namespace Accounted

variable {H : Type} {size : MmHash → ℕ} {cap : ℕ} {e e' : EncoderCache} {r : Request H}
  {id : ReqId} {i : ℕ} {h : MmHash} {n : ℤ}

theorem init (size : MmHash → ℕ) (cap : ℕ) : Accounted size cap (.init cap) :=
  ⟨by simp [EncoderCache.init, taken, sumBy, empty],
    by simp [EncoderCache.init, referenced, sumBy, empty],
    by simp [EncoderCache.init], by simp [EncoderCache.init]⟩

theorem referenced_le (size : MmHash → ℕ) (e : EncoderCache) : e.referenced size ≤ e.taken size :=
  sumBy_le fun h refs _ => by split <;> omega

section

variable (ha : Accounted size cap e)

include ha

/-- Notes about who holds what do not touch the accounts. -/
theorem withIds (ids : Dict ReqId (List ℕ)) :
    Accounted size cap { e with requestCachedIds := ids } :=
  ⟨ha.free, ha.freeableSlots, ha.freeable, ha.nonneg⟩

/-- **One entry changes**, with the counters and the list in step. -/
theorem entry {c : Dict MmHash (List ReqId)} {d : Dict MmHash ℕ} {m : ℤ} {l : List MmHash}
    (hpop : c.pop h = e.cached.pop h) (hd : d.pop h = e.freeable.pop h)
    (hh : ∀ k, d.get? h = some k ↔ c.get? h = some [] ∧ k = size h)
    (hn : n + ((c.get? h).elim 0 fun _ => size h : ℕ) =
      e.numFreeSlots + ((e.cached.get? h).elim 0 fun _ => size h : ℕ))
    (hm : m + ((c.get? h).elim 0 fun refs => if refs = [] then 0 else size h : ℕ) =
      e.numFreeableSlots +
        ((e.cached.get? h).elim 0 fun refs => if refs = [] then 0 else size h : ℕ))
    (hnonneg : 0 ≤ n) :
    Accounted size cap { e with
      cached := c
      freeable := d
      numFreeSlots := n
      numFreeableSlots := m
      freed := l } := by
  have hfree := ha.free
  have hslots := ha.freeableSlots
  rw [taken, sumBy_eq _ _ h] at hfree
  rw [referenced, sumBy_eq _ _ h] at hslots
  refine ⟨?_, ?_, fun h' k => ?_, hnonneg⟩
  · rw [taken, sumBy_eq _ _ h, hpop]
    dsimp only
    omega
  · rw [referenced, sumBy_eq _ _ h, hpop]
    dsimp only
    omega
  · by_cases heq : h' = h
    · rw [heq, hh]
    · have hc := congrArg (·.get? h') hpop
      have hd := congrArg (·.get? h') hd
      simp only [get?_pop, if_neg heq] at hc hd
      rw [hd, hc, ha.freeable]

/-- A hit. -/
theorem checkAndUpdateCache {ok : Bool} (hcall : e.checkAndUpdateCache r id i = .ok (ok, e')) :
    Accounted size cap e' := by
  obtain ⟨f, -, hcall⟩ := bind_eq_ok.1 hcall
  cases hget : e.cached.get? f.identifier with
  | none =>
    rw [hget] at hcall
    cases hcall
    exact ha
  | some refs =>
    simp only [hget, bind_eq_ok, unfree] at hcall
    obtain ⟨e₁, hunfree, hcall⟩ := hcall
    cases hcall
    split at hunfree
    · next hnil =>
      simp only [bind_eq_ok, orRaise_eq_ok] at hunfree
      obtain ⟨k, hk, hunfree⟩ := hunfree
      cases hunfree
      obtain rfl := ((ha.freeable _ _).1 hk).2
      exact withIds (ha.entry (pop_set_self _ _ _) (pop_pop _ _) (by simp)
        (by simp [hget]) (by simp [hget, hnil]) ha.nonneg) _
    · next hrefs =>
      cases hunfree
      exact withIds (ha.entry (pop_set_self _ _ _) rfl (by simp [ha.freeable, hget, hrefs])
        (by simp [hget]) (by simp [hget, hrefs]) ha.nonneg) _

/-- An entry that is not there yet. -/
theorem allocateItem (hnew : ∀ f ∈ r.mmFeatures[i]?,
      f.identifier ∉ e.cached ∧ f.getNumEmbeds = size f.identifier)
    (hcall : e.allocateItem r id i = .ok e') : Accounted size cap e' := by
  simp only [EncoderCache.allocateItem, bind_eq_ok, orRaise_eq_ok, assert_eq_ok] at hcall
  obtain ⟨f, hf, -, hroom, -, -, hcall⟩ := hcall
  cases hcall
  obtain ⟨hnew, hsize⟩ := hnew f hf
  have hnone := get?_eq_none_iff.2 hnew
  exact withIds (ha.entry (pop_set_self _ _ _) rfl (by simp [ha.freeable, hnone])
    (by simp [hnone, hsize]) (by simp [hnone, hsize]) (by omega)) _

/-- A reference that is dropped. -/
theorem dropRef : Accounted size cap (e.dropRef id h (size h)) := by
  rw [EncoderCache.dropRef]
  cases hget : e.cached.get? h with
  | none => exact ha
  | some refs =>
    dsimp only
    split
    · exact ha
    next hrefs =>
    split
    · exact ha.entry (pop_set_self _ _ _) (pop_set_self _ _ _) (by simp [eq_comm])
        (by simp [hget]) (by simp [hget, hrefs]) ha.nonneg
    · next hrefs' =>
      refine ha.entry (pop_set_self _ _ _) rfl (fun k => ?_) (by simp [hget]) ?_ ha.nonneg
      · rw [ha.freeable, hget, get?_set_self, Option.some.injEq, Option.some.injEq]
        exact ⟨fun hk => absurd hk.1 hrefs, fun hk => absurd hk.1 hrefs'⟩
      · simp only [get?_set_self, hget, Option.elim_some, if_neg hrefs, if_neg hrefs']

theorem freeEncoderInput (hsize : Sized size r)
    (hcall : e.freeEncoderInput false r id i = .ok e') : Accounted size cap e' := by
  simp only [EncoderCache.freeEncoderInput, bind_eq_ok, orRaise_eq_ok] at hcall
  obtain ⟨f, hf, hcall⟩ := hcall
  cases hcall
  rw [hsize f (List.mem_of_getElem? hf)]
  refine dropRef ?_
  rw [unhold]
  split
  · exact ha
  · exact ha.withIds _

theorem freeAll {is : List ℕ} (hsize : Sized size r)
    (hcall : freeAll false r id is e = .ok e') : Accounted size cap e' := by
  induction is generalizing e with
  | nil =>
    cases hcall
    exact ha
  | cons i is ih =>
    obtain ⟨e₁, hfree, hcall⟩ := bind_eq_ok.1 hcall
    exact ih (ha.freeEncoderInput hsize hfree) hcall

/-- **Evicting** finds the room that the counter promises. -/
theorem evictUntil (hn : n ≤ e.numFreeableSlots) :
    ∃ e', evictUntil n e.freeable.entries e = .ok e' ∧ Accounted size cap e' ∧
      n ≤ e'.numFreeSlots := by
  generalize hl : e.freeable.entries = l
  induction l generalizing e with
  | nil =>
    have hle : e.taken size ≤ e.referenced size := by
      refine sumBy_le fun h refs hget => ?_
      have hrefs : refs ≠ [] := by
        rintro rfl
        have := get?_eq_some_iff.1 ((ha.freeable h _).2 ⟨hget, rfl⟩)
        simp [hl] at this
      rw [if_neg hrefs]
    have hfree := ha.free
    have hslots := ha.freeableSlots
    exact ⟨e, if_pos (by omega), ha, by omega⟩
  | cons p l ih =>
    obtain ⟨h, k⟩ := p
    rw [EncoderCache.evictUntil]
    by_cases hroom : n ≤ e.numFreeSlots
    · exact ⟨e, if_pos hroom, ha, hroom⟩
    have hk : e.freeable.get? h = some k := get?_eq_some_iff.2 (by simp [hl])
    obtain ⟨hget, rfl⟩ := (ha.freeable h k).1 hk
    rw [if_neg hroom, if_pos (mem_of_get? hget)]
    have hnonneg := ha.nonneg
    refine ih (ha.entry (pop_pop _ _) (pop_pop _ _) (by simp) (by simp [hget])
      (by simp [hget]) (by omega)) hn (entries_pop_head hl)

/-- **When an item fits**: the budget allows it, and it has room next to the entries that are
referred to. -/
theorem canAllocate (hi : i < r.mmFeatures.length) (budget k : ℤ) :
    ∃ ok e', e.canAllocate false r i budget k = .ok (ok, e') ∧ Accounted size cap e' ∧
      (ok = true ↔ r.getNumEncoderEmbeds i ≤ budget ∧
        r.getNumEncoderEmbeds i + k ≤ cap - (e.referenced size : ℤ)) := by
  have hfree := ha.free
  have hslots := ha.freeableSlots
  have hle := referenced_le size e
  simp only [EncoderCache.canAllocate, assert, if_pos hi, Bool.false_eq_true, false_or]
  by_cases hb : budget < r.getNumEncoderEmbeds i
  · exact ⟨false, e, if_pos hb, ha, by simp; omega⟩
  by_cases hf : (r.getNumEncoderEmbeds i : ℤ) + k ≤ e.numFreeSlots
  · exact ⟨true, e, (if_neg hb).trans (if_pos hf), ha, by simp; omega⟩
  by_cases hs : e.numFreeableSlots < (r.getNumEncoderEmbeds i : ℤ) + k
  · exact ⟨false, e, (if_neg hb).trans ((if_neg hf).trans (if_pos hs)), ha, by simp; omega⟩
  obtain ⟨e', hev, ha', -⟩ := ha.evictUntil (Int.not_lt.1 hs)
  refine ⟨true, e', ?_, ha', by simp; omega⟩
  refine (if_neg hb).trans ((if_neg hf).trans ((if_neg hs).trans ?_))
  rw [hev]
  rfl

end

end Accounted

/-- **What sequences of calls reach**: an identifier is allocated only while it has no entry, as
after a `check_and_update_cache` that missed. -/
inductive Reached (size : MmHash → ℕ) (cap : ℕ) : EncoderCache → Prop
  | init : Reached size cap (.init cap)
  | check {H : Type} {e e' : EncoderCache} {r : Request H} {id : ReqId} {i : ℕ} {ok : Bool}
      (he : Reached size cap e) (h : e.checkAndUpdateCache r id i = .ok (ok, e')) :
      Reached size cap e'
  | canAllocate {H : Type} {e e' : EncoderCache} {r : Request H} {i : ℕ} {budget k : ℤ} {ok : Bool}
      (he : Reached size cap e) (h : e.canAllocate false r i budget k = .ok (ok, e')) :
      Reached size cap e'
  | allocate {H : Type} {e e' : EncoderCache} {r : Request H} {id : ReqId} {i : ℕ}
      (he : Reached size cap e) (hr : Sized size r)
      (hnew : ∀ f ∈ r.mmFeatures[i]?, f.identifier ∉ e.cached)
      (h : e.allocate false r id i = .ok e') : Reached size cap e'
  | freeInput {H : Type} {e e' : EncoderCache} {r : Request H} {id : ReqId} {i : ℕ}
      (he : Reached size cap e) (hr : Sized size r)
      (h : e.freeEncoderInput false r id i = .ok e') : Reached size cap e'
  | free {H : Type} {e e' : EncoderCache} {r : Request H} {id : ReqId}
      (he : Reached size cap e) (hr : Sized size r) (h : e.free false r id = .ok e') :
      Reached size cap e'

theorem Reached.accounted {size : MmHash → ℕ} {cap : ℕ} {e : EncoderCache}
    (he : Reached size cap e) : Accounted size cap e := by
  induction he with
  | init => exact .init size cap
  | check _ h ih => exact ih.checkAndUpdateCache h
  | @canAllocate _ e e' r i budget k ok _ h ih =>
    have hi := assert_eq_ok.1 (bind_eq_ok.1 h).choose_spec.1
    obtain ⟨_, _, hcall, ha, -⟩ := ih.canAllocate hi budget k
    cases hcall.symm.trans h
    exact ha
  | allocate _ hr hnew h ih =>
    exact ih.allocateItem (fun f hf => ⟨hnew f hf, hr f (List.mem_of_getElem? hf)⟩) h
  | freeInput _ hr h ih => exact ih.freeEncoderInput hr h
  | free _ hr h ih => exact ih.freeAll hr h

end EncoderCache

open EncoderCache

/-- **The accounts of the encoder cache** after every sequence of calls. -/
theorem encoder_accounts {size : MmHash → ℕ} {cap : ℕ} {e : EncoderCache}
    (he : e.Reached size cap) : e.numFreeSlots = cap - (e.taken size : ℤ) ∧
      e.numFreeableSlots = cap - (e.referenced size : ℤ) ∧
      (∀ h, h ∈ e.freeable ↔ e.cached.get? h = some []) ∧
      (0 ≤ e.numFreeSlots ∧ e.numFreeSlots ≤ cap) ∧
      (0 ≤ e.numFreeableSlots ∧ e.numFreeableSlots ≤ cap) ∧
      ∀ {H : Type} (r : Request H) (i : ℕ) (budget k : ℤ), i < r.mmFeatures.length →
        ∃ ok e', e.canAllocate false r i budget k = .ok (ok, e') ∧
          (ok = true ↔ r.getNumEncoderEmbeds i ≤ budget ∧
            r.getNumEncoderEmbeds i + k ≤ cap - (e.referenced size : ℤ)) := by
  have ha := he.accounted
  have hfree := ha.free
  have hslots := ha.freeableSlots
  have hnonneg := ha.nonneg
  have hle := EncoderCache.Accounted.referenced_le size e
  refine ⟨by omega, by omega, fun h => ?_, by omega, by omega, fun r i budget k hi => ?_⟩
  · rw [mem_iff_get?]
    exact ⟨fun ⟨k, hk⟩ => ((ha.freeable h k).1 hk).1, fun hk => ⟨_, (ha.freeable h _).2 ⟨hk, rfl⟩⟩⟩
  · obtain ⟨ok, e', hcall, -, hok⟩ := ha.canAllocate hi budget k
    exact ⟨ok, e', hcall, hok⟩

namespace Small

def illustrated : Request ℕ :=
  Request.ofParams { params with mmFeatures := [⟨5, 0, 2, none⟩, ⟨5, 2, 2, none⟩] }

end Small

open KVarN.Sched.Small

/-- An image of two embeddings in a cache of four. -/
theorem encoder_accounts_image : ∃ e : EncoderCache, e.Reached (fun _ => 2) 4 ∧
    e.taken (fun _ => 2) = 2 ∧ e.numFreeSlots = (4 : ℕ) - (e.taken (fun _ => 2) : ℤ) := by
  have hreach : EncoderCache.Reached (fun _ => 2) 4 _ := .allocate
    (.canAllocate .init (show (init 4).canAllocate false illustrated 0 9 0 =
      .ok (true, _) from rfl))
    (show EncoderCache.Sized _ illustrated by unfold EncoderCache.Sized; decide)
    (by decide) (show allocate _ false _ 1 0 = .ok _ from rfl)
  exact ⟨_, hreach, rfl, (encoder_accounts hreach).1⟩

/-- **Allocating an identifier that has its entry** charges it twice. -/
theorem allocated_twice :
    (do
      let (fits, e) ← (init 4).canAllocate false illustrated 0 9 0
      let e ← e.allocate false illustrated 1 0
      let (fits', e) ← e.canAllocate false illustrated 1 9 0
      let e ← e.allocate false illustrated 1 1
      pure (fits, fits', e.numFreeSlots, e.taken fun _ => 2)) =
      Except.ok (ε := Fault) (true, true, 0, 2) := rfl

end KVarN.Sched
