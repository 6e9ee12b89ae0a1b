import KVarN.Core.BlockPool
import KVarN.Lib.Dict
import KVarN.Lib.FloatFormat

/-!
# Cache policies of the CPU offload tier

A policy keeps the offloaded blocks by key and chooses which idle blocks to evict. The
manager above it owns the reference counts and writes them into the blocks the policy holds,
telling the policy when a block becomes idle or ceases to be.

`CachePolicy` is the interface and `LawfulCachePolicy` says what the manager relies on: what
is resident changes only as the call says, and only idle blocks outside the protected set are
evicted. The two policies of the source, LRU and ARC, are instances.

## Main definitions

* `BlockStatus` — a reference count and a slot; the count is -1 while the block is written.
* `CachePolicy`, `LawfulCachePolicy` — the interface and its laws.
* `LRUCachePolicy`, `ARCCachePolicy` — the two policies.
* `PolicyState` — the state of the policy with a given name.
-/

namespace KVarN.Offload

open KVarN.Lib Dict Multiset
open KVarN.Core (Fault orRaise assert)

structure BlockStatus where
  refCnt : ℤ
  blockId : ℕ
  deriving DecidableEq, Repr

namespace BlockStatus

/-- A block that is not ready yet. -/
def new (blockId : ℕ) : BlockStatus := ⟨-1, blockId⟩

/-- `is_ready`. -/
def IsReady (b : BlockStatus) : Prop := 0 ≤ b.refCnt
  deriving Decidable

/-- Assigning to the field `ref_cnt`, a 32-bit integer that wraps around. -/
def setRefCnt (b : BlockStatus) (n : ℤ) : BlockStatus := { b with refCnt := n.bmod (2 ^ 32) }

theorem setRefCnt_refCnt {b : BlockStatus} {n : ℤ} (hlo : -1 ≤ n) (hhi : n < 2 ^ 31) :
    (b.setRefCnt n).refCnt = n := by
  simp only [setRefCnt]
  rw [Int.bmod_eq_of_le (by norm_num; omega) (by norm_num; omega)]

end BlockStatus

/-- The operations of a cache policy. `write` is an assignment to a block the policy holds,
which it shares with the manager. -/
class CachePolicy (K σ : Type) where
  init : ℕ → σ
  get : σ → K → Option BlockStatus
  write : σ → K → BlockStatus → σ
  insert : σ → K → BlockStatus → σ
  remove : σ → K → Except Fault σ
  touch : σ → List K → σ
  evict : σ → ℕ → List K → Except Fault (Option (List (K × BlockStatus) × σ))
  clear : σ → σ
  markEvictable : σ → K → σ
  markNonEvictable : σ → K → Except Fault σ

/-- What the manager relies on. `held` is what is resident; a policy is consistent where its
own bookkeeping agrees with the reference counts. -/
class LawfulCachePolicy (K σ : Type) [CachePolicy K σ] where
  Consistent : σ → Prop
  held : σ → Multiset (K × BlockStatus)
  init_consistent (n : ℕ) : Consistent (CachePolicy.init K n)
  held_init (n : ℕ) : held (CachePolicy.init K n) = 0
  nodup_keys {s : σ} : Consistent s → ((held s).map Prod.fst).Nodup
  get_eq_some_iff {s : σ} {k : K} {b : BlockStatus} :
    Consistent s → (CachePolicy.get s k = some b ↔ (k, b) ∈ held s)
  /-- A new block is not idle. -/
  insert {s : σ} {k : K} {b : BlockStatus} : Consistent s → CachePolicy.get s k = none →
    b.refCnt ≠ 0 → Consistent (CachePolicy.insert s k b) ∧
      held (CachePolicy.insert s k b) = (k, b) ::ₘ held s
  remove {s : σ} {k : K} {b : BlockStatus} : Consistent s → CachePolicy.get s k = some b →
    ∃ s', CachePolicy.remove s k = .ok s' ∧ Consistent s' ∧ held s = (k, b) ::ₘ held s'
  touch {s : σ} (ks : List K) : Consistent s →
    Consistent (CachePolicy.touch s ks) ∧ held (CachePolicy.touch s ks) = held s
  /-- Eviction takes as many blocks as asked for, idle and not protected, or none. -/
  evict {s : σ} (n : ℕ) (ks : List K) : Consistent s → CachePolicy.evict s n ks = .ok none ∨
    ∃ out s', CachePolicy.evict s n ks = .ok (some (out, s')) ∧ Consistent s' ∧
      out.length = n ∧ held s = out + held s' ∧ ∀ e ∈ out, e.2.refCnt = 0 ∧ e.1 ∉ ks
  clear {s : σ} : Consistent (CachePolicy.clear K s) ∧ held (CachePolicy.clear K s) = 0
  /-- An idle block gets its first reader. -/
  acquire {s : σ} {k : K} {b b' : BlockStatus} : Consistent s → CachePolicy.get s k = some b →
    b.refCnt = 0 → b'.refCnt ≠ 0 → ∃ s', CachePolicy.markNonEvictable s k = .ok s' ∧
      Consistent (CachePolicy.write s' k b') ∧
      (k, b) ::ₘ held (CachePolicy.write s' k b') = (k, b') ::ₘ held s
  /-- The count of a busy block changes. -/
  write {s : σ} {k : K} {b b' : BlockStatus} : Consistent s → CachePolicy.get s k = some b →
    b.refCnt ≠ 0 → b'.refCnt ≠ 0 → Consistent (CachePolicy.write s k b') ∧
      (k, b) ::ₘ held (CachePolicy.write s k b') = (k, b') ::ₘ held s
  /-- A busy block becomes idle. -/
  release {s : σ} {k : K} {b b' : BlockStatus} : Consistent s → CachePolicy.get s k = some b →
    b.refCnt ≠ 0 → b'.refCnt = 0 →
    Consistent (CachePolicy.markEvictable (CachePolicy.write s k b') k) ∧
      (k, b) ::ₘ held (CachePolicy.markEvictable (CachePolicy.write s k b') k) = (k, b') ::ₘ held s

variable {K : Type} [DecidableEq K]

/-! ## Entries of a dictionary -/

variable {d : Dict K BlockStatus} {k : K} {b : BlockStatus}

theorem entries_set_of_get? {b' : BlockStatus} (h : d.get? k = some b) :
    (k, b) ::ₘ ((d.set k b').entries : Multiset (K × BlockStatus)) = (k, b') ::ₘ d.entries := by
  rw [coe_eq_coe.2 (d.entries_set_perm k b'),
    coe_eq_coe.2 (entries_perm_pop h), ← cons_coe, ← cons_coe,
    cons_swap]

theorem entries_set_of_get?_none (b : BlockStatus) (h : d.get? k = none) :
    ((d.set k b).entries : Multiset (K × BlockStatus)) = (k, b) ::ₘ d.entries := by
  rw [coe_eq_coe.2 (d.entries_set_perm k b), pop_of_notMem (get?_eq_none_iff.1 h), cons_coe]

theorem entries_of_get? (h : d.get? k = some b) :
    (d.entries : Multiset (K × BlockStatus)) = (k, b) ::ₘ (d.pop k).entries := by
  rw [coe_eq_coe.2 (entries_perm_pop h), cons_coe]

/-- Deleting the keys of a list of entries. -/
def popAll {β : Type} (es : List (K × BlockStatus)) (d : Dict K β) : Dict K β :=
  es.foldl (fun d e => d.pop e.1) d

theorem get?_popAll {β : Type} (es : List (K × BlockStatus)) (d : Dict K β) (k : K) :
    (popAll es d).get? k = if k ∈ es.map Prod.fst then none else d.get? k := by
  induction es generalizing d with
  | nil => rfl
  | cons e es ih =>
    rw [popAll, List.foldl_cons]
    refine (ih (d.pop e.1)).trans ?_
    rw [get?_pop, List.map_cons]
    by_cases hk : k = e.1
    · simp [hk]
    · simp only [hk, List.mem_cons, false_or, if_false]

/-- Entries with distinct keys that are present are what their deletion removes. -/
theorem entries_popAll {es : List (K × BlockStatus)}
    (hnodup : (es.map Prod.fst).Nodup) (hes : ∀ e ∈ es, d.get? e.1 = some e.2) :
    (d.entries : Multiset (K × BlockStatus)) = es + (popAll es d).entries := by
  induction es generalizing d with
  | nil => simp [popAll]
  | cons e es ih =>
    obtain ⟨hnot, hnodup⟩ := List.nodup_cons.1 hnodup
    rw [entries_of_get? (hes e List.mem_cons_self), popAll, List.foldl_cons]
    have hrest : ∀ e' ∈ es, (d.pop e.1).get? e'.1 = some e'.2 := by
      intro e' he'
      have hne : e'.1 ≠ e.1 := fun h => hnot (h ▸ List.mem_map_of_mem he')
      rw [get?_pop, if_neg hne]
      exact hes e' (List.mem_cons_of_mem e he')
    rw [ih hnodup hrest, ← cons_coe, cons_add]
    rfl

/-! ## LRU -/

/-- `LRUCachePolicy`: the idle blocks in the order of their last use, and all blocks. -/
structure LRUCachePolicy (K : Type) where
  cacheCapacity : ℕ
  evictableBlocks : Dict K Unit
  blocks : Dict K BlockStatus

namespace LRUCachePolicy

/-- The loop of `evict` over the idle blocks, until `n` candidates are found. -/
def scan (blocks : Dict K BlockStatus) (protected_ : List K) :
    ℕ → List K → Except Fault (List (K × BlockStatus))
  | 0, _ => .ok []
  | _, [] => .ok []
  | n + 1, k :: ks =>
    if k ∈ protected_ then scan blocks protected_ (n + 1) ks
    else do
      let b ← orRaise .keyError (blocks.get? k)
      assert (b.refCnt = 0)
      let rest ← scan blocks protected_ n ks
      pure ((k, b) :: rest)

variable (s : LRUCachePolicy K) (ks : List K)

/-- `evict`. -/
def evict (n : ℕ) (protected_ : List K) : Except Fault
    (Option (List (K × BlockStatus) × LRUCachePolicy K)) :=
  if n = 0 then .ok (some ([], s))
  else do
    let candidates ← scan s.blocks protected_ n s.evictableBlocks.keys
    if candidates.length < n then pure none
    else pure (some (candidates, { s with
      evictableBlocks := popAll candidates s.evictableBlocks
      blocks := popAll candidates s.blocks }))

/-- `touch`: active blocks are not in the list and stay where they are. -/
def touch : LRUCachePolicy K :=
  { s with evictableBlocks := ks.reverse.foldl moveToEnd s.evictableBlocks }

instance : CachePolicy K (LRUCachePolicy K) where
  init n := ⟨n, empty, empty⟩
  get s k := s.blocks.get? k
  write s k b := { s with blocks := s.blocks.set k b }
  insert s k b := { s with
    blocks := s.blocks.set k b
    evictableBlocks := if b.refCnt = 0 then s.evictableBlocks.set k () else s.evictableBlocks }
  remove s k :=
    if k ∈ s.blocks then .ok { s with
      blocks := s.blocks.pop k
      evictableBlocks := s.evictableBlocks.pop k }
    else .error .keyError
  touch := touch
  evict := evict
  clear s := { s with evictableBlocks := empty, blocks := empty }
  markEvictable s k := { s with evictableBlocks := s.evictableBlocks.set k () }
  markNonEvictable s k :=
    if k ∈ s.evictableBlocks then .ok { s with evictableBlocks := s.evictableBlocks.pop k }
    else .error .keyError

/-- The idle blocks are those of the list. -/
def Consistent : Prop :=
  ∀ k, k ∈ s.evictableBlocks ↔ ∃ b, s.blocks.get? k = some b ∧ b.refCnt = 0

theorem mem_foldl_moveToEnd (d : Dict K Unit) (k : K) : k ∈ ks.foldl moveToEnd d ↔ k ∈ d := by
  induction ks generalizing d with
  | nil => exact Iff.rfl
  | cons k' ks ih => exact (ih _).trans mem_moveToEnd

/-- The candidates of a scan: idle, not protected, present, in the order of the list, and at
most as many as asked for. -/
theorem scan_spec {blocks : Dict K BlockStatus} (protected_ : List K) {n : ℕ} {ks : List K}
    (hks : ks.Nodup) (hidle : ∀ k ∈ ks, ∃ b, blocks.get? k = some b ∧ b.refCnt = 0) :
    ∃ out, scan blocks protected_ n ks = .ok out ∧ out.length ≤ n ∧
      (out.map Prod.fst).Nodup ∧ (∀ e ∈ out, e.1 ∈ ks) ∧
      ∀ e ∈ out, blocks.get? e.1 = some e.2 ∧ e.2.refCnt = 0 ∧ e.1 ∉ protected_ := by
  induction ks generalizing n with
  | nil =>
    refine ⟨[], ?_, by simp, by simp, by simp, by simp⟩
    cases n <;> rfl
  | cons k ks ih =>
    obtain ⟨hk, hks⟩ := List.nodup_cons.1 hks
    have hidle' : ∀ k' ∈ ks, ∃ b, blocks.get? k' = some b ∧ b.refCnt = 0 :=
      fun k' hk' => hidle k' (List.mem_cons_of_mem k hk')
    cases n with
    | zero => exact ⟨[], rfl, by simp, by simp, by simp, by simp⟩
    | succ n =>
      rw [scan]
      by_cases hp : k ∈ protected_
      · obtain ⟨out, hok, hlen, hnodup, hmem, hout⟩ := ih (n := n + 1) hks hidle'
        exact ⟨out, by rw [if_pos hp, hok], hlen, hnodup,
          fun e he => List.mem_cons_of_mem k (hmem e he), hout⟩
      · obtain ⟨out, hok, hlen, hnodup, hmem, hout⟩ := ih (n := n) hks hidle'
        obtain ⟨b, hb, hzero⟩ := hidle k List.mem_cons_self
        refine ⟨(k, b) :: out, ?_, by simpa using hlen, ?_, ?_, ?_⟩
        · rw [if_neg hp, hb, hok]
          simp [orRaise, assert, hzero, ok_bind, pure_eq_ok]
        · rw [List.map_cons, List.nodup_cons]
          refine ⟨fun hin => ?_, hnodup⟩
          obtain ⟨e, he, rfl⟩ := List.mem_map.1 hin
          exact hk (hmem e he)
        · rintro e (_ | ⟨_, he⟩)
          · exact List.mem_cons_self
          · exact List.mem_cons_of_mem k (hmem e he)
        · rintro e (_ | ⟨_, he⟩)
          · exact ⟨hb, hzero, hp⟩
          · exact hout e he

theorem evict_spec {s : LRUCachePolicy K} (n : ℕ) (ks : List K) (h : s.Consistent) :
    s.evict n ks = .ok none ∨ ∃ out s', s.evict n ks = .ok (some (out, s')) ∧ s'.Consistent ∧
      out.length = n ∧ (s.blocks.entries : Multiset (K × BlockStatus)) = out + s'.blocks.entries ∧
      ∀ e ∈ out, e.2.refCnt = 0 ∧ e.1 ∉ ks := by
  rw [evict]
  split
  next hn => exact Or.inr ⟨[], s, rfl, h, hn.symm, by simp, by simp⟩
  next =>
    obtain ⟨out, hok, hlen, hnodup, -, hout⟩ := scan_spec ks (n := n)
      s.evictableBlocks.nodup_keys fun k hk => (h k).1 hk
    rw [hok]
    simp only [ok_bind]
    split
    · exact Or.inl rfl
    · refine Or.inr ⟨out, _, rfl, fun k => ?_, by omega,
        entries_popAll hnodup fun e he => (hout e he).1, fun e he => (hout e he).2⟩
      simp only [mem_iff_get?, get?_popAll]
      by_cases hk : k ∈ out.map Prod.fst
      · simp [hk]
      · simpa [hk, mem_iff_get?] using h k

instance : LawfulCachePolicy K (LRUCachePolicy K) where
  Consistent := Consistent
  held s := s.blocks.entries
  init_consistent n k := by simp [CachePolicy.init]
  held_init n := rfl
  nodup_keys {s} _ := by
    rw [map_coe, coe_nodup]
    exact s.blocks.nodup
  get_eq_some_iff {s k b} _ := by
    rw [mem_coe]
    exact get?_eq_some_iff
  insert {s k b} h hnone hb := by
    have hnone' : s.blocks.get? k = none := hnone
    refine ⟨fun k' => ?_, entries_set_of_get?_none b hnone'⟩
    simp only [CachePolicy.insert, if_neg hb, get?_set]
    by_cases hk : k' = k
    · subst hk
      simpa [hnone', hb] using h k'
    · simpa [hk] using h k'
  remove {s k b} h hb := by
    have hb' : s.blocks.get? k = some b := hb
    refine ⟨_, if_pos (mem_of_get? hb'), fun k' => ?_, entries_of_get? hb'⟩
    simp only [mem_pop, get?_pop]
    by_cases hk : k' = k
    · simp [hk]
    · simpa [hk] using h k'
  touch {s} ks h := by
    refine ⟨fun k => ?_, rfl⟩
    exact (mem_foldl_moveToEnd _ _ k).trans (h k)
  evict {s} n ks h := evict_spec n ks h
  clear {s} := ⟨fun k => by simp [CachePolicy.clear], rfl⟩
  acquire {s k b b'} h hb hzero hb' := by
    have hget : s.blocks.get? k = some b := hb
    refine ⟨_, if_pos ((h k).2 ⟨b, hget, hzero⟩), fun k' => ?_, entries_set_of_get? hget⟩
    simp only [CachePolicy.write, mem_pop, get?_set]
    by_cases hk : k' = k
    · simp [hk, hb']
    · simpa [hk] using h k'
  write {s k b b'} h hb hne hne' := by
    have hget : s.blocks.get? k = some b := hb
    refine ⟨fun k' => ?_, entries_set_of_get? hget⟩
    simp only [CachePolicy.write, get?_set]
    by_cases hk : k' = k
    · subst hk
      simpa [hget, hne, hne'] using h k'
    · simpa [hk] using h k'
  release {s k b b'} h hb hne hzero := by
    have hget : s.blocks.get? k = some b := hb
    refine ⟨fun k' => ?_, entries_set_of_get? hget⟩
    simp only [CachePolicy.write, CachePolicy.markEvictable, get?_set, mem_set]
    by_cases hk : k' = k
    · simp [hk, hzero]
    · simpa [hk] using h k'

end LRUCachePolicy

/-! ## ARC -/

/-- `ARCCachePolicy`: the blocks used once and those used more often, the keys that were
evicted from either, and the size the first part should have. That size is a double, and
every operation on it is rounded; the sizes themselves are far below `2 ^ 53`. -/
structure ARCCachePolicy (K : Type) where
  cacheCapacity : ℕ
  targetT1Size : ℚ
  t1 : Dict K BlockStatus
  t2 : Dict K BlockStatus
  b1 : Dict K Unit
  b2 : Dict K Unit

namespace ARCCachePolicy

variable (s : ARCCachePolicy K)

/-- `touch` of one key. -/
def touchOne (k : K) : ARCCachePolicy K :=
  match s.t1.get? k with
  | some b =>
    -- a block that is still being written is not used twice
    if b.IsReady then { s with t1 := s.t1.pop k, t2 := s.t2.set k b }
    else { s with t1 := (s.t1.pop k).set k b }
  | none =>
    if k ∈ s.t2 then { s with t2 := s.t2.moveToEnd k }
    else if k ∈ s.b1 then { s with
      targetT1Size := min (float64 (s.targetT1Size +
        max 1 (float64 (s.b2.keys.length / s.b1.keys.length)))) s.cacheCapacity
      b1 := s.b1.moveToEnd k }
    else if k ∈ s.b2 then { s with
      targetT1Size := max (float64 (s.targetT1Size -
        max 1 (float64 (s.b1.keys.length / s.b2.keys.length)))) 0
      b2 := s.b2.moveToEnd k }
    else s

/-- `next_candidate`: the next idle, unprotected entry and the rest of the scan. -/
def nextCandidate (protected_ : List K) :
    List (K × BlockStatus) → Option (K × BlockStatus) × List (K × BlockStatus)
  | [] => (none, [])
  | e :: es => if e.2.refCnt = 0 ∧ e.1 ∉ protected_ then (some e, es)
      else nextCandidate protected_ es

/-- The selection loop of `evict`: the candidates of each part, or `none` when the second
part is exhausted. `target` is the target size cut to an integer; scans are never
restarted. -/
def pick (protected_ : List K) (target : ℤ) :
    ℕ → ℕ → List (K × BlockStatus) → List (K × BlockStatus) → Option (List (K × BlockStatus × Bool))
  | 0, _, _, _ => some []
  | n + 1, virtualT1Size, l1, l2 =>
    let r1 := if target ≤ virtualT1Size then nextCandidate protected_ l1 else (none, l1)
    match r1 with
    | (some e, l1) => (pick protected_ target n (virtualT1Size - 1) l1 l2).map
        ((e.1, e.2, true) :: ·)
    | (none, l1) =>
      match nextCandidate protected_ l2 with
      | (none, _) => none
      | (some e, l2) => (pick protected_ target n virtualT1Size l1 l2).map
          ((e.1, e.2, false) :: ·)

/-- Moving one candidate to the ghost list of its part. -/
def evictOne (c : K × BlockStatus × Bool) : ARCCachePolicy K :=
  if c.2.2 then { s with t1 := s.t1.pop c.1, b1 := s.b1.set c.1 () }
  else { s with t2 := s.t2.pop c.1, b2 := s.b2.set c.1 () }

/-- A ghost list keeps at most as many keys as the cache has blocks. -/
def trimGhost (capacity : ℕ) (ghost : Dict K Unit) : Dict K Unit :=
  popFirst^[ghost.keys.length - capacity] ghost

/-- `evict`. -/
def evict (n : ℕ) (protected_ : List K) : Option (List (K × BlockStatus) × ARCCachePolicy K) :=
  if n = 0 then some ([], s)
  else
    match pick protected_ s.targetT1Size.floor n s.t1.entries.length s.t1.entries s.t2.entries with
    | none => none
    | some candidates =>
      let s := candidates.foldl evictOne s
      some (candidates.map fun c => (c.1, c.2.1), { s with
        b1 := trimGhost s.cacheCapacity s.b1
        b2 := trimGhost s.cacheCapacity s.b2 })

instance : CachePolicy K (ARCCachePolicy K) where
  init n := ⟨n, 0, empty, empty, empty, empty⟩
  get s k := (s.t1.get? k).or (s.t2.get? k)
  write s k b :=
    if k ∈ s.t1 then { s with t1 := s.t1.set k b }
    else if k ∈ s.t2 then { s with t2 := s.t2.set k b }
    else s
  insert s k b := { s with t1 := s.t1.set k b, b1 := s.b1.pop k, b2 := s.b2.pop k }
  remove s k :=
    if k ∈ s.t1 then .ok { s with t1 := s.t1.pop k } else .ok { s with t2 := s.t2.pop k }
  touch s ks := ks.reverse.foldl touchOne s
  evict s n ks := .ok (s.evict n ks)
  clear s := { s with
    t1 := empty
    t2 := empty
    b1 := empty
    b2 := empty
    targetT1Size := 0 }
  markEvictable s _ := s
  markNonEvictable s _ := .ok s

/-- No key is in both parts. -/
def Consistent : Prop := ∀ k ∈ s.t1, k ∉ s.t2

def held : Multiset (K × BlockStatus) := ↑s.t1.entries + ↑s.t2.entries

variable {s} {b' : BlockStatus}

theorem get_eq_some_iff (h : s.Consistent) : CachePolicy.get s k = some b ↔ (k, b) ∈ s.held := by
  show (s.t1.get? k).or (s.t2.get? k) = some b ↔ _
  rw [held, mem_add, mem_coe, mem_coe, ← get?_eq_some_iff, ← get?_eq_some_iff]
  cases h1 : s.t1.get? k with
  | none => simp
  | some b1 =>
    have h2 : s.t2.get? k = none := get?_eq_none_iff.2 (h k (mem_of_get? h1))
    simp [h2]

/-- A resident block is in one of the parts. -/
theorem get_cases (h : CachePolicy.get s k = some b) :
    s.t1.get? k = some b ∨ k ∉ s.t1 ∧ s.t2.get? k = some b := by
  have h' : (s.t1.get? k).or (s.t2.get? k) = some b := h
  cases h1 : s.t1.get? k with
  | some b1 =>
    rw [h1] at h'
    exact Or.inl (by simpa using h')
  | none =>
    rw [h1] at h'
    exact Or.inr ⟨get?_eq_none_iff.1 h1, by simpa using h'⟩

omit [DecidableEq K] in
theorem nodup_keys (h : s.Consistent) : (s.held.map Prod.fst).Nodup := by
  rw [held, map_add, map_coe, map_coe, coe_add, coe_nodup]
  refine s.t1.nodup.append s.t2.nodup fun k h1 h2 => h k h1 h2

theorem touchOne_spec (h : s.Consistent) (k : K) :
    (s.touchOne k).Consistent ∧ (s.touchOne k).held = s.held := by
  rw [touchOne]
  split
  next b hb =>
    have hk : k ∉ s.t2 := h k (mem_of_get? hb)
    split
    · refine ⟨fun k' h1 h2 => ?_, ?_⟩
      · simp only [mem_pop, mem_set] at h1 h2
        exact h k' h1.2 (h2.resolve_left h1.1)
      · rw [held, held, entries_of_get? hb,
          entries_set_of_get?_none b (get?_eq_none_iff.2 hk), add_cons,
          cons_add]
    · refine ⟨fun k' h1 => ?_, ?_⟩
      · simp only [mem_set, mem_pop] at h1
        rcases h1 with rfl | ⟨-, h1⟩
        · exact hk
        · exact h k' h1
      · rw [held, held, entries_set_of_get?_none b (by simp), ← entries_of_get? hb]
  next hnone =>
    split
    · refine ⟨fun k' h1 h2 => h k' h1 (mem_moveToEnd.1 h2), ?_⟩
      rw [held, held, coe_eq_coe.2 (s.t2.entries_moveToEnd_perm k)]
    · split
      · exact ⟨h, rfl⟩
      · split <;> exact ⟨h, rfl⟩

theorem touch_spec (ks : List K) (h : s.Consistent) :
    (ks.foldl touchOne s).Consistent ∧ (ks.foldl touchOne s).held = s.held := by
  induction ks generalizing s with
  | nil => exact ⟨h, rfl⟩
  | cons k ks ih =>
    obtain ⟨hone, heq⟩ := touchOne_spec h k
    obtain ⟨hall, heq'⟩ := ih hone
    exact ⟨hall, heq'.trans heq⟩

/-- A candidate is idle and unprotected; it and the rest of the scan are what was there. -/
theorem nextCandidate_spec (protected_ : List K) (l : List (K × BlockStatus)) :
    (nextCandidate protected_ l).2.Sublist l ∧ ∀ e ∈ (nextCandidate protected_ l).1,
      (e :: (nextCandidate protected_ l).2).Sublist l ∧ e.2.refCnt = 0 ∧ e.1 ∉ protected_ := by
  induction l with
  | nil => exact ⟨.slnil, fun e he => by simp [nextCandidate] at he⟩
  | cons a l ih =>
    rw [nextCandidate]
    split
    next ha =>
      refine ⟨List.sublist_cons_self a l, fun e he => ?_⟩
      cases he
      exact ⟨.refl _, ha⟩
    next =>
      refine ⟨ih.1.cons a, fun e he => ?_⟩
      exact ⟨(ih.2 e he).1.cons a, (ih.2 e he).2⟩

/-- The candidates of one part. -/
def fromPart (part : Bool) (cs : List (K × BlockStatus × Bool)) : List (K × BlockStatus) :=
  (cs.filter fun c => c.2.2 = part).map fun c => (c.1, c.2.1)

/-- The selection takes a part of each scan, in its order. -/
theorem pick_spec {protected_ : List K} {target : ℤ} {n v : ℕ} {l1 l2 : List (K × BlockStatus)}
    {cs : List (K × BlockStatus × Bool)} (h : pick protected_ target n v l1 l2 = some cs) :
    cs.length = n ∧ (fromPart true cs).Sublist l1 ∧ (fromPart false cs).Sublist l2 ∧
      ∀ c ∈ cs, c.2.1.refCnt = 0 ∧ c.1 ∉ protected_ := by
  induction n generalizing v l1 l2 cs with
  | zero =>
    cases h
    exact ⟨rfl, List.nil_sublist _, List.nil_sublist _, by simp⟩
  | succ n ih =>
    rw [pick] at h
    -- whatever the first scan does, what is left of it is a part of it
    obtain ⟨r1, hr1⟩ :
        ∃ r1, (if target ≤ v then nextCandidate protected_ l1 else (none, l1)) = r1 :=
      ⟨_, rfl⟩
    have hscan : r1.2.Sublist l1 ∧ ∀ e ∈ r1.1, (e :: r1.2).Sublist l1 ∧ e.2.refCnt = 0 ∧
        e.1 ∉ protected_ := by
      rw [← hr1]
      split
      · exact nextCandidate_spec protected_ l1
      · exact ⟨.refl _, by simp⟩
    rw [hr1] at h
    obtain ⟨o1, l1'⟩ := r1
    cases o1 with
    | some e =>
      simp only [Option.map_eq_some_iff] at h
      obtain ⟨cs', hcs, rfl⟩ := h
      obtain ⟨hlen, h1, h2, hall⟩ := ih hcs
      obtain ⟨hsub, hidle⟩ := hscan.2 e rfl
      refine ⟨by simp [hlen], ?_, ?_, ?_⟩
      · simpa [fromPart] using (h1.cons_cons e).trans hsub
      · simpa [fromPart] using h2
      · rintro c (_ | ⟨_, hc⟩)
        · exact hidle
        · exact hall c hc
    | none =>
      have hscan2 := nextCandidate_spec protected_ l2
      obtain ⟨r2, hr2⟩ : ∃ r2, nextCandidate protected_ l2 = r2 := ⟨_, rfl⟩
      rw [hr2] at h hscan2
      obtain ⟨o2, l2'⟩ := r2
      cases o2 with
      | none => simp at h
      | some e =>
        simp only [Option.map_eq_some_iff] at h
        obtain ⟨cs', hcs, rfl⟩ := h
        obtain ⟨hlen, h1, h2, hall⟩ := ih hcs
        obtain ⟨hsub, hidle⟩ := hscan2.2 e rfl
        refine ⟨by simp [hlen], ?_, ?_, ?_⟩
        · simpa [fromPart] using h1.trans hscan.1
        · simpa [fromPart] using (h2.cons_cons e).trans hsub
        · rintro c (_ | ⟨_, hc⟩)
          · exact hidle
          · exact hall c hc

variable (cs : List (K × BlockStatus × Bool))

/-- Moving the candidates out deletes those of each part from it. -/
theorem foldl_evictOne (s : ARCCachePolicy K) : (cs.foldl evictOne s).t1 = popAll (fromPart true cs)
    s.t1 ∧ (cs.foldl evictOne s).t2 = popAll (fromPart false cs) s.t2 := by
  induction cs generalizing s with
  | nil => exact ⟨rfl, rfl⟩
  | cons c cs ih =>
    obtain ⟨h1, h2⟩ := ih (s.evictOne c)
    rw [List.foldl_cons, h1, h2]
    rcases hc : c.2.2 with _ | _ <;> simp [evictOne, fromPart, popAll, hc]

omit [DecidableEq K] in
theorem fromPart_add :
    ((cs.map fun c => (c.1, c.2.1) : List (K × BlockStatus)) : Multiset (K × BlockStatus)) =
    ↑(fromPart true cs) + ↑(fromPart false cs) := by
  induction cs with
  | nil => rfl
  | cons c cs ih =>
    rw [List.map_cons, ← cons_coe, ih]
    rcases hc : c.2.2 with _ | _
    · simp [fromPart, hc, ← cons_coe]
    · simp [fromPart, hc, ← cons_coe]

variable {es : List (K × BlockStatus)}

/-- Entries taken from a dictionary are what deleting their keys removes. -/
theorem entries_popAll_of_sublist (h : es.Sublist d.entries) :
    (d.entries : Multiset (K × BlockStatus)) = es + (popAll es d).entries :=
  entries_popAll ((h.map Prod.fst).nodup d.nodup) fun _ he => get?_eq_some_iff.2 (h.subset he)

theorem mem_of_mem_popAll {β : Type} {d : Dict K β} (h : k ∈ popAll es d) : k ∈ d := by
  rw [mem_iff_get?, get?_popAll] at h
  obtain ⟨v, hv⟩ := h
  split at hv
  · cases hv
  · exact mem_of_get? hv

theorem evict_spec (n : ℕ) (ks : List K) (h : s.Consistent) :
    s.evict n ks = none ∨ ∃ out s', s.evict n ks = some (out, s') ∧ s'.Consistent ∧
      out.length = n ∧ s.held = out + s'.held ∧ ∀ e ∈ out, e.2.refCnt = 0 ∧ e.1 ∉ ks := by
  rw [evict]
  split
  next hn => exact Or.inr ⟨[], s, rfl, h, hn.symm, by simp, by simp⟩
  next =>
    split
    · exact Or.inl rfl
    next cs hcs =>
      obtain ⟨hlen, h1, h2, hall⟩ := pick_spec hcs
      obtain ⟨ht1, ht2⟩ := foldl_evictOne cs s
      refine Or.inr ⟨_, _, rfl, fun k hk1 hk2 => ?_, by simpa using hlen, ?_, fun e he => ?_⟩
      · rw [ht1] at hk1
        rw [ht2] at hk2
        exact h k (mem_of_mem_popAll hk1) (mem_of_mem_popAll hk2)
      · show s.held = _ + (((cs.foldl evictOne s).t1.entries : Multiset (K × BlockStatus)) +
          (cs.foldl evictOne s).t2.entries)
        rw [fromPart_add, ht1, ht2, held, entries_popAll_of_sublist h1,
          entries_popAll_of_sublist h2]
        abel
      · obtain ⟨c, hc, rfl⟩ := List.mem_map.1 he
        exact hall c hc

/-- Writing a resident block exchanges its entry. -/
theorem write_spec (h : s.Consistent) (hb : CachePolicy.get s k = some b) :
    Consistent (CachePolicy.write s k b') ∧
      (k, b) ::ₘ held (CachePolicy.write s k b') = (k, b') ::ₘ s.held := by
  rcases get_cases hb with h1 | ⟨h1, h2⟩
  · have hk := mem_of_get? h1
    simp only [CachePolicy.write, if_pos hk]
    refine ⟨fun k' hk' => ?_, ?_⟩
    · rcases mem_set.1 hk' with rfl | hk'
      · exact h _ hk
      · exact h k' hk'
    · rw [held, held, ← cons_add, entries_set_of_get? h1, cons_add]
  · have hk := mem_of_get? h2
    simp only [CachePolicy.write, if_neg h1, if_pos hk]
    refine ⟨fun k' hk' hk2 => ?_, ?_⟩
    · rcases mem_set.1 hk2 with rfl | hk2
      · exact h1 hk'
      · exact h k' hk' hk2
    · rw [held, held, ← add_cons, entries_set_of_get? h2, add_cons]

theorem insert_spec (h : s.Consistent) (hnone : CachePolicy.get s k = none) :
    Consistent (CachePolicy.insert s k b) ∧
      held (CachePolicy.insert s k b) = (k, b) ::ₘ s.held := by
  have hor : (s.t1.get? k).or (s.t2.get? k) = none := hnone
  rw [Option.or_eq_none_iff] at hor
  refine ⟨fun k' hk' => ?_, ?_⟩
  · rcases mem_set.1 hk' with rfl | hk'
    · exact get?_eq_none_iff.1 hor.2
    · exact h k' hk'
  · show ((s.t1.set k b).entries : Multiset (K × BlockStatus)) + s.t2.entries = _
    rw [held, entries_set_of_get?_none b hor.1, cons_add]

theorem remove_spec (h : s.Consistent) (hb : CachePolicy.get s k = some b) :
    ∃ s', CachePolicy.remove s k = .ok s' ∧ s'.Consistent ∧ s.held = (k, b) ::ₘ s'.held := by
  rcases get_cases hb with h1 | ⟨h1, h2⟩
  · refine ⟨_, if_pos (mem_of_get? h1), fun k' hk' => h k' (mem_pop.1 hk').2, ?_⟩
    rw [held, held, entries_of_get? h1, cons_add]
  · refine ⟨_, if_neg h1, fun k' hk' hk2 => h k' hk' (mem_pop.1 hk2).2, ?_⟩
    rw [held, held, entries_of_get? h2, add_cons]

instance : LawfulCachePolicy K (ARCCachePolicy K) where
  Consistent := Consistent
  held := held
  init_consistent n k hk := by simp [CachePolicy.init] at hk
  held_init n := rfl
  nodup_keys := nodup_keys
  get_eq_some_iff := get_eq_some_iff
  insert h hnone _ := insert_spec h hnone
  remove := remove_spec
  touch ks h := touch_spec ks.reverse h
  evict {s} n ks h := by
    show Except.ok (s.evict n ks) = _ ∨ _
    rcases evict_spec n ks h with hnone | ⟨out, s', hok, hrest⟩
    · exact Or.inl (by rw [hnone])
    · exact Or.inr ⟨out, s', by rw [← hok]; rfl, hrest⟩
  clear {s} := ⟨fun k hk => by simp [CachePolicy.clear] at hk, rfl⟩
  acquire h hb _ _ := ⟨_, rfl, write_spec h hb⟩
  write h hb _ _ := write_spec h hb
  release h hb _ _ := write_spec h hb

end ARCCachePolicy

/-! ## The policy by its name -/

/-- The registered names of `CachePolicyFactory`. -/
inductive PolicyName
  | lru
  | arc
  deriving DecidableEq, Repr

/-- The state of the policy with a name. -/
def PolicyState (K : Type) : PolicyName → Type
  | .lru => LRUCachePolicy K
  | .arc => ARCCachePolicy K

instance (name : PolicyName) : CachePolicy K (PolicyState K name) :=
  match name with
  | .lru => inferInstanceAs (CachePolicy K (LRUCachePolicy K))
  | .arc => inferInstanceAs (CachePolicy K (ARCCachePolicy K))

instance (name : PolicyName) : LawfulCachePolicy K (PolicyState K name) :=
  match name with
  | .lru => inferInstanceAs (LawfulCachePolicy K (LRUCachePolicy K))
  | .arc => inferInstanceAs (LawfulCachePolicy K (ARCCachePolicy K))

end KVarN.Offload
