import KVarN.Lib.Outcome
import KVarN.Lib.RefCount

/-!
# The block pool

`BlockPool` owns the KV-cache blocks: reference counts, the queue of free blocks
in eviction order, and the prefix-cache index from block hashes to blocks. The
per-block fields are kept as columns: the counts and the queue are the library's
`RefPool`, the hash metadata is `HashIndex`, and every operation of the source
that only touches the index is an operation on `HashIndex` alone.

Block hashes are an arbitrary type `H`; a key is a hash with its KV-cache group.

## Main definitions

* `HashIndex.cacheFullBlocks`, `HashIndex.cachePartialBlock`,
  `HashIndex.moveBlockHashes` — registering cached blocks.
* `BlockPool.getNewBlocks`, `BlockPool.touch`, `BlockPool.freeBlocks` — allocation.
* `BlockPool.Accounts` — the counts are those of the owed references.
-/

namespace KVarN.Core

open KVarN.Lib Function RefPool

/-- Block ids range over `0 .. num_gpu_blocks - 1`. -/
abbrev BlockId := ℕ

/-- Request ids, as opaque comparable names. -/
abbrev ReqId := ℕ

/-- The exceptions the modelled code can raise. -/
inductive Fault
  | valueError
  | assertionError
  | indexError
  | keyError
  | runtimeError
  deriving DecidableEq, Repr

/-- A result that stands for an exception when it is missing. -/
def orRaise {α : Type} (e : Fault) : Option α → Except Fault α
  | none => .error e
  | some a => .ok a

/-- `assert c`. -/
def assert (c : Prop) [Decidable c] : Except Fault Unit :=
  if c then .ok () else .error .assertionError

theorem bind_eq_ok {α β : Type} {x : Except Fault α} {f : α → Except Fault β} {b : β} :
    (x >>= f) = .ok b ↔ ∃ a, x = .ok a ∧ f a = .ok b :=
  except_bind_eq_ok

@[simp] theorem orRaise_eq_ok {α : Type} {e : Fault} {o : Option α} {a : α} :
    orRaise e o = .ok a ↔ o = some a := by
  cases o <;> simp [orRaise]

@[simp] theorem assert_eq_ok {c : Prop} [Decidable c] {x : Unit} : assert c = .ok x ↔ c := by
  simp [assert]

/-- The placeholder block, never cached and never freed. -/
def nullBlock : BlockId := 0

/-- `BlockHashWithGroupId`. -/
abbrev Key (H : Type) := H × ℕ

/-- The hash metadata of all blocks and the prefix-cache index. A key that is not
cached maps to `[]`; several blocks under one key keep their insertion order. -/
structure HashIndex (H : Type) where
  blockHash : BlockId → Option (Key H)
  blockHashNumTokens : BlockId → Option ℕ
  cachedBlockHashToBlock : Key H → List BlockId
  cachedBlockHashesByBlock : BlockId → List (Key H)

namespace HashIndex

variable {H : Type} [DecidableEq H]

/-- No block has a hash. -/
def empty : HashIndex H where
  blockHash _ := none
  blockHashNumTokens _ := none
  cachedBlockHashToBlock _ := []
  cachedBlockHashesByBlock _ := []

variable (x : HashIndex H) (k : Key H) (b : BlockId)

/-- `BlockHashToBlockMap.get_one_block`. -/
def getOneBlock : Option BlockId :=
  (x.cachedBlockHashToBlock k).head?

/-- `BlockHashToBlockMap.contain`. -/
def contain : Prop :=
  b ∈ x.cachedBlockHashToBlock k
  deriving Decidable

/-- `BlockHashToBlockMap.insert`. -/
def insert : HashIndex H :=
  { x with
    cachedBlockHashToBlock := update x.cachedBlockHashToBlock k
      (if x.contain k b then x.cachedBlockHashToBlock k
       else x.cachedBlockHashToBlock k ++ [b]) }

/-- `BlockHashToBlockMap.pop`, as the index it leaves. -/
def pop : HashIndex H :=
  { x with
    cachedBlockHashToBlock := update x.cachedBlockHashToBlock k
      ((x.cachedBlockHashToBlock k).erase b) }

/-- `KVCacheBlock.reset_hash`. -/
def resetHash : HashIndex H :=
  { x with
    blockHash := update x.blockHash b none
    blockHashNumTokens := update x.blockHashNumTokens b none }

/-- Pop a block from a list of keys; returns the keys it was found under. -/
def popKeys (b : BlockId) : List (Key H) → HashIndex H → List (Key H) × HashIndex H
  | [], x => ([], x)
  | k :: ks, x =>
    let r := popKeys b ks (x.pop k b)
    (if x.contain k b then k :: r.1 else r.1, r.2)

/-- All keys a block may be cached under: its primary hash, then the others. -/
def keysOf : List (Key H) :=
  (x.blockHash b).toList ++ x.cachedBlockHashesByBlock b

/-- `BlockPool._remove_cached_block_hashes`. -/
def removeCachedBlockHashes : List (Key H) × HashIndex H :=
  if x.keysOf b = [] then ([], x)
  else
    let r := popKeys b (x.keysOf b) { x with
      cachedBlockHashesByBlock := update x.cachedBlockHashesByBlock b [] }
    (r.1, r.2.resetHash b)

/-- `KVCacheBlock.set_block_hash`. -/
def setBlockHash (k : Key H) (numTokens : Option ℕ) : Except Fault (HashIndex H) := do
  assert (x.blockHash b = none ∧ x.blockHashNumTokens b = none)
  pure { x with
    blockHash := update x.blockHash b (some k)
    blockHashNumTokens := update x.blockHashNumTokens b numTokens }

/-- Track a further key of a block that already has a primary hash. -/
def addSecondary (k : Key H) : HashIndex H :=
  { x with
    cachedBlockHashesByBlock := update x.cachedBlockHashesByBlock b
      (if k ∈ x.cachedBlockHashesByBlock b then x.cachedBlockHashesByBlock b
       else x.cachedBlockHashesByBlock b ++ [k]) }

/-- Make a key the block's primary hash, or track it next to the one it has. -/
def recordKey (numTokens : Option ℕ) : Except Fault (HashIndex H) :=
  if x.blockHash b = none then x.setBlockHash b k numTokens else .ok (x.addSecondary b k)

/-- `BlockPool._insert_block_hash`. -/
def insertBlockHash (numTokens : Option ℕ) : Except Fault (HashIndex H) :=
  if x.blockHash b = some k then .ok x
  else if x.contain k b then .ok x
  else do
    let x ← x.recordKey k b numTokens
    pure (x.insert k b)

/-- The hash of the `i`-th block of `blockSize` tokens in a request's list of
hashes at `hashBlockSize` granularity (`BlockHashListWithBlockSize`). -/
def hashAt (hashes : List H) (hashBlockSize blockSize i : ℕ) : Option H :=
  hashes[(i + 1) * (blockSize / hashBlockSize) - 1]?

/-- A full block may already carry the hash of one of its partial tails, which the
full hash replaces. -/
def promote (numHashTokens : ℕ) : Except Fault (HashIndex H) :=
  if x.blockHash b = none then .ok x
  else do
    assert (∃ n ∈ x.blockHashNumTokens b, n < numHashTokens)
    pure (x.removeCachedBlockHashes b).2

/-- The loop of `BlockPool.cache_full_blocks` over the new full blocks; `i` is the
position of the first of them in the request. -/
def cacheFullLoop (hashes : List H) (hashBlockSize blockSize groupId : ℕ)
    (mask : ℕ → Bool) : ℕ → List BlockId → HashIndex H → Except Fault (HashIndex H)
  | _, [], x => .ok x
  | i, b :: bs, x =>
    -- null blocks, and blocks no hit can reach, stay out of the index
    if b = nullBlock ∨ mask i = false then
      cacheFullLoop hashes hashBlockSize blockSize groupId mask (i + 1) bs x
    else do
      let h ← orRaise .indexError (hashAt hashes hashBlockSize blockSize i)
      let x ← x.promote b ((i + 1) * blockSize)
      let x ← x.insertBlockHash (h, groupId) b (some ((i + 1) * blockSize))
      cacheFullLoop hashes hashBlockSize blockSize groupId mask (i + 1) bs x

/-- The per-block mask of `cache_full_blocks`, by position in the request. -/
def maskAt (mask : Option (List Bool)) (numCachedBlocks i : ℕ) : Bool :=
  match mask with
  | none => true
  | some m => m.getD (i - numCachedBlocks) true

/-- `BlockPool.cache_full_blocks`. -/
def cacheFullBlocks (hashBlockSize : ℕ) (hashes : List H) (blocks : List BlockId)
    (numCachedBlocks numFullBlocks blockSize groupId : ℕ) (mask : Option (List Bool)) :
    Except Fault (HashIndex H) :=
  if numFullBlocks ≤ numCachedBlocks then .ok x
  else do
    let newFullBlocks := (blocks.take numFullBlocks).drop numCachedBlocks
    assert (∀ m ∈ mask, m.length = newFullBlocks.length)
    assert (blockSize % hashBlockSize = 0)
    cacheFullLoop hashes hashBlockSize blockSize groupId (maskAt mask numCachedBlocks)
      numCachedBlocks newFullBlocks x

/-- An older, shorter tail of the same block gives way to a longer one. -/
def dropShorterTail (numHashTokens : ℕ) : HashIndex H :=
  if ¬ (x.blockHash b = some k ∨ x.contain k b) ∧ x.blockHash b ≠ none ∧
      ∃ n ∈ x.blockHashNumTokens b, n < numHashTokens
  then (x.removeCachedBlockHashes b).2 else x

/-- `BlockPool.cache_partial_block`. -/
def cachePartialBlock (hashBlockSize : ℕ) (hashes : List H) (b : BlockId)
    (numTokens groupId blockSize : ℕ) : Except Fault (Option (Key H) × HashIndex H) :=
  if b = nullBlock then .ok (none, x)
  else do
    assert (hashBlockSize < blockSize)
    assert (blockSize % hashBlockSize = 0)
    assert (numTokens % blockSize ≠ 0)
    assert (numTokens % hashBlockSize = 0)
    let numHashBlocks := numTokens / hashBlockSize
    assert (0 < numHashBlocks ∧ numHashBlocks ≤ hashes.length)
    let h ← orRaise .indexError hashes[numHashBlocks - 1]?
    let numHashTokens := numHashBlocks * hashBlockSize
    let x ← (x.dropShorterTail (h, groupId) b numHashTokens).insertBlockHash (h, groupId) b
      (some numHashTokens)
    pure (some (h, groupId), x)

/-- Re-insert removed keys under another block. -/
def insertAll (b : BlockId) (numTokens : Option ℕ) :
    List (Key H) → HashIndex H → Except Fault (HashIndex H)
  | [], x => .ok x
  | k :: ks, x => do
      let x ← x.insertBlockHash k b numTokens
      insertAll b numTokens ks x

/-- `BlockPool.move_block_hashes`. -/
def moveBlockHashes (src dst : BlockId) : Except Fault (HashIndex H) := do
  assert (x.blockHash dst = none)
  assert (x.cachedBlockHashesByBlock dst = [])
  let numTokens := x.blockHashNumTokens src
  let r := x.removeCachedBlockHashes src
  insertAll dst numTokens r.1 r.2

/-- `BlockPool._maybe_evict_cached_block` on each block of a list. -/
def evictAll (bs : List BlockId) (x : HashIndex H) : HashIndex H :=
  bs.foldl (fun x b => (x.removeCachedBlockHashes b).2) x

end HashIndex

/-- The pool: its static parameters, the counted blocks and the hash index. -/
structure BlockPool (H : Type) where
  numGpuBlocks : ℕ
  enableCaching : Bool
  hashBlockSize : ℕ
  refs : RefPool BlockId
  index : HashIndex H

namespace BlockPool

variable {H : Type}

/-- A fresh pool: block 0 is the null block, all others are free in id order. -/
def init (numGpuBlocks : ℕ) (enableCaching : Bool) (hashBlockSize : ℕ) : BlockPool H where
  numGpuBlocks := numGpuBlocks
  enableCaching := enableCaching
  hashBlockSize := hashBlockSize
  refs :=
    { refCnt := fun _ => 0
      queue := List.range' 1 (numGpuBlocks - 1)
      numFree := (numGpuBlocks - 1 : ℕ) }
  index := HashIndex.empty

/-- `block.ref_cnt`. -/
def refCnt (p : BlockPool H) (b : BlockId) : ℤ := p.refs.refCnt b

variable (p : BlockPool H)

/-- `get_num_free_blocks`. -/
def getNumFreeBlocks : ℤ := p.refs.numFree

/-- `get_cached_block`: one cached block per group, or a miss. -/
def getCachedBlock (h : H) (groupIds : List ℕ) : Option (List BlockId) :=
  groupIds.mapM fun g => p.index.getOneBlock (h, g)

/-- `touch`. -/
def touch (p : BlockPool H) (bs : List BlockId) : Except Fault (BlockPool H) := do
  let refs ← orRaise .runtimeError (RefPool.touch (· = nullBlock) bs p.refs)
  pure { p with refs := refs }

/-- `free_blocks`: blocks without a hash are reused first. -/
def freeBlocks (bs : List BlockId) : BlockPool H :=
  { p with
    refs := p.refs.release (· = nullBlock)
      (fun b => (p.index.blockHash b).isNone || !p.enableCaching) bs }

/-- `block.ref_cnt += 1`. -/
def retain (b : BlockId) : BlockPool H :=
  { p with refs := p.refs.incr b }

def withIndex (x : HashIndex H) : BlockPool H := { p with index := x }

variable [DecidableEq H]

/-- `get_new_blocks`. -/
def getNewBlocks (n : ℤ) : Except Fault (List BlockId × BlockPool H) :=
  if p.getNumFreeBlocks < n then .error .valueError
  else do
    let r ← orRaise .assertionError (acquire n p.refs)
    pure (r.1, { p with
      refs := r.2
      index := if p.enableCaching then p.index.evictAll r.1 else p.index })

/-- `evict_blocks`. -/
def evictBlocks (ids : List BlockId) : Except Fault (BlockPool H) := do
  assert (∀ b ∈ ids, b < p.numGpuBlocks)
  pure (p.withIndex (p.index.evictAll ids))

/-- `reset_prefix_cache`: only when no block but the null block is in use. -/
def resetPrefixCache : Bool × BlockPool H :=
  if (p.numGpuBlocks : ℤ) - p.getNumFreeBlocks ≠ 1 then (false, p)
  else (true, p.withIndex HashIndex.empty)

/-! ## Accounting -/

/-- The blocks that are counted: all but the null block. -/
def univ : Set BlockId := {b | b ≠ nullBlock ∧ b < p.numGpuBlocks}

/-- The references a block list stands for: its non-null entries. -/
def real (bs : List BlockId) : Multiset BlockId := reals (· = nullBlock) bs

@[simp] theorem real_nil : real [] = 0 := rfl

theorem real_cons (b : BlockId) (bs : List BlockId) : real (b :: bs) = real [b] + real bs :=
  reals_cons _ b bs

@[simp] theorem real_append (bs cs : List BlockId) : real (bs ++ cs) = real bs + real cs :=
  reals_append _ bs cs

@[simp] theorem real_reverse (bs : List BlockId) : real bs.reverse = real bs :=
  reals_reverse _ bs

variable {b : BlockId} {bs : List BlockId} {p} {p' : BlockPool H} {owed : Multiset BlockId}

theorem real_singleton (h : b ≠ nullBlock) : real [b] = {b} := by
  simp [real, reals, h]

@[simp] theorem real_null : real [nullBlock] = 0 := by
  simp [real, reals]

@[simp] theorem real_replicate_null (n : ℕ) : real (List.replicate n nullBlock) = 0 := by
  simp [real, reals]

theorem real_perm {bs' : List BlockId} (h : bs.Perm bs') : real bs = real bs' :=
  Multiset.coe_eq_coe.2 (h.filter _)

theorem mem_real : b ∈ real bs ↔ b ∈ bs ∧ b ≠ nullBlock :=
  mem_reals

theorem count_real (h : b ≠ nullBlock) (bs : List BlockId) : (real bs).count b = bs.count b := by
  simp [real, reals, List.count_filter, h]

/-- Overwriting an entry of a table exchanges one reference. -/
theorem real_set {i : ℕ} {a : BlockId} (h : bs[i]? = some a) :
    real (bs.set i b) + real [a] = real bs + real [b] :=
  reals_set h

theorem real_set_null {i : ℕ} {a : BlockId} (h : bs[i]? = some a) :
    real (bs.set i nullBlock) + real [a] = real bs := by
  rw [real_set h, real_null, add_zero]

/-- The pool's counts and free queue are exactly those of the owed references. -/
def Accounts (p : BlockPool H) (owed : Multiset BlockId) : Prop :=
  p.refs.Accounts p.univ owed

omit [DecidableEq H] in
theorem univ_not_null (p : BlockPool H) : ∀ b ∈ p.univ, ¬ b = nullBlock := fun _ h => h.1

theorem mem_range'_one (n b : ℕ) : b ∈ List.range' 1 (n - 1) ↔ b ≠ 0 ∧ b < n := by
  rw [List.mem_range'_1]; omega

section

omit [DecidableEq H]

theorem accounts_init (n : ℕ) (c : Bool) (hbs : ℕ) :
    (init n c hbs : BlockPool H).Accounts 0 where
  owed_mem b hb := absurd hb (Multiset.notMem_zero b)
  refCnt_eq b _ := rfl
  nodup := List.nodup_range'
  mem_queue b := by
    exact (mem_range'_one n b).trans ⟨fun h => ⟨h, rfl⟩, fun h => h.1⟩
  numFree_eq := by simp [init]

/-- Touching pool blocks and null blocks succeeds. -/
theorem Accounts.touch (h : p.Accounts owed) (hbs : ∀ b ∈ bs, b < p.numGpuBlocks) :
    ∃ p', p.touch bs = .ok p' ∧ p'.Accounts (owed + real bs) := by
  have hmem : ∀ b ∈ bs, b ∈ p.univ ∨ b = nullBlock := by
    intro b hb
    by_cases h0 : b = nullBlock
    · exact Or.inr h0
    · exact Or.inl ⟨h0, hbs b hb⟩
  obtain ⟨r, hr, hacc⟩ := RefPool.Accounts.touch p.univ_not_null h hmem
  refine ⟨{ p with refs := r }, ?_, hacc⟩
  simp only [BlockPool.touch, hr, orRaise]
  rfl

theorem Accounts.freeBlocks (h : p.Accounts (owed + real bs)) : (p.freeBlocks bs).Accounts owed :=
  RefPool.Accounts.release p.univ_not_null _ h

theorem Accounts.retain (h : p.Accounts owed)
    (hb : b ∈ owed ∨ b = nullBlock) : (p.retain b).Accounts (owed + real [b]) := by
  rcases hb with hb | rfl
  · have h0 : ¬ b = nullBlock := p.univ_not_null b (h.owed_mem b hb)
    rw [real_singleton h0]
    exact RefPool.Accounts.incr h hb
  · rw [real_null, add_zero]
    exact RefPool.Accounts.incr_of_notMem h fun hu => p.univ_not_null _ hu rfl

theorem Accounts.withIndex (h : p.Accounts owed)
    (x : HashIndex H) : (p.withIndex x).Accounts owed := h

theorem touch_numGpuBlocks (h : p.touch bs = .ok p') : p'.numGpuBlocks = p.numGpuBlocks := by
  obtain ⟨r, -, hok⟩ := bind_eq_ok.1 h
  cases hok; rfl

end

theorem getNewBlocks_numGpuBlocks {n : ℤ}
    (h : p.getNewBlocks n = .ok (bs, p')) : p'.numGpuBlocks = p.numGpuBlocks := by
  rw [BlockPool.getNewBlocks] at h
  split at h
  · exact absurd h (by simp)
  · obtain ⟨r, -, hok⟩ := bind_eq_ok.1 h
    cases hok; rfl

/-- What a successful `get_new_blocks` hands out: as many blocks as asked for,
from the front of the free queue, none of them null. -/
theorem Accounts.getNewBlocks {n : ℤ} (h : p.Accounts owed) (hn : 0 ≤ n)
    (hb : p.getNewBlocks n = .ok (bs, p')) :
    p'.Accounts (owed + real bs) ∧ p.refs.queue = bs ++ p'.refs.queue ∧ (bs.length : ℤ) = n := by
  rw [BlockPool.getNewBlocks] at hb
  split at hb
  · exact absurd hb (by simp)
  · simp only [bind_eq_ok, orRaise_eq_ok] at hb
    obtain ⟨r, hr, hok⟩ := hb
    cases hok
    obtain ⟨hacc, hq, hlen⟩ := RefPool.Accounts.acquire h hn hr
    have hreal : real r.1 = (r.1 : Multiset BlockId) := by
      refine reals_eq_coe fun b hb => ?_
      have hmem : b ∈ p.refs.queue := by rw [hq]; exact List.mem_append_left _ hb
      exact p.univ_not_null b ((h.mem_queue b).1 hmem).1
    exact ⟨by rw [hreal]; exact hacc, hq, hlen⟩

end BlockPool

end KVarN.Core
