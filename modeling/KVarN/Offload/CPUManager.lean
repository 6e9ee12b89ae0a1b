import KVarN.Offload.CachePolicy

/-!
# The CPU offload manager

`CPUOffloadingManager` hands out the slots of the CPU tier. It counts the readers of each
offloaded block, keeps the slots of evicted blocks in a free list and takes slots that were
never used before it reuses one, and leaves the choice of what to evict to its policy. With
a store threshold it counts how often keys are looked up, in a tracker of bounded size, and
stores a key only once it was seen often enough.

## Main definitions

* `CPUOffloadingManager.prepareLoad`, `completeLoad` — readers of resident blocks.
* `CPUOffloadingManager.prepareStore`, `completeStore` — new blocks and their completion.
* `CPUOp`, `CPUOffloadingManager.exec` — the calls of the interface.
-/

namespace KVarN.Offload

open KVarN.Lib CachePolicy
open KVarN.Core (Fault orRaise assert)

/-- The results of a lookup. -/
inductive LookupResult
  | miss
  | hit
  | hitPending
  | retry
  deriving DecidableEq, Repr

/-- `OffloadingEvent`. -/
structure OffloadingEvent (K : Type) where
  keys : List K
  removed : Bool
  deriving DecidableEq

/-- `PrepareStoreOutput`; the store specification is the list of slots. -/
structure PrepareStoreOutput (K : Type) where
  keysToStore : List K
  storeSpec : List ℕ
  evictedKeys : List K
  deriving DecidableEq

/-- `CPUOffloadingManager` over a policy with states `σ`. -/
structure CPUOffloadingManager (K σ : Type) where
  numBlocks : ℕ
  numAllocatedBlocks : ℕ
  freeList : List ℕ
  events : Option (List (OffloadingEvent K))
  policy : σ
  numEvictableCacheBlocks : ℤ
  numWritePendingBlocks : ℤ
  storeThreshold : ℕ
  maxTrackerSize : ℕ
  storesSkipped : ℕ
  allocationSizes : List ℕ
  counts : Option (Dict K ℕ)

namespace CPUOffloadingManager

variable {K σ : Type} [CachePolicy K σ]

def init (numBlocks : ℕ) (enableEvents : Bool) (storeThreshold maxTrackerSize : ℕ) :
    CPUOffloadingManager K σ where
  numBlocks := numBlocks
  numAllocatedBlocks := 0
  freeList := []
  events := if enableEvents then some [] else none
  policy := CachePolicy.init K numBlocks
  numEvictableCacheBlocks := 0
  numWritePendingBlocks := 0
  storeThreshold := storeThreshold
  maxTrackerSize := maxTrackerSize
  storesSkipped := 0
  allocationSizes := []
  counts := if 2 ≤ storeThreshold then some Dict.empty else none

/-- `_policy.get`. -/
def get (m : CPUOffloadingManager K σ) (k : K) : Option BlockStatus := CachePolicy.get m.policy k

section

omit [CachePolicy K σ]

/-- `_get_num_free_blocks`. -/
def getNumFreeBlocks (m : CPUOffloadingManager K σ) : ℤ :=
  (m.freeList.length : ℤ) + m.numBlocks - m.numAllocatedBlocks

/-- `_free_list.pop()`, `n` times. -/
def popFree : ℕ → List ℕ → Except Fault (List ℕ × List ℕ)
  | 0, free => .ok ([], free)
  | n + 1, free => do
      let b ← orRaise .indexError free.getLast?
      let (bs, free) ← popFree n free.dropLast
      pure (b :: bs, free)

/-- `_allocate_blocks`: slots that were never used first, then freed ones. -/
def allocateBlocks (m : CPUOffloadingManager K σ) (n : ℕ) :
    Except Fault (List ℕ × CPUOffloadingManager K σ) := do
  let numFresh := min n (m.numBlocks - m.numAllocatedBlocks)
  let numReused := n - numFresh
  assert (numReused ≤ m.freeList.length)
  let (reused, free) ← popFree numReused m.freeList
  pure (List.range' m.numAllocatedBlocks numFresh ++ reused, { m with
    numAllocatedBlocks := m.numAllocatedBlocks + numFresh
    freeList := free })

end

/-- The bookkeeping of lookups: the least recently seen key leaves a full tracker, which a
tracker of size 0 does not have. -/
def trackLookup [DecidableEq K] (maxTrackerSize : ℕ) (k : K) (counts : Dict K ℕ) :
    Except Fault (Dict K ℕ) :=
  match counts.get? k with
  | some n => .ok ((counts.moveToEnd k).set k (n + 1))
  | none =>
    if maxTrackerSize ≤ counts.keys.length then
      if counts.keys = [] then .error .keyError else .ok (counts.popFirst.set k 1)
    else .ok (counts.set k 1)

variable (m : CPUOffloadingManager K σ) (k : K)

/-- What a lookup returns. -/
def lookupResult : LookupResult :=
  match m.get k with
  | none => .miss
  | some b => if b.IsReady then .hit else .hitPending

/-- `lookup`. -/
def lookup [DecidableEq K] (m : CPUOffloadingManager K σ) (k : K) :
    Except Fault (LookupResult × CPUOffloadingManager K σ) :=
  match m.counts with
  | none => .ok (m.lookupResult k, m)
  | some counts => do
      let counts ← trackLookup m.maxTrackerSize k counts
      pure (m.lookupResult k, { m with counts := some counts })

/-- `prepare_load` of one key: a block gets one more reader. -/
def loadOne : Except Fault (ℕ × CPUOffloadingManager K σ) := do
  let b ← orRaise .assertionError (m.get k)
  assert b.IsReady
  let m ←
    if b.refCnt = 0 then do
      let policy ← markNonEvictable m.policy k
      assert (0 ≤ m.numEvictableCacheBlocks - 1)
      pure { m with policy := policy, numEvictableCacheBlocks := m.numEvictableCacheBlocks - 1 }
    else pure m
  pure (b.blockId, { m with policy := write m.policy k (b.setRefCnt (b.refCnt + 1)) })

/-- `prepare_load`. -/
def prepareLoad : List K → CPUOffloadingManager K σ →
    Except Fault (List ℕ × CPUOffloadingManager K σ)
  | [], m => .ok ([], m)
  | k :: ks, m => do
      let (id, m) ← m.loadOne k
      let (ids, m) ← prepareLoad ks m
      pure (id :: ids, m)

/-- `touch`. -/
def touch (m : CPUOffloadingManager K σ) (ks : List K) : CPUOffloadingManager K σ :=
  { m with policy := CachePolicy.touch m.policy ks }

/-- `complete_load` of one key. -/
def unloadOne : Except Fault (CPUOffloadingManager K σ) := do
  let b ← orRaise .assertionError (m.get k)
  assert (0 < b.refCnt)
  let b' := b.setRefCnt (b.refCnt - 1)
  let policy := write m.policy k b'
  if b'.refCnt = 0 then pure { m with
      policy := markEvictable policy k
      numEvictableCacheBlocks := m.numEvictableCacheBlocks + 1 }
  else pure { m with policy := policy }

/-- `complete_load`. -/
def completeLoad : List K → CPUOffloadingManager K σ → Except Fault (CPUOffloadingManager K σ)
  | [], m => .ok m
  | k :: ks, m => do
      let m ← m.unloadOne k
      completeLoad ks m

section PrepareStore

variable [DecidableEq K]

section

omit [CachePolicy K σ]

/-- Whether a key was looked up often enough to be stored. -/
def Counted (m : CPUOffloadingManager K σ) (k : K) : Prop :=
  ∀ counts ∈ m.counts, m.storeThreshold ≤ (counts.get? k).getD 0
  deriving Decidable

/-- The keys that pass the threshold; the others are counted as skipped. -/
def passThreshold (m : CPUOffloadingManager K σ) (ks : List K) :
    List K × CPUOffloadingManager K σ :=
  match m.counts with
  | none => (ks, m)
  | some _ =>
    let kept := ks.filter fun k => m.Counted k
    (kept, { m with storesSkipped := m.storesSkipped + (ks.length - kept.length) })

end

variable (ks : List K)

/-- The eviction of `prepare_store`; the keys of the call that pass the threshold are
protected. -/
def makeRoom (numToEvict : ℤ) : Except Fault (Option (List K × CPUOffloadingManager K σ)) :=
  if 0 < numToEvict then
    if m.numEvictableCacheBlocks < numToEvict then .ok none
    else do
      let r ← evict m.policy numToEvict.toNat ks
      match r with
      | none => pure none
      | some (evicted, policy) => do
          let numEvictable := m.numEvictableCacheBlocks - evicted.length
          assert (0 ≤ numEvictable)
          pure (some (evicted.map Prod.fst, { m with
            policy := policy
            numEvictableCacheBlocks := numEvictable
            freeList := m.freeList ++ evicted.map fun e => e.2.blockId }))
  else .ok (some ([], m))

/-- Announce keys whose residency has changed. -/
def emit (removed : Bool) : CPUOffloadingManager K σ :=
  if ks = [] then m else { m with events := m.events.map (· ++ [⟨ks, removed⟩]) }

def insertAll (kbs : List (K × ℕ)) : CPUOffloadingManager K σ :=
  { m with
    policy := kbs.foldl (fun p kb => insert p kb.1 (BlockStatus.new kb.2)) m.policy }

/-- The part of `prepare_store` that evicts, allocates and inserts. -/
def evictAndInsert (ks keysToStore : List K) :
    Except Fault (Option (PrepareStoreOutput K) × CPUOffloadingManager K σ) := do
  let r ← m.makeRoom ks (keysToStore.length - m.getNumFreeBlocks)
  match r with
  | none => pure (none, m)
  | some (evicted, m) => do
      let m := m.emit evicted true
      let (ids, m) ← m.allocateBlocks keysToStore.length
      assert (ids.length = keysToStore.length)
      let m := m.insertAll (keysToStore.zip ids)
      pure (some ⟨keysToStore, ids, evicted⟩, { m with
        numWritePendingBlocks := m.numWritePendingBlocks + keysToStore.length })

/-- `prepare_store` for the keys that pass the threshold: those that are resident already
are not stored again. -/
def storeNew : Except Fault (Option (PrepareStoreOutput K) × CPUOffloadingManager K σ) :=
  let keysToStore := ks.filter fun k => (m.get k).isNone
  if keysToStore = [] then .ok (some ⟨[], [], []⟩, m)
  else evictAndInsert { m with allocationSizes := m.allocationSizes ++ [keysToStore.length] }
    ks keysToStore

/-- `prepare_store`. -/
def prepareStore : Except Fault (Option (PrepareStoreOutput K) × CPUOffloadingManager K σ) :=
  (m.passThreshold ks).2.storeNew (m.passThreshold ks).1

end PrepareStore

/-- A block that is being written becomes ready. -/
def markStored (k : K) (b : BlockStatus) : CPUOffloadingManager K σ :=
  { m with
    policy := markEvictable (write m.policy k (b.setRefCnt 0)) k
    numWritePendingBlocks := m.numWritePendingBlocks - 1
    numEvictableCacheBlocks := m.numEvictableCacheBlocks + 1 }

/-- The loop of `complete_store` after a success; returns the keys that became ready. -/
def storeSucceeded : List K → CPUOffloadingManager K σ → List K × CPUOffloadingManager K σ
  | [], m => ([], m)
  | k :: ks, m =>
    match m.get k with
    | none => storeSucceeded ks m
    | some b =>
      if b.IsReady then storeSucceeded ks m
      else
        let r := storeSucceeded ks (m.markStored k b)
        (k :: r.1, r.2)

/-- A block that was being written is given up. -/
def dropStored (k : K) (b : BlockStatus) : Except Fault (CPUOffloadingManager K σ) := do
  let policy ← remove m.policy k
  pure { m with
    policy := policy
    numWritePendingBlocks := m.numWritePendingBlocks - 1
    freeList := m.freeList ++ [b.blockId] }

/-- The loop of `complete_store` after a failure. -/
def storeFailed : List K → CPUOffloadingManager K σ → Except Fault (CPUOffloadingManager K σ)
  | [], m => .ok m
  | k :: ks, m =>
    match m.get k with
    | none => storeFailed ks m
    | some b =>
      if b.IsReady then storeFailed ks m
      else do
        let m ← m.dropStored k b
        storeFailed ks m

/-- `complete_store`. -/
def completeStore (ks : List K) (success : Bool) : Except Fault (CPUOffloadingManager K σ) :=
  if success then
    let r := storeSucceeded ks m
    .ok (r.2.emit r.1 false)
  else storeFailed ks m

/-- `reset_cache`. -/
def resetCache : CPUOffloadingManager K σ :=
  { m with
    policy := clear K m.policy
    numEvictableCacheBlocks := 0
    numWritePendingBlocks := 0
    freeList := []
    numAllocatedBlocks := 0 }

end CPUOffloadingManager

/-! ## The interface -/

/-- The calls of the manager's interface. -/
inductive CPUOp (K : Type)
  | lookup (k : K)
  | touch (ks : List K)
  | prepareLoad (ks : List K)
  | completeLoad (ks : List K)
  | prepareStore (ks : List K)
  | completeStore (ks : List K) (success : Bool)
  | resetCache
  deriving DecidableEq

namespace CPUOffloadingManager

variable {K σ : Type} [CachePolicy K σ] [DecidableEq K]

/-- One call, with the keys it has begun to store. -/
def exec (m : CPUOffloadingManager K σ) :
    CPUOp K → Except Fault (List K × CPUOffloadingManager K σ)
  | .lookup k => do
      let (_, m) ← m.lookup k
      pure ([], m)
  | .touch ks => .ok ([], m.touch ks)
  | .prepareLoad ks => do
      let (_, m) ← prepareLoad ks m
      pure ([], m)
  | .completeLoad ks => do
      let m ← completeLoad ks m
      pure ([], m)
  | .prepareStore ks => do
      let (out, m) ← m.prepareStore ks
      pure ((out.map PrepareStoreOutput.keysToStore).getD [], m)
  | .completeStore ks success => do
      let m ← m.completeStore ks success
      pure ([], m)
  | .resetCache => .ok ([], m.resetCache)

end CPUOffloadingManager

end KVarN.Offload
