import KVarN.Core.KVCacheManager

/-!
# Prefix-cache lookup

`get_computed_blocks` asks the coordinator for the longest cached prefix of a
request. Each kind of attention has its own search over the request's block
hashes, and the hybrid coordinator reconciles the groups: every kind accepts the
candidate length or shortens it, until one pass over all of them changes nothing.

The searches work on several groups of one spec at a time. A *row* is what they
find at one block position: one cached block for each of these groups.

## Main definitions

* `Group.findLongestCacheHit` — the search of one kind of attention.
* `KVCacheManager.findLongestCacheHit` — the coordinator's reconciled hit.
* `KVCacheManager.getComputedBlocks`, `KVCacheManager.getComputedBlocksForConnector`.
-/

namespace KVarN.Core

open HashIndex

/-- The cached blocks at one block position, one for each group of a lookup. -/
abbrev Row := List BlockId

/-- What a search finds: a row for each block position, and the hit length in tokens. -/
structure CacheHit where
  rows : List Row
  hitLength : ℕ
  deriving DecidableEq

namespace CacheHit

def empty : CacheHit := ⟨[], 0⟩

/-- The blocks of the `j`-th group of the lookup. -/
def blocks (x : CacheHit) (j : ℕ) : List BlockId := x.rows.map fun row => row.getD j nullBlock

end CacheHit

/-- What a search is given: the groups it serves, the request's hashes with their
granularity, the block size it works at and the alignment of the hit length. -/
structure Probe (H : Type) where
  groupIds : List ℕ
  hashes : List H
  hashBlockSize : ℕ
  blockSize : ℕ
  alignmentTokens : ℕ

namespace Probe

variable {H : Type} [DecidableEq H] (q : Probe H) (p : BlockPool H)

def nullRow : Row := q.groupIds.map fun _ => nullBlock

variable (i maxLength : ℕ) (dropEagleBlock : Bool)

/-- The cached row at an entry of the request's list of hashes. -/
def rowAt : Option Row :=
  q.hashes[i]?.bind fun h => p.getCachedBlock h q.groupIds

/-- The cached row of the `i`-th block. -/
def blockRow : Option Row :=
  (hashAt q.hashes q.hashBlockSize q.blockSize i).bind fun h =>
    p.getCachedBlock h q.groupIds

/-- Whether the hit may end inside a block. -/
def fineGrained : Prop :=
  q.alignmentTokens < q.blockSize ∧ q.blockSize % q.alignmentTokens = 0
  deriving Decidable

/-- The longest run of cached blocks from position `i` on, at most `n` of them. -/
def run (q : Probe H) (p : BlockPool H) : ℕ → ℕ → List Row
  | _, 0 => []
  | i, n + 1 =>
    match q.blockRow p i with
    | none => []
    | some row => row :: run q p (i + 1) n

/-- The last cached entry among the `n` hash positions from `lo` on. -/
def probeTail (q : Probe H) (p : BlockPool H) (lo : ℕ) : ℕ → Option (ℕ × Row)
  | 0 => none
  | n + 1 =>
    match q.rowAt p (lo + n) with
    | some row => some (lo + n, row)
    | none => probeTail q p lo n

/-- The full blocks of a hit, extended into the first block that is not fully
cached when hits may end inside a block. -/
def fullAttentionRun : CacheHit :=
  let rows := q.run p 0 (maxLength / q.blockSize)
  if q.fineGrained then
    let scale := q.blockSize / q.alignmentTokens
    let first := rows.length * scale
    let last := min (min (first + scale - 1) (maxLength / q.alignmentTokens)) q.hashes.length
    match q.probeTail p first (last - first) with
    | none => ⟨rows, rows.length * q.blockSize⟩
    | some (i, row) => ⟨rows ++ [row], (i + 1) * q.alignmentTokens⟩
  else ⟨rows, rows.length * q.blockSize⟩

/-- Drop one unit for EAGLE, round down to the alignment and trim the blocks. -/
def trimHit (x : CacheHit) : CacheHit :=
  let n := if dropEagleBlock ∧ 0 < x.hitLength
    then x.hitLength - min q.alignmentTokens q.blockSize else x.hitLength
  let n := n - n % q.alignmentTokens
  ⟨x.rows.take (cdiv n q.blockSize), n⟩

/-- `FullAttentionManager.find_longest_cache_hit`. -/
def fullAttentionHit : CacheHit :=
  q.trimHit dropEagleBlock (q.fullAttentionRun p maxLength)

/-- Popping blocks until the length is aligned. -/
def alignedLength (q : Probe H) : ℕ → ℕ
  | 0 => 0
  | n + 1 =>
    if (n + 1) * q.blockSize % q.alignmentTokens = 0 then n + 1 else alignedLength q n

/-- The search of a sliding window from right to left over the first `n` positions;
`cur` is the current contiguous run. Returns the run that is long enough with its
position, or the run at the left end. -/
def slidingWindowSearch (q : Probe H) (p : BlockPool H) (need : ℕ) (dropEagleBlock : Bool) :
    ℕ → List Row → Except Fault (Option ℕ × List Row)
  | 0, cur => .ok (none, cur)
  | i + 1, cur => do
      let h ← orRaise .indexError (hashAt q.hashes q.hashBlockSize q.blockSize i)
      match p.getCachedBlock h q.groupIds with
      | none => slidingWindowSearch q p need dropEagleBlock i []
      | some row =>
        -- a run may only end where the hit length is aligned
        if cur = [] ∧ q.blockSize ≠ q.alignmentTokens ∧
            (if dropEagleBlock then i else i + 1) * q.blockSize % q.alignmentTokens ≠ 0 then
          slidingWindowSearch q p need dropEagleBlock i []
        else if need ≤ cur.length + 1 then .ok (some i, row :: cur)
        else slidingWindowSearch q p need dropEagleBlock i (row :: cur)

/-- `SlidingWindowManager.find_longest_cache_hit`. -/
def slidingWindowHit (window maxLength : ℕ) (dropEagleBlock : Bool) : Except Fault CacheHit := do
  assert (q.alignmentTokens % q.blockSize = 0)
  let need := Group.contiguousBlocksForHit window q.blockSize dropEagleBlock
  let (found, cur) ← q.slidingWindowSearch p need dropEagleBlock (maxLength / q.blockSize) []
  let rows := match found with
    | some i => List.replicate i q.nullRow ++ cur
    | none => cur.take (q.alignedLength cur.length)
  let n := if dropEagleBlock then q.alignedLength (rows.length - 1) else rows.length
  pure ⟨rows.take n, (rows.take n).length * q.blockSize⟩

/-- The run of cached blocks from position `i` on; a request without a hash at a
position it is asked for raises. -/
def strictRun (q : Probe H) (p : BlockPool H) : ℕ → ℕ → Except Fault (List Row)
  | _, 0 => .ok []
  | i, n + 1 => do
      let h ← orRaise .indexError (hashAt q.hashes q.hashBlockSize q.blockSize i)
      match p.getCachedBlock h q.groupIds with
      | none => pure []
      | some row => do
          let rows ← strictRun q p (i + 1) n
          pure (row :: rows)

/-- `ChunkedLocalAttentionManager.find_longest_cache_hit`: blocks before the current
chunk count as computed. -/
def chunkedLocalHit (chunk maxLength : ℕ) (dropEagleBlock : Bool) : Except Fault CacheHit := do
  assert (dropEagleBlock = false)
  assert (q.blockSize = q.alignmentTokens)
  let start := maxLength / chunk * chunk / q.blockSize
  let rows ← q.strictRun p start (maxLength / q.blockSize - start)
  let rows := List.replicate start q.nullRow ++ rows
  pure ⟨rows, rows.length * q.blockSize⟩

/-- The search for the last cached Mamba state among the first `n` blocks. -/
def mambaSearch (q : Probe H) (p : BlockPool H) : ℕ → Except Fault CacheHit
  | 0 => .ok .empty
  | i + 1 => do
      let h ← orRaise .indexError (hashAt q.hashes q.hashBlockSize q.blockSize i)
      match p.getCachedBlock h q.groupIds with
      | none => mambaSearch q p i
      | some row =>
        if q.blockSize ≠ q.alignmentTokens ∧ (i + 1) * q.blockSize % q.alignmentTokens ≠ 0 then
          mambaSearch q p i
        else .ok ⟨List.replicate i q.nullRow ++ [row], (i + 1) * q.blockSize⟩

/-- `MambaManager.find_longest_cache_hit`: only the last state is needed. -/
def mambaHit : Except Fault CacheHit :=
  if q.fineGrained then
    .ok (match q.probeTail p 0 (min (maxLength / q.alignmentTokens) q.hashes.length) with
      | none => .empty
      | some (i, row) =>
        ⟨List.replicate (i / (q.blockSize / q.alignmentTokens)) q.nullRow ++ [row],
          (i + 1) * q.alignmentTokens⟩)
  else q.mambaSearch p (maxLength / q.blockSize)

end Probe

namespace Group

variable {H : Type} [DecidableEq H]

/-- Whether a group's spec is a `FullAttentionSpec`. -/
def isFullAttention (g : Group) : Bool :=
  match g.spec with
  | .fullAttention | .rswa _ => true
  | _ => false

/-- Whether a group's spec is a `MambaSpec`. -/
def isMamba (g : Group) : Bool :=
  match g.spec with
  | .mamba _ _ => true
  | _ => false

/-- `find_longest_cache_hit` of the group's manager class. -/
def findLongestCacheHit (g : Group) (p : BlockPool H) (q : Probe H) (maxLength : ℕ)
    (dropEagleBlock : Bool) (dcpWorldSize : ℕ) : Except Fault CacheHit :=
  match g.spec with
  | .fullAttention | .rswa _ => .ok (q.fullAttentionHit p maxLength dropEagleBlock)
  | .slidingWindow window _ => do
      assert (dcpWorldSize = 1)
      q.slidingWindowHit p window maxLength dropEagleBlock
  | .chunkedLocalAttention chunk => do
      assert (dcpWorldSize = 1)
      q.chunkedLocalHit p chunk maxLength dropEagleBlock
  | .mamba _ _ => do
      assert (dcpWorldSize = 1)
      q.mambaHit p maxLength
  | .crossAttention => .error .runtimeError

end Group

/-- Groups that share one spec and are looked up together. -/
structure SpecGroup where
  rep : Group
  groupIds : List ℕ
  useEagle : Bool
  deriving DecidableEq

namespace KVCacheManager

variable {H : Type}

/-- Add a group to the spec group it belongs to. -/
def joinSpecGroup (g : Group) (i : ℕ) : List SpecGroup → List SpecGroup
  | [] => [⟨g, [i], g.useEagle⟩]
  | a :: as =>
    if a.rep.spec = g.spec ∧ a.rep.specId = g.specId ∧ a.rep.blockSize = g.blockSize then
      { a with groupIds := a.groupIds ++ [i], useEagle := a.useEagle || g.useEagle } :: as
    else a :: joinSpecGroup g i as

variable (cfg : KVCacheConfig) (s : KVCacheManager H)

/-- `verify_and_split_kv_cache_groups`: groups of one spec, full attention first. -/
def attentionGroups : List SpecGroup :=
  let groups := s.managers.zipIdx.foldl (fun as x => joinSpecGroup x.1.1 x.2 as) []
  groups.filter (fun a => a.rep.isFullAttention) ++ groups.filter fun a => !a.rep.isFullAttention

/-- Whether the first spec group is full attention. -/
def fullAttentionFirst (as : List SpecGroup) : Bool :=
  match as with
  | [] => false
  | a :: _ => a.rep.isFullAttention

/-- `_cache_hit_alignment_tokens`. -/
def cacheHitAlignmentTokens : ℕ :=
  if enablePartialHashHits cfg s then cfg.hashBlockSize else cfg.schedulerBlockSize

/-- The lookup of one spec group. -/
def probe (hashes : List H) (a : SpecGroup) (blockSize : ℕ) : Probe H where
  groupIds := a.groupIds
  hashes := hashes
  hashBlockSize := cfg.hashBlockSize
  blockSize := blockSize
  alignmentTokens := cacheHitAlignmentTokens cfg s

/-- The extra unit an EAGLE group matches beyond the candidate, and then drops. -/
def eagleMargin (g : Group) : ℕ :=
  if enablePartialHashHits cfg s ∧ g.supportsFineGrainedHashLookup ∧
      cfg.hashBlockSize < g.blockSize then cfg.hashBlockSize
  else g.blockSize

/-- The state of the reconciliation: the current length, the longest one of any
group, each spec group's hit and the spec groups whose EAGLE drop is verified. -/
structure Reconciling where
  currHitLength : ℕ
  longestHitLength : ℕ
  hits : ℕ → Option CacheHit
  eagleVerified : List ℕ

variable [DecidableEq H]

/-- One spec group's turn: `idx` is its position among the spec groups. -/
def reconcileGroup (hashes : List H) (maxCacheHitLength : ℕ) (idx : ℕ) (a : SpecGroup)
    (st : Reconciling) : Except Fault Reconciling :=
  match (if a.rep.isFullAttention then st.hits idx else none) with
  | some hit => .ok { st with currHitLength := min st.currHitLength hit.hitLength }
  | none => do
      let drop := a.useEagle && !decide (idx ∈ st.eagleVerified)
      let maxLength :=
        if drop ∧ ¬ a.rep.isMamba then
          min (st.currHitLength + eagleMargin cfg s a.rep) maxCacheHitLength
        else st.currHitLength
      let hit ← a.rep.findLongestCacheHit s.pool (probe cfg s hashes a a.rep.blockSize) maxLength
        drop (if a.rep.isFullAttention then cfg.dcpWorldSize else 1)
      pure
        { currHitLength := hit.hitLength
          longestHitLength := max st.longestHitLength hit.hitLength
          hits := Function.update st.hits idx (some hit)
          eagleVerified :=
            if drop then idx :: st.eagleVerified
            else if hit.hitLength < st.currHitLength then [] else st.eagleVerified }

/-- One pass over the spec groups, from position `idx` on. -/
def reconcilePass (cfg : KVCacheConfig) (s : KVCacheManager H) (hashes : List H)
    (maxCacheHitLength : ℕ) : ℕ → List SpecGroup → Reconciling → Except Fault Reconciling
  | _, [], st => .ok st
  | idx, a :: as, st => do
      let st ← reconcileGroup cfg s hashes maxCacheHitLength idx a st
      reconcilePass cfg s hashes maxCacheHitLength (idx + 1) as st

/-- Passes until the length no longer shrinks; one pass for one full-attention spec
and one other. The length shrinks in every repetition, so the passes are counted by
the length they start with. -/
def reconcile (cfg : KVCacheConfig) (s : KVCacheManager H) (hashes : List H)
    (maxCacheHitLength : ℕ) (as : List SpecGroup) (simple : Bool) :
    ℕ → ℕ → Reconciling → Except Fault (ℕ × Reconciling)
  | 0, hitLength, st => .ok (hitLength, st)
  | n + 1, hitLength, st => do
      let st ← reconcilePass cfg s hashes maxCacheHitLength 0 as { st with
        currHitLength := hitLength }
      if hitLength ≤ st.currHitLength then pure (hitLength, st)
      else if simple then pure (st.currHitLength, st)
      else reconcile cfg s hashes maxCacheHitLength as simple n st.currHitLength st

/-- The hit blocks of a group: those of its spec group, trimmed to the final length
for the first spec group if that is full attention. -/
def groupHitBlocks (as : List SpecGroup) (hits : ℕ → Option CacheHit) (hitLength i : ℕ) :
    List BlockId :=
  match as.zipIdx.find? fun x => x.1.groupIds.contains i with
  | none => []
  | some (a, idx) =>
    match hits idx with
    | none => []
    | some hit =>
      let blocks := hit.blocks (a.groupIds.idxOf i)
      if idx = 0 ∧ a.rep.isFullAttention then blocks.take (cdiv hitLength a.rep.blockSize)
      else blocks

/-- `HybridKVCacheCoordinator.find_longest_cache_hit`. -/
def findLongestCacheHitHybrid (hashes : List H) (maxCacheHitLength : ℕ) :
    Except Fault (List (List BlockId) × ℕ × ℕ) := do
  let as := s.attentionGroups
  let simple := decide (as.length = 2) && fullAttentionFirst as
  let (hitLength, st) ← reconcile cfg s hashes maxCacheHitLength as simple
    (maxCacheHitLength + 1) maxCacheHitLength ⟨maxCacheHitLength, 0, fun _ => none, []⟩
  pure ((List.range s.managers.length).map (groupHitBlocks as st.hits hitLength), hitLength,
    st.longestHitLength - hitLength)

/-- `find_longest_cache_hit` of the coordinator: the blocks of each group, the hit
length and the number of shared tokens a sparse group has not cached. -/
def findLongestCacheHit (cfg : KVCacheConfig) (s : KVCacheManager H) (hashes : List H)
    (maxCacheHitLength : ℕ) : Except Fault (List (List BlockId) × ℕ × ℕ) :=
  if cfg.enableCaching = false then .ok (s.managers.map fun _ => [], 0, 0)
  else
    match s.managers with
    | [(g, _)] => do
        let hit ← g.findLongestCacheHit s.pool
          ⟨[0], hashes, cfg.hashBlockSize, g.blockSize, g.blockSize⟩ maxCacheHitLength g.useEagle
          cfg.dcpWorldSize
        pure ([hit.blocks 0], hit.hitLength, 0)
    | _ => s.findLongestCacheHitHybrid cfg hashes maxCacheHitLength

variable (req : KVRequest H)

/-- `prefix_cache_lookup_enabled`. -/
def prefixCacheLookupEnabled : Bool :=
  cfg.enableCaching && !req.skipReadingPrefixCache

/-- `get_computed_blocks`: the hit blocks of each group, the number of computed
tokens and the shared-prefix boundary. The last token is always recomputed. -/
def getComputedBlocks : Except Fault (List (List BlockId) × ℕ × ℕ) :=
  if prefixCacheLookupEnabled cfg req = false then .ok ([], 0, 0)
  else do
    let (blocks, n, uncached) ← s.findLongestCacheHit cfg req.blockHashes (req.numTokens - 1)
    pure (blocks, n, if uncached = 0 then 0 else n + uncached)

/-- Each spec group's hit on its own (`find_longest_cache_hit_per_group`), which does
not account for context parallelism. -/
def findPerGroup (cfg : KVCacheConfig) (s : KVCacheManager H) (hashes : List H)
    (maxCacheHitLength : ℕ) : List SpecGroup → Except Fault (List CacheHit)
  | [] => .ok []
  | a :: as => do
      let blockSize := if a.rep.isMamba then a.rep.blockSize else a.rep.blockSize / cfg.dcpWorldSize
      let hit ← a.rep.findLongestCacheHit s.pool (probe cfg s hashes a blockSize)
        maxCacheHitLength a.useEagle 1
      let hits ← findPerGroup cfg s hashes maxCacheHitLength as
      pure (hit :: hits)

/-- The full-attention reference group of per-group lookups. -/
def hasFullAttentionReference : Bool :=
  s.managers.any (fun gm => gm.1.isMamba) && isHybrid cfg s &&
    fullAttentionFirst s.attentionGroups

/-- `get_computed_blocks_for_connector`: the full-attention hit, with whether another
group's hit ends before it. -/
def getComputedBlocksForConnector : Except Fault (List (List BlockId) × ℕ × ℕ × Bool) :=
  if hasFullAttentionReference cfg s = false then do
    let (blocks, n, boundary) ← s.getComputedBlocks cfg req
    pure (blocks, n, boundary, false)
  else if prefixCacheLookupEnabled cfg req = false then .ok ([], 0, 0, false)
  else do
    let hits ← findPerGroup cfg s req.blockHashes (req.numTokens - 1) s.attentionGroups
    let numLocal := (hits.headD .empty).hitLength
    -- a group that hit deeper than full attention lost its full-attention blocks
    if ∃ hit ∈ hits, numLocal < hit.hitLength then do
      let (blocks, n, boundary) ← s.getComputedBlocks cfg req
      pure (blocks, n, boundary, false)
    else
      pure ((List.range s.managers.length).map
          (groupHitBlocks s.attentionGroups (fun i => hits[i]?) numLocal),
        numLocal, 0, decide (∃ hit ∈ hits, hit.hitLength < numLocal))

/-- `truncate_computed_blocks`, for a block-aligned number of tokens. -/
def truncateComputedBlocks (numComputedTokens : ℕ) :
    List (Managed H) → List (List BlockId) → Except Fault (List (List BlockId))
  | (g, _) :: ms, bs :: bss => do
      assert (numComputedTokens % g.blockSize = 0)
      assert (g.isMamba = true ∨ numComputedTokens / g.blockSize ≤ bs.length)
      let rest ← truncateComputedBlocks numComputedTokens ms bss
      pure (bs.take (numComputedTokens / g.blockSize) :: rest)
  | _, _ => .ok []

end KVCacheManager

end KVarN.Core
