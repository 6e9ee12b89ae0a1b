import KVarN.Lib.HashChain
import KVarN.Sched.Scheduler

/-!
# Block hashes

A request keeps one hash for each full block of its tokens. The hash of a block covers the
hash before it, the tokens of the block and a tuple of extra keys: the LoRA name, the
multimodal items in the block with their offset from its start, for the first block the
cache salt, and the digest of the block's prompt embeddings.

The hashes are extended whenever tokens are added. The hasher then resumes behind the last
hash, and it looks at the last multimodal item only.

## Main definitions

* `requestBlockHasher` — the hasher; `Growth`, `grow` — the ways a request gets tokens.
* `Scannable` — every item in a block is found by the scan over the items.
* `blockEntry` — what the hash of a block should cover.
* `Safe` — what one growth must satisfy.

## Main results

* `genMmExtraHashKeys_eq` — the scan finds the items in a block.
* `take_hashLoop` — the hasher computes the chain of the block entries.
* `blockHashes_eq_fresh` — growing a request gives the hashes of a fresh one.
-/

namespace KVarN.Sched

open KVarN.Lib KVarN.Core HashChain Request List Nat

/-! ## The hasher -/

/-- An entry of the tuple of extra keys. A LoRA name and a cache salt are both strings. -/
inductive ExtraKey (D : Type)
  | name (s : String)
  | item (identifier : MmHash) (offset : ℤ)
  | embeds (digest : D)
  deriving DecidableEq, Repr

/-- The fields of a request that its keys read and that never change. -/
structure KeyContext (E : Type) where
  /-- `lora_request.lora_name`. -/
  loraName : Option String
  cacheSalt : Option String
  promptEmbeds : Option (List E)
  deriving DecidableEq, Repr

/-- The parameters of `get_request_block_hasher`, and the digest of a slice of prompt
embeddings. A digest is not empty, so that `not parent_block_hash` asks for `None`. -/
structure HashConfig (H D E : Type) where
  hashBlockSize : ℕ
  hashBlockSize_pos : 0 < hashBlockSize
  cachingHashFn : H × List Token × Option (List (ExtraKey D)) → H
  noneHash : H
  embedsDigest : List E → D

variable {H D E : Type}

/-- The loop of `_gen_mm_extra_hash_keys` over the items from the current one on. Returns
the keys and how many items the block has passed. -/
def scanItems (startTokenIdx endTokenIdx : ℕ) : List MmFeature → List (ExtraKey D) × ℕ
  | [] => ([], 0)
  | f :: fs =>
    if f.offset < endTokenIdx then
      if f.offset + f.length ≤ startTokenIdx then
        let (keys, n) := scanItems startTokenIdx endTokenIdx fs
        (keys, n + 1)
      else if f.offset + f.length ≤ endTokenIdx then
        let (keys, n) := scanItems startTokenIdx endTokenIdx fs
        (.item f.identifier (f.offset - startTokenIdx) :: keys, n + 1)
      else ([.item f.identifier (f.offset - startTokenIdx)], 0)
    else ([], 0)

variable (cfg : HashConfig H D E) (ctx : KeyContext E) (features : List MmFeature)

/-- The item an index stands for; negative ones count from the end. -/
def resolveMmIdx (i : ℤ) : ℕ :=
  if i < 0 then (features.length + i).toNat else i.toNat

@[simp] theorem resolveMmIdx_natCast (i : ℕ) : resolveMmIdx features i = i := by
  simp [resolveMmIdx]

@[simp] theorem resolveMmIdx_neg_one : resolveMmIdx features (-1) = features.length - 1 := by
  rw [resolveMmIdx, if_pos (by decide)]
  omega

variable (startTokenIdx endTokenIdx : ℕ) (startMmIdx : ℤ)

/-- `_gen_mm_extra_hash_keys`. -/
def genMmExtraHashKeys : List (ExtraKey D) × ℤ :=
  match features.getLast? with
  | none => ([], startMmIdx)
  | some last =>
    if last.offset + last.length ≤ startTokenIdx then ([], startMmIdx)
    else
      let i := resolveMmIdx features startMmIdx
      let (keys, n) := scanItems startTokenIdx endTokenIdx (features.drop i)
      (keys, i + n)

/-- `_gen_lora_extra_hash_keys`. -/
def genLoraExtraHashKeys : List (ExtraKey D) :=
  (ctx.loraName.map .name).toList

/-- The cache salt, unless it is empty. -/
def KeyContext.salt : Option String := ctx.cacheSalt.filter (· ≠ "")

/-- The keys for the cache salt: those of the first block. -/
def cacheSaltKeys : List (ExtraKey D) :=
  if startTokenIdx = 0 then (ctx.salt.map .name).toList else []

/-- `_gen_prompt_embeds_extra_hash_keys`. -/
def genPromptEmbedsExtraHashKeys : List (ExtraKey D) :=
  (ctx.promptEmbeds.map fun e =>
    .embeds (cfg.embedsDigest ((e.take endTokenIdx).drop startTokenIdx))).toList

/-- The tuple of extra keys; `None` when there are none. -/
def keyTuple (keys : List (ExtraKey D)) : Option (List (ExtraKey D)) :=
  if keys.isEmpty then none else some keys

/-- `generate_block_hash_extra_keys`. -/
def generateBlockHashExtraKeys : Option (List (ExtraKey D)) × ℤ :=
  let (mmExtraKeys, newStartMmIdx) :=
    genMmExtraHashKeys features startTokenIdx endTokenIdx startMmIdx
  (keyTuple (genLoraExtraHashKeys ctx ++ mmExtraKeys ++ cacheSaltKeys ctx startTokenIdx ++
    genPromptEmbedsExtraHashKeys cfg ctx startTokenIdx endTokenIdx), newStartMmIdx)

/-- `hash_block_tokens`. -/
def hashBlockTokens (parentBlockHash : Option H) (currBlockTokenIds : List Token)
    (extraKeys : Option (List (ExtraKey D))) : H :=
  cfg.cachingHashFn (parentBlockHash.getD cfg.noneHash, currBlockTokenIds, extraKeys)

/-- The loop of `request_block_hasher`. Every round takes a block of tokens, so the number
of tokens is enough fuel. -/
def hashLoop (cfg : HashConfig H D E) (ctx : KeyContext E) (tokens : List Token)
    (features : List MmFeature) : ℕ → ℕ → ℤ → Option H → List H
  | 0, _, _, _ => []
  | fuel + 1, startTokenIdx, currMmIdx, prevBlockHash =>
    let endTokenIdx := startTokenIdx + cfg.hashBlockSize
    if tokens.length < endTokenIdx then []
    else
      let (extraKeys, currMmIdx) :=
        generateBlockHashExtraKeys cfg ctx features startTokenIdx endTokenIdx currMmIdx
      let blockHash := hashBlockTokens cfg prevBlockHash
        ((tokens.take endTokenIdx).drop startTokenIdx) extraKeys
      blockHash :: hashLoop cfg ctx tokens features fuel endTokenIdx currMmIdx (some blockHash)

/-- `request_block_hasher`: the hashes of the new full blocks. -/
def requestBlockHasher (r : Request H) : List H :=
  let startTokenIdx := r.blockHashes.length * cfg.hashBlockSize
  if r.numTokens < startTokenIdx + cfg.hashBlockSize then []
  else
    hashLoop cfg ctx r.allTokenIds r.mmFeatures r.numTokens startTokenIdx
      (if 0 < startTokenIdx then -1 else 0) r.blockHashes.getLast?

/-! ## Growing a request -/

/-- `append_output_token_ids`. -/
def Request.appendOutputTokenIds (hasher : Request H → List H) (r : Request H)
    (ts : List Token) : Request H :=
  updateBlockHashes hasher { r with
    outputTokenIds := r.outputTokenIds ++ ts
    allTokenIds := r.allTokenIds ++ ts }

/-- The ways a request gets tokens: output tokens, or the next input of a session. The
scheduler sets `num_computed_tokens` in between; an input cuts the tokens back to it. -/
inductive Growth
  | append (ts : List Token)
  | session (numComputedTokens : ℤ) (u : StreamingUpdate)
  deriving DecidableEq, Repr

namespace Growth

/-- The tokens after the growth. -/
def tokens (r : Request H) : Growth → List Token
  | append ts => r.allTokenIds ++ ts
  | session n u => r.allTokenIds.take (Scheduler.sliceStop r.allTokenIds.length n) ++
      u.promptTokenIds

/-- The items the growth adds. -/
def items (r : Request H) : Growth → List MmFeature
  | append _ => []
  | session n u => u.mmFeatures.map fun f => { f with
      offset := f.offset +
        (r.allTokenIds.take (Scheduler.sliceStop r.allTokenIds.length n)).length }

end Growth

def grow (cfg : HashConfig H D E) (ctx : KeyContext E) (r : Request H) :
    Growth → Except Fault (Request H)
  | .append ts => .ok (r.appendOutputTokenIds (requestBlockHasher cfg ctx) ts)
  | .session n u => do
      let prompt ← orRaise .assertionError r.promptTokenIds
      pure (Scheduler.sessionRequest (requestBlockHasher cfg ctx)
        { r with numComputedTokens := n } prompt u)

/-- A request that is made and then grows. -/
def growAll (cfg : HashConfig H D E) (ctx : KeyContext E) (q : RequestParams)
    (gs : List Growth) : Except Fault (Request H) := do
  let r ← create (requestBlockHasher cfg ctx) q
  gs.foldlM (grow cfg ctx) r

/-! ## The items of a block -/

namespace MmFeature

/-- Whether the placeholders of an item meet a block. -/
def InBlock (f : MmFeature) (size k : ℕ) : Prop :=
  f.offset < (k + 1) * size ∧ k * size < f.offset + f.length
  deriving Decidable

end MmFeature

/-- The items in a block, with their offsets from its start. -/
def itemsIn (features : List MmFeature) (size k : ℕ) : List (MmHash × ℤ) :=
  (features.filter (·.InBlock size k)).map fun f => (f.identifier, f.offset - (k * size : ℕ))

def itemKey (p : MmHash × ℤ) : ExtraKey D := .item p.1 p.2

/-- The scan over the items finds all that are in the block: none stands behind an item that
starts behind the block or reaches over its end, and the last one does not end before the
block if there are any. -/
structure Scannable (features : List MmFeature) (size k : ℕ) : Prop where
  pairwise : features.Pairwise fun f g => g.InBlock size k →
    f.offset < (k + 1) * size ∧ f.offset + f.length ≤ (k + 1) * size
  last : ∀ f ∈ features, f.InBlock size k → ∀ g ∈ features.getLast?, k * size < g.offset + g.length

/-- Items sorted by position that do not overlap. -/
def SortedDisjoint (features : List MmFeature) : Prop :=
  features.Pairwise fun f g => f.offset + f.length ≤ g.offset
  deriving Decidable

/-- **Sorted items that do not overlap are found in every block.** -/
theorem SortedDisjoint.scannable {features : List MmFeature} (h : SortedDisjoint features)
    (size k : ℕ) : Scannable features size k where
  pairwise := List.Pairwise.imp (fun hfg hg => by unfold MmFeature.InBlock at hg; omega) h
  last := by
    intro f hf hin g hg
    obtain ⟨init, rfl⟩ := getLast?_eq_some_iff.1 hg
    unfold MmFeature.InBlock at hin
    rcases mem_append.1 hf with hinit | hlast
    · have hfg := (pairwise_append.1 h).2.2 f hinit g (by simp)
      omega
    · obtain rfl := mem_singleton.1 hlast
      exact hin.2

section Scan

variable {features} {size k : ℕ}

theorem itemsIn_append (fs gs : List MmFeature) :
    itemsIn (fs ++ gs) size k = itemsIn fs size k ++ itemsIn gs size k := by
  simp [itemsIn]

variable {fs : List MmFeature}

theorem itemsIn_eq_nil (h : ∀ f ∈ fs, ¬ f.InBlock size k) : itemsIn fs size k = [] := by
  simpa [itemsIn] using h

theorem itemsIn_cons_of_inBlock {f : MmFeature} (h : f.InBlock size k) : itemsIn (f :: fs) size k =
      (f.identifier, (f.offset : ℤ) - (k * size : ℕ)) :: itemsIn fs size k := by
  simp [itemsIn, h]

theorem itemsIn_cons_of_not_inBlock {f : MmFeature}
    (h : ¬ f.InBlock size k) : itemsIn (f :: fs) size k = itemsIn fs size k := by
  simp [itemsIn, h]

/-- The scan stops at an item no later than the first one of another block. -/
theorem scanItems_fst (h : fs.Pairwise fun f g => g.InBlock size k →
      f.offset < (k + 1) * size ∧ f.offset + f.length ≤ (k + 1) * size) :
    (scanItems (D := D) (k * size) ((k + 1) * size) fs).1 = (itemsIn fs size k).map itemKey := by
  induction fs with
  | nil => rfl
  | cons f fs ih =>
    obtain ⟨hf, hfs⟩ := pairwise_cons.1 h
    rw [scanItems]
    split
    next hstart =>
      split
      next hend =>
        have hout : ¬ f.InBlock size k := fun hin => absurd hin.2 (by omega)
        rw [itemsIn_cons_of_not_inBlock hout, ← ih hfs]
      next hend =>
        have hin : f.InBlock size k := ⟨hstart, by omega⟩
        rw [itemsIn_cons_of_inBlock hin]
        split
        next => rw [map_cons, ← ih hfs, itemKey]
        next hover =>
          -- the item reaches over the end, so no later one is in the block
          rw [itemsIn_eq_nil fun g hg hgin => hover (hf g hg hgin).2]
          rfl
    next hstart =>
      have hout : ¬ f.InBlock size k := fun hin => hstart hin.1
      rw [itemsIn_cons_of_not_inBlock hout, itemsIn_eq_nil fun g hg hgin => hstart (hf g hg hgin).1]
      rfl

/-- The items the scan has passed end within the block. -/
theorem end_le_of_mem_take_scanItems {start stop : ℕ} (hle : start ≤ stop) :
    ∀ f ∈ fs.take (scanItems (D := D) start stop fs).2, f.offset + f.length ≤ stop := by
  induction fs with
  | nil => simp
  | cons f fs ih =>
    rw [scanItems]
    split
    · split
      next hend =>
        intro g hg
        rcases mem_cons.1 hg with rfl | hg
        · omega
        · exact ih g hg
      next =>
        split
        next hend =>
          intro g hg
          rcases mem_cons.1 hg with rfl | hg
          · exact hend
          · exact ih g hg
        next => simp
    · simp

/-- The items before an index are in none of the blocks from `k` to `n`. -/
def Passed (features : List MmFeature) (size k n : ℕ) (i : ℤ) : Prop :=
  ∀ f ∈ features.take (resolveMmIdx features i), ∀ j, k ≤ j → j < n → ¬ f.InBlock size j

/-- **The scan finds the items in the block**, and the index it returns is good for the next
block. -/
theorem genMmExtraHashKeys_eq {n : ℕ} {i : ℤ} (hscan : Scannable features size k)
    (hpassed : Passed features size k n i) (hk : k < n) :
    (genMmExtraHashKeys (D := D) features (k * size) ((k + 1) * size) i).1 =
        (itemsIn features size k).map itemKey ∧
      Passed features size (k + 1) n
        (genMmExtraHashKeys (D := D) features (k * size) ((k + 1) * size) i).2 := by
  rw [genMmExtraHashKeys]
  split
  next hlast =>
    obtain rfl := getLast?_eq_none_iff.1 hlast
    exact ⟨rfl, fun f hf => by simp at hf⟩
  next last hlast =>
    split
    next hend =>
      refine ⟨?_, fun f hf j hj => hpassed f hf j (by omega)⟩
      rw [itemsIn_eq_nil fun f hf hin => absurd (hscan.last f hf hin last hlast) (by omega)]
      rfl
    next =>
      have hout := itemsIn_eq_nil fun f hf => hpassed f hf k le_rfl hk
      have hsplit := take_append_drop (resolveMmIdx features i) features
      refine ⟨?_, ?_⟩
      · show (scanItems (k * size) ((k + 1) * size)
          (features.drop (resolveMmIdx features i))).1 = _
        rw [scanItems_fst (hscan.pairwise.sublist (drop_sublist _ _))]
        conv_rhs => rw [← hsplit, itemsIn_append, hout, nil_append]
      · intro f hf j hj hjn
        change f ∈ features.take (resolveMmIdx features ((resolveMmIdx features i : ℤ) +
          ((scanItems (D := D) (k * size) ((k + 1) * size)
            (features.drop (resolveMmIdx features i))).2 : ℕ))) at hf
        rw [← cast_add, resolveMmIdx_natCast, take_add] at hf
        rcases mem_append.1 hf with hold | hnew
        · exact hpassed f hold j (by omega) hjn
        · have hle : k * size ≤ (k + 1) * size := mul_le_mul_right _ k.le_succ
          have hend := end_le_of_mem_take_scanItems hle f hnew
          have hmono : (k + 1) * size ≤ j * size := mul_le_mul_right _ hj
          exact fun hin => absurd hin.2 (by omega)

end Scan

/-! ## The chain of block entries -/

section Chain

variable (tokens : List Token)

/-- What the hash of a block covers besides the hash before it. -/
def blockEntry (features : List MmFeature) (k : ℕ) : List Token × Option (List (ExtraKey D)) :=
  ((tokens.take ((k + 1) * cfg.hashBlockSize)).drop (k * cfg.hashBlockSize),
    keyTuple (genLoraExtraHashKeys ctx ++ (itemsIn features cfg.hashBlockSize k).map itemKey ++
      cacheSaltKeys ctx (k * cfg.hashBlockSize) ++
      genPromptEmbedsExtraHashKeys cfg ctx (k * cfg.hashBlockSize)
        ((k + 1) * cfg.hashBlockSize)))

/-- The hash of the first `n` blocks. -/
def prefixHash (features : List MmFeature) : ℕ → H :=
  chain (fun parent entry => cfg.cachingHashFn (parent, entry)) cfg.noneHash
    (blockEntry cfg ctx tokens features)

/-- The hashes of all full blocks. -/
def allHashes (features : List MmFeature) : List H :=
  (range (tokens.length / cfg.hashBlockSize)).map fun k =>
    prefixHash cfg ctx tokens features (k + 1)

variable {cfg ctx} {tokens} {features}

/-- The extra keys are those of the block entry, and the index is good for the next block. -/
theorem generateBlockHashExtraKeys_eq (ctx : KeyContext E) (tokens : List Token) {k n : ℕ} {i : ℤ}
    (hscan : Scannable features cfg.hashBlockSize k)
    (hpassed : Passed features cfg.hashBlockSize k n i) (hk : k < n) :
    ∃ i', generateBlockHashExtraKeys cfg ctx features (k * cfg.hashBlockSize)
        ((k + 1) * cfg.hashBlockSize) i = ((blockEntry cfg ctx tokens features k).2, i') ∧
      Passed features cfg.hashBlockSize (k + 1) n i' := by
  obtain ⟨hkeys, hnext⟩ := genMmExtraHashKeys_eq (D := D) hscan hpassed hk
  exact ⟨_, by rw [generateBlockHashExtraKeys, blockEntry, ← hkeys], hnext⟩

/-- **The hasher computes the chain** of the blocks up to `n`, from any block on, given the
hash before it and an index no needed item stands before. -/
theorem take_hashLoop {fuel k n : ℕ} {i : ℤ} {prev : Option H}
    (hfuel : tokens.length / cfg.hashBlockSize ≤ k + fuel)
    (hscan : ∀ j, k ≤ j → j < n → j < tokens.length / cfg.hashBlockSize →
      Scannable features cfg.hashBlockSize j) (hpassed : Passed features cfg.hashBlockSize k
      (min n (tokens.length / cfg.hashBlockSize)) i)
    (hprev : prev.getD cfg.noneHash = prefixHash cfg ctx tokens features k) :
    (hashLoop cfg ctx tokens features fuel (k * cfg.hashBlockSize) i prev).take (n - k) =
      ((range' k (tokens.length / cfg.hashBlockSize - k)).map fun j =>
        prefixHash cfg ctx tokens features (j + 1)).take (n - k) := by
  induction fuel generalizing k i prev with
  | zero =>
    rw [Nat.sub_eq_zero_of_le (by omega : tokens.length / cfg.hashBlockSize ≤ k)]
    rfl
  | succ fuel ih =>
    rcases le_or_gt n k with hnk | hnk
    · rw [Nat.sub_eq_zero_of_le hnk, take_zero, take_zero]
    have hstop : k * cfg.hashBlockSize + cfg.hashBlockSize = (k + 1) * cfg.hashBlockSize :=
      (succ_mul _ _).symm
    have hfull : (k + 1) * cfg.hashBlockSize ≤ tokens.length ↔
        k < tokens.length / cfg.hashBlockSize :=
      (le_div_iff_mul_le cfg.hashBlockSize_pos).symm
    rw [hashLoop, hstop]
    split
    next hlt =>
      rw [Nat.sub_eq_zero_of_le (by omega : tokens.length / cfg.hashBlockSize ≤ k)]
      rfl
    next hle =>
      have hk := hfull.1 (by omega)
      obtain ⟨i', hkeys, hnext⟩ := generateBlockHashExtraKeys_eq ctx tokens
        (hscan k le_rfl hnk hk) hpassed (lt_min hnk hk)
      have hhash : hashBlockTokens cfg prev
          ((tokens.take ((k + 1) * cfg.hashBlockSize)).drop (k * cfg.hashBlockSize))
          (blockEntry cfg ctx tokens features k).2 =
            prefixHash cfg ctx tokens features (k + 1) := by
        rw [hashBlockTokens, hprev]
        rfl
      have hlen : tokens.length / cfg.hashBlockSize - k =
          tokens.length / cfg.hashBlockSize - (k + 1) + 1 := by omega
      have htake : n - k = n - (k + 1) + 1 := by omega
      rw [hlen, htake, range'_succ, map_cons, hkeys]
      simp only [hhash, take_succ_cons]
      congr 1
      exact ih (by omega) (fun j hj => hscan j (by omega)) hnext rfl

/-- The blocks that are hashed already are not changed by more tokens or items that leave
their entries alone. -/
theorem prefixHash_congr {n : ℕ} (ctx : KeyContext E) {tokens' : List Token}
    {features' : List MmFeature}
    (htokens : tokens.take (n * cfg.hashBlockSize) = tokens'.take (n * cfg.hashBlockSize))
    (hitems : ∀ k < n, itemsIn features cfg.hashBlockSize k =
      itemsIn features' cfg.hashBlockSize k) :
    ∀ k ≤ n, prefixHash cfg ctx tokens features k = prefixHash cfg ctx tokens' features' k := by
  intro k hk
  refine chain_congr fun j hj => ?_
  have hmin : (j + 1) * cfg.hashBlockSize ≤ n * cfg.hashBlockSize :=
    mul_le_mul_right _ (by omega)
  have htake : tokens.take ((j + 1) * cfg.hashBlockSize) =
      tokens'.take ((j + 1) * cfg.hashBlockSize) := by
    rw [← min_eq_left hmin, ← take_take, htokens, take_take]
  rw [blockEntry, blockEntry, htake, hitems j (by omega)]

end Chain

/-! ## Growth keeps the hashes complete -/

section Growing

variable {cfg} {ctx} {r r' : Request H}

/-- The request has the hashes of its full blocks, up to block `n`. -/
def CompleteTo (cfg : HashConfig H D E) (ctx : KeyContext E) (n : ℕ) (r : Request H) : Prop :=
  r.blockHashes.take n = (allHashes cfg ctx r.allTokenIds r.mmFeatures).take n

/-- The scan finds the items of every full block up to block `n`. -/
def ScannableTo (cfg : HashConfig H D E) (n : ℕ) (r : Request H) : Prop :=
  ∀ k < n, k < r.numTokens / cfg.hashBlockSize → Scannable r.mmFeatures cfg.hashBlockSize k

theorem length_allHashes (tokens : List Token) (features : List MmFeature) :
    (allHashes cfg ctx tokens features).length = tokens.length / cfg.hashBlockSize := by
  rw [allHashes, length_map, length_range]

/-- All blocks are those up to the last one. -/
theorem blockHashes_eq_allHashes (h : ∀ n, CompleteTo cfg ctx n r) :
    r.blockHashes = allHashes cfg ctx r.allTokenIds r.mmFeatures := by
  refine ext_getElem? fun k => ?_
  have hk := congrArg (·[k]?) (h (k + 1))
  simpa only [getElem?_take, k.lt_succ_self, if_true] using hk

variable {n : ℕ}

/-- What the hasher must find when it extends hashes that are right so far: once there are
hashes, only the last item is in the new blocks. -/
theorem completeTo_updateBlockHashes
    (hle : min n r.blockHashes.length ≤ r.numTokens / cfg.hashBlockSize)
    (hhashes : r.blockHashes.take n = (range (min n r.blockHashes.length)).map fun k =>
      prefixHash cfg ctx r.allTokenIds r.mmFeatures (k + 1)) (hscan : ScannableTo cfg n r)
    (hlast : r.blockHashes.length ≠ 0 → ∀ f ∈ r.mmFeatures.dropLast, ∀ k < n,
      k < r.numTokens / cfg.hashBlockSize → r.blockHashes.length ≤ k →
      ¬ f.InBlock cfg.hashBlockSize k) :
    CompleteTo cfg ctx n (r.updateBlockHashes (requestBlockHasher cfg ctx)) := by
  show (r.blockHashes ++ requestBlockHasher cfg ctx r).take n =
    (allHashes cfg ctx r.allTokenIds r.mmFeatures).take n
  rcases le_or_gt n r.blockHashes.length with hn | hn
  · -- the new hashes are those of later blocks
    rw [min_eq_left hn] at hle hhashes
    have hmin : min n (r.allTokenIds.length / cfg.hashBlockSize) = n := min_eq_left hle
    rw [take_append_of_le_length hn, hhashes, allHashes, ← map_take, take_range, hmin]
  rw [min_eq_right hn.le] at hle hhashes
  rw [take_of_length_le hn.le] at hhashes
  have hprev : r.blockHashes.getLast?.getD cfg.noneHash =
      prefixHash cfg ctx r.allTokenIds r.mmFeatures r.blockHashes.length := by
    conv_lhs => rw [hhashes]
    exact getLast?_map_chain _
  have hnew : (requestBlockHasher cfg ctx r).take (n - r.blockHashes.length) =
      ((range' r.blockHashes.length
        (r.numTokens / cfg.hashBlockSize - r.blockHashes.length)).map fun k =>
        prefixHash cfg ctx r.allTokenIds r.mmFeatures (k + 1)).take
          (n - r.blockHashes.length) := by
    rw [requestBlockHasher]
    split
    next hlt =>
      have hlt : r.numTokens / cfg.hashBlockSize < r.blockHashes.length + 1 := by
        rw [div_lt_iff_lt_mul cfg.hashBlockSize_pos, succ_mul]
        exact hlt
      rw [Nat.sub_eq_zero_of_le
        (by omega : r.numTokens / cfg.hashBlockSize ≤ r.blockHashes.length)]
      rfl
    next =>
      have hdiv := div_le_self r.numTokens cfg.hashBlockSize
      refine take_hashLoop (hdiv.trans (le_add_left _ _)) (fun j _ hj => hscan j hj) ?_ hprev
      split
      next hpos =>
        have hn0 : r.blockHashes.length ≠ 0 := by
          intro hzero
          rw [hzero, Nat.zero_mul] at hpos
          omega
        intro f hf
        rw [resolveMmIdx_neg_one, ← dropLast_eq_take] at hf
        exact fun j hj hjn => hlast hn0 f hf j (lt_min_iff.1 hjn).1 (lt_min_iff.1 hjn).2 hj
      next =>
        intro f hf
        simp [resolveMmIdx] at hf
  have hall : allHashes cfg ctx r.allTokenIds r.mmFeatures = r.blockHashes ++
      (range' r.blockHashes.length
        (r.numTokens / cfg.hashBlockSize - r.blockHashes.length)).map fun k =>
        prefixHash cfg ctx r.allTokenIds r.mmFeatures (k + 1) := by
    conv_rhs =>
      arg 1
      rw [hhashes]
    exact (map_chain_append hle).symm
  rw [hall, take_append, take_append, hnew]

variable {q : RequestParams} {g : Growth} {gs : List Growth}

theorem create_eq_ok {hasher : Request H → List H} : create hasher q = .ok r ↔
      ¬ (q.samplingParams = none ∧ q.pooling = false) ∧
        r = (ofParams q).updateBlockHashes hasher := by
  rw [create]
  split
  next h => exact iff_of_false (fun he => nomatch he) fun hr => hr.1 h
  next h => exact ⟨fun he => ⟨h, (Except.ok.inj he).symm⟩, fun hr => congrArg _ hr.2.symm⟩

theorem scannableTo_create
    (h : create (requestBlockHasher cfg ctx) q = .ok r) (hq : SortedDisjoint q.mmFeatures) :
    ScannableTo cfg n r := by
  obtain ⟨-, rfl⟩ := create_eq_ok.1 h
  exact fun k _ _ => hq.scannable _ k

/-- **A fresh request has the hashes of its blocks.** -/
theorem completeTo_create
    (h : create (requestBlockHasher cfg ctx) q = .ok r) (hscan : ScannableTo cfg n r) :
    CompleteTo cfg ctx n r := by
  obtain ⟨-, rfl⟩ := create_eq_ok.1 h
  exact completeTo_updateBlockHashes (by simp [ofParams]) (by simp [ofParams]) hscan
    fun hn => absurd rfl hn

/-- The request when the hasher runs: with the new tokens and items. -/
def Growth.extend (r : Request H) (g : Growth) : Request H :=
  { r with allTokenIds := g.tokens r, mmFeatures := r.mmFeatures ++ g.items r }

/-- Tokens and items that are hashed stay as they are: the new token list begins with the
hashed tokens, no new item is in a hashed block, and once there are hashes only the last
item is in the blocks that get complete. -/
structure Safe (cfg : HashConfig H D E) (r : Request H) (g : Growth) : Prop where
  tokens : (g.tokens r).take (r.blockHashes.length * cfg.hashBlockSize) =
    r.allTokenIds.take (r.blockHashes.length * cfg.hashBlockSize)
  items : ∀ f ∈ g.items r, ∀ k < r.blockHashes.length, ¬ f.InBlock cfg.hashBlockSize k
  last : r.blockHashes.length ≠ 0 → ∀ f ∈ (r.mmFeatures ++ g.items r).dropLast,
    ∀ k < (g.tokens r).length / cfg.hashBlockSize, r.blockHashes.length ≤ k →
    ¬ f.InBlock cfg.hashBlockSize k

instance (r : Request H) (g : Growth) : Decidable (Safe cfg r g) :=
  decidable_of_iff (_ ∧ _ ∧ _) ⟨fun ⟨h₁, h₂, h₃⟩ => ⟨h₁, h₂, h₃⟩, fun ⟨h₁, h₂, h₃⟩ => ⟨h₁, h₂, h₃⟩⟩

/-- Tokens and items that are hashed stay as they are, up to block `n`. -/
structure SafeTo (cfg : HashConfig H D E) (n : ℕ) (r : Request H) (g : Growth) : Prop where
  tokens : (g.tokens r).take (min n r.blockHashes.length * cfg.hashBlockSize) =
    r.allTokenIds.take (min n r.blockHashes.length * cfg.hashBlockSize)
  items : ∀ f ∈ g.items r, ∀ k < min n r.blockHashes.length, ¬ f.InBlock cfg.hashBlockSize k
  last : r.blockHashes.length ≠ 0 → ∀ f ∈ (r.mmFeatures ++ g.items r).dropLast, ∀ k < n,
    k < (g.tokens r).length / cfg.hashBlockSize → r.blockHashes.length ≤ k →
    ¬ f.InBlock cfg.hashBlockSize k

theorem Safe.safeTo (h : Safe cfg r g) (n : ℕ) : SafeTo cfg n r g where
  tokens := by
    have hle : min n r.blockHashes.length * cfg.hashBlockSize ≤
        r.blockHashes.length * cfg.hashBlockSize := mul_le_mul_right _ (min_le_right _ _)
    rw [← min_eq_left hle, ← take_take, ← take_take, h.tokens]
  items := fun f hf k hk => h.items f hf k (lt_min_iff.1 hk).2
  last := fun hne f hf k _ => h.last hne f hf k

instance (r : Request H) (g : Growth) : Decidable (SafeTo cfg n r g) :=
  decidable_of_iff (_ ∧ _ ∧ _) ⟨fun ⟨h₁, h₂, h₃⟩ => ⟨h₁, h₂, h₃⟩, fun ⟨h₁, h₂, h₃⟩ => ⟨h₁, h₂, h₃⟩⟩

/-- A growth extends the tokens and the items and then runs the hasher. -/
theorem grow_eq_ok (h : grow cfg ctx r g = .ok r') :
    r'.allTokenIds = g.tokens r ∧ r'.mmFeatures = r.mmFeatures ++ g.items r ∧ r'.blockHashes =
        ((g.extend r).updateBlockHashes (requestBlockHasher cfg ctx)).blockHashes := by
  cases g with
  | append ts =>
    obtain rfl := Except.ok.inj h
    refine ⟨rfl, by simp [appendOutputTokenIds, updateBlockHashes, Growth.items], ?_⟩
    simp only [appendOutputTokenIds, updateBlockHashes, Growth.extend,
      Growth.tokens, Growth.items, append_nil]
    rfl
  | session n u =>
    obtain ⟨prompt, -, hr⟩ := bind_eq_ok.1 h
    obtain rfl := Except.ok.inj hr
    exact ⟨rfl, rfl, rfl⟩

/-- **A safe growth keeps the hashes complete.** -/
theorem CompleteTo.grow (h : CompleteTo cfg ctx n r) (hgrow : grow cfg ctx r g = .ok r')
    (hscan : ScannableTo cfg n (g.extend r)) (hsafe : SafeTo cfg n r g) :
    CompleteTo cfg ctx n r' := by
  obtain ⟨htokens, hfeatures, hhashes⟩ := grow_eq_ok hgrow
  have hlen : min n r.blockHashes.length = min n (r.allTokenIds.length / cfg.hashBlockSize) := by
    rw [← length_take, h, length_take, length_allHashes]
  -- the hashed tokens are still there
  have hle : min n r.blockHashes.length * cfg.hashBlockSize ≤ (g.tokens r).length := by
    have hold : min n r.blockHashes.length * cfg.hashBlockSize ≤ r.allTokenIds.length := by
      rw [hlen]
      exact (mul_le_mul_right _ (min_le_right _ _)).trans (div_mul_le_self _ _)
    have htake := congrArg List.length hsafe.tokens
    rw [length_take, length_take] at htake
    omega
  have hitems : ∀ k < min n r.blockHashes.length, itemsIn r.mmFeatures cfg.hashBlockSize k =
      itemsIn (r.mmFeatures ++ g.items r) cfg.hashBlockSize k := by
    intro k hk
    rw [itemsIn_append, itemsIn_eq_nil fun f hf => hsafe.items f hf k hk, append_nil]
  have hcongr := prefixHash_congr ctx hsafe.tokens.symm hitems
  have hcomplete : CompleteTo cfg ctx n
      ((g.extend r).updateBlockHashes (requestBlockHasher cfg ctx)) := by
    refine completeTo_updateBlockHashes (r := g.extend r)
      ((le_div_iff_mul_le cfg.hashBlockSize_pos).2 hle) ?_ hscan hsafe.last
    show r.blockHashes.take n = (range (min n r.blockHashes.length)).map _
    rw [h, allHashes, ← map_take, take_range, ← hlen]
    refine map_congr_left fun k hk => hcongr (k + 1) ?_
    have := mem_range.1 hk
    omega
  unfold CompleteTo at hcomplete ⊢
  rw [hhashes, hcomplete, htokens, hfeatures]
  rfl

/-- A property of every growth of a run and the request it starts from. -/
def Throughout (cfg : HashConfig H D E) (ctx : KeyContext E) (q : RequestParams)
    (gs : List Growth) (P : Request H → Growth → Prop) : Prop :=
  ∀ pre g, pre ++ [g] <+: gs → ∀ r, growAll cfg ctx q pre = .ok r → P r g

variable {P : Request H → Growth → Prop}

theorem throughout_nil : Throughout cfg ctx q [] P := by
  intro pre g hp
  simp at hp

theorem throughout_concat : Throughout cfg ctx q (gs ++ [g]) P ↔ Throughout cfg ctx q gs P ∧ ∀ r,
    growAll cfg ctx q gs = .ok r → P r g := by
  refine ⟨fun h => ⟨fun pre g' hp => h pre g' (hp.trans (prefix_append gs [g])),
    h gs g (prefix_refl _)⟩, fun h pre g' hp => ?_⟩
  rcases prefix_concat_iff.1 hp with heq | hlt
  · obtain ⟨rfl, rfl⟩ := append_singleton_inj.1 heq
    exact h.2
  · exact h.1 pre g' hlt

/-- The last growth of a run. -/
theorem growAll_concat (h : growAll cfg ctx q (gs ++ [g]) = .ok r') :
    ∃ r, growAll cfg ctx q gs = .ok r ∧ grow cfg ctx r g = .ok r' := by
  obtain ⟨r₀, hr₀, hrun⟩ := bind_eq_ok.1 h
  rw [foldlM_append] at hrun
  obtain ⟨r, hr, hgrow⟩ := bind_eq_ok.1 hrun
  refine ⟨r, bind_eq_ok.2 ⟨r₀, hr₀, hr⟩, ?_⟩
  simpa using hgrow

/-- **Safe growths keep the hashes complete.** -/
theorem completeTo_growAll (hrun : growAll cfg ctx q gs = .ok r)
    (hq : ∀ r₀, create (requestBlockHasher cfg ctx) q = .ok r₀ → ScannableTo cfg n r₀)
    (hscan : Throughout cfg ctx q gs fun s g => ScannableTo cfg n (g.extend s))
    (hsafe : Throughout cfg ctx q gs (SafeTo cfg n)) : CompleteTo cfg ctx n r := by
  induction gs using reverseRecOn generalizing r with
  | nil =>
    obtain ⟨r₀, hr₀, hr⟩ := bind_eq_ok.1 hrun
    obtain rfl := Except.ok.inj hr
    exact completeTo_create hr₀ (hq _ hr₀)
  | append_singleton gs g ih =>
    obtain ⟨s, hs, hgrow⟩ := growAll_concat hrun
    obtain ⟨hscan, hscanLast⟩ := throughout_concat.1 hscan
    obtain ⟨hsafe, hsafeLast⟩ := throughout_concat.1 hsafe
    exact (ih hs hscan hsafe).grow hgrow (hscanLast s hs) (hsafeLast s hs)

/-- The items of a request, if those of the first request and of every growth satisfy a
property. -/
theorem growAll_mmFeatures {P : List MmFeature → Prop}
    (hrun : growAll cfg ctx q gs = .ok r) (hq : P q.mmFeatures)
    (hitems : Throughout cfg ctx q gs fun s g => P (s.mmFeatures ++ g.items s)) :
    P r.mmFeatures := by
  induction gs using reverseRecOn with
  | nil =>
    obtain ⟨r₀, hr₀, hr⟩ := bind_eq_ok.1 hrun
    obtain rfl := Except.ok.inj hr
    obtain ⟨-, rfl⟩ := create_eq_ok.1 hr₀
    exact hq
  | append_singleton gs g _ =>
    obtain ⟨s, hs, hgrow⟩ := growAll_concat hrun
    rw [(grow_eq_ok hgrow).2.1]
    exact (throughout_concat.1 hitems).2 s hs

end Growing

/-- **Hashing as the tokens come gives the hashes of a fresh request** with all the tokens
and items, if every growth is safe. -/
theorem blockHashes_eq_fresh {cfg : HashConfig H D E} {ctx : KeyContext E} {q : RequestParams}
    {gs : List Growth} {r : Request H} (hrun : growAll cfg ctx q gs = .ok r)
    (hq : SortedDisjoint q.mmFeatures)
    (hitems : Throughout cfg ctx q gs fun s g => SortedDisjoint (s.mmFeatures ++ g.items s))
    (hsafe : Throughout cfg ctx q gs (Safe cfg)) :
    ∃ fresh, create (requestBlockHasher cfg ctx)
        { q with promptTokenIds := some r.allTokenIds, mmFeatures := r.mmFeatures } = .ok fresh ∧
      r.blockHashes = fresh.blockHashes := by
  obtain ⟨r₀, hr₀, -⟩ := bind_eq_ok.1 hrun
  have hsorted := growAll_mmFeatures hrun hq hitems
  have hcomplete := blockHashes_eq_allHashes fun n =>
    completeTo_growAll hrun (fun r₁ hr₁ => scannableTo_create hr₁ hq)
      (fun pre g hp s hs k _ _ => (hitems pre g hp s hs).scannable _ k)
      (fun pre g hp s hs => (hsafe pre g hp s hs).safeTo n)
  obtain ⟨fresh, hfresh⟩ : ∃ fresh, create (requestBlockHasher cfg ctx)
      { q with promptTokenIds := some r.allTokenIds, mmFeatures := r.mmFeatures } = .ok fresh :=
    ⟨_, create_eq_ok.2 ⟨(create_eq_ok.1 hr₀).1, rfl⟩⟩
  refine ⟨fresh, hfresh, ?_⟩
  have hcomplete' := blockHashes_eq_allHashes fun n =>
    completeTo_create (n := n) hfresh (scannableTo_create hfresh hsorted)
  obtain ⟨-, rfl⟩ := create_eq_ok.1 hfresh
  exact hcomplete.trans hcomplete'.symm

/-! ## Blocks of four tokens -/

namespace Small

/-- A hash that keeps what it covers. -/
inductive Digest
  | none
  | node (parent : Digest) (tokens : List Token) (keys : Option (List (ExtraKey (List ℕ))))
  deriving DecidableEq

theorem hashBlockSize_pos : 0 < 4 := by decide

def hashing : HashConfig Digest (List ℕ) ℕ where
  hashBlockSize := 4
  hashBlockSize_pos := hashBlockSize_pos
  cachingHashFn := fun (parent, tokens, keys) => .node parent tokens keys
  noneHash := .none
  embedsDigest := id

def tenant : KeyContext ℕ := ⟨some "adapter", some "salt", none⟩

def prompt (tokens : List Token) (features : List MmFeature) : RequestParams where
  priority := 0
  arrivalTime := 0
  samplingParams := some ⟨0, none, [], none⟩
  pooling := false
  maxTokens := 8
  useStructuredOutput := false
  promptTokenIds := some tokens
  numPromptEmbeds := 0
  mmFeatures := features
  skipReadingPrefixCache := false
  resumable := true
  loraId := none

def image (identifier offset : ℕ) : MmFeature := ⟨identifier, offset, 1, none⟩

def input (features : List MmFeature) (tokens : List Token) : StreamingUpdate :=
  ⟨features, tokens, 0, none⟩

def question : RequestParams := prompt [1, 2, 3, 4, 5, 6] [image 70 5]

/-- Two output tokens, and an input that keeps them. -/
def answers : List Growth := [.append [7, 8], .session 8 (input [image 71 1] [9, 10, 11, 12])]

variable (q : RequestParams) (gs : List Growth) {P : Request Digest → Growth → Prop}

def reached : Request Digest :=
  (growAll hashing tenant q gs).toOption.getD (ofParams q)

theorem growAll_eq_ok {q : RequestParams} {gs : List Growth}
    (h : (growAll hashing tenant q gs).isOk = true) :
    growAll hashing tenant q gs = .ok (reached q gs) :=
  eq_ok_getD _ h

theorem throughout_one {q : RequestParams} {g : Growth}
    (hok : (growAll hashing tenant q []).isOk = true) (h : P (reached q []) g) :
    Throughout hashing tenant q [g] P := by
  refine throughout_concat.2 ⟨throughout_nil, fun r hr => ?_⟩
  rw [growAll_eq_ok hok] at hr
  exact Except.ok.inj hr ▸ h

theorem throughout_answers (h₁ : P (reached question []) (.append [7, 8]))
    (h₂ : P (reached question [.append [7, 8]]) (.session 8 (input [image 71 1] [9, 10, 11, 12]))) :
    Throughout hashing tenant question answers P := by
  refine throughout_concat.2 ⟨throughout_one (by decide +kernel) h₁, fun r hr => ?_⟩
  rw [growAll_eq_ok (by decide +kernel)] at hr
  exact Except.ok.inj hr ▸ h₂

def grown (ctx : KeyContext ℕ) (q : RequestParams) (gs : List Growth) : Option (List Digest) :=
  (growAll hashing ctx q gs).toOption.map blockHashes

/-- The hashes of a fresh request with the same tokens and items. -/
def fresh : Option (List Digest) := do
  let r ← (growAll hashing tenant q gs).toOption
  let r' ← (create (requestBlockHasher hashing tenant)
    { q with promptTokenIds := some r.allTokenIds, mmFeatures := r.mmFeatures }).toOption
  pure r'.blockHashes

end Small

open KVarN.Sched.Small

/-- Six tokens with one image, two output tokens, and an input with an image. -/
theorem blockHashes_eq_fresh_small :
    ∃ r fresh, growAll hashing tenant question answers = .ok r ∧
      create (requestBlockHasher hashing tenant)
        { question with
          promptTokenIds := some r.allTokenIds, mmFeatures := r.mmFeatures } = .ok fresh ∧
      r.blockHashes = fresh.blockHashes := by
  have hrun : growAll hashing tenant question answers = _ :=
    growAll_eq_ok (by decide +kernel)
  obtain ⟨fresh, hfresh, heq⟩ := blockHashes_eq_fresh hrun (by decide)
    (throughout_answers (by decide +kernel) (by decide +kernel))
    (throughout_answers (by decide +kernel) (by decide +kernel))
  exact ⟨_, fresh, hrun, hfresh, heq⟩

/-- **Hashing as the tokens come can miss items and keep dropped tokens.** Two images in the
last, partial block of the prompt: the hasher finds the second one only when the block gets
complete. The same for an input with two images. An input that drops the last token of a
hashed block leaves its hash. -/
theorem blockHashes_ne_fresh : (SortedDisjoint [image 70 4, image 71 5] ∧
      grown tenant (prompt [1, 2, 3, 4, 5, 6] [image 70 4, image 71 5]) [.append [7, 8]] ≠
        fresh (prompt [1, 2, 3, 4, 5, 6] [image 70 4, image 71 5]) [.append [7, 8]]) ∧
    grown tenant (prompt [1, 2, 3, 4] [])
        [.session 4 (input [image 70 0, image 71 4] [5, 6, 7, 8, 9, 10])] ≠
      fresh (prompt [1, 2, 3, 4] [])
        [.session 4 (input [image 70 0, image 71 4] [5, 6, 7, 8, 9, 10])] ∧
    grown tenant (prompt [1, 2, 3] []) [.append [4], .session 3 (input [] [5, 6])] ≠
      fresh (prompt [1, 2, 3] []) [.append [4], .session 3 (input [] [5, 6])] := by
  decide +kernel

end KVarN.Sched
