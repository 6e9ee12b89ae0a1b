import KVarN.Sched.Request

/-!
# The encoder cache

Multimodal items are encoded once and their embeddings kept by the workers until
the scheduler tells them to drop an item. `EncoderCache` is the scheduler's book
of that cache: which items are kept, which requests refer to each, and which kept
items nobody refers to and may be evicted, oldest first. Encoder-decoder models use
the same interface but only count slots; the two manager classes are one state with
both sets of fields, and each operation follows the class of the configuration.

`tryScheduleEncoderInputs` decides which items a step has to encode and shortens the
step so that it stops before the first item that cannot be.

## Main definitions

* `EncoderCache.checkAndUpdateCache`, `EncoderCache.canAllocate`,
  `EncoderCache.allocate`, `EncoderCache.free`, `EncoderCache.getFreedMmHashes`.
* `tryScheduleEncoderInputs`, `freeEncoderInputs`.
-/

namespace KVarN.Sched

open KVarN.Lib KVarN.Core

/-- The state of `EncoderCacheManager`; the last two fields belong to
`EncoderDecoderCacheManager`. Sets are lists without repetitions. -/
structure EncoderCache where
  numFreeSlots : ℤ
  numFreeableSlots : ℤ
  cached : Dict MmHash (List ReqId)
  requestCachedIds : Dict ReqId (List ℕ)
  freeable : Dict MmHash ℕ
  freed : List MmHash
  allocated : List MmHash
  toFree : List MmHash

/-- Add an element to a set kept as a list. -/
def addTo {α : Type} [DecidableEq α] (l : List α) (a : α) : List α :=
  if a ∈ l then l else l ++ [a]

@[simp] theorem mem_addTo {α : Type} [DecidableEq α] {l : List α} {a b : α} :
    b ∈ addTo l a ↔ b = a ∨ b ∈ l := by
  rw [addTo]
  split
  · next h => exact ⟨Or.inr, fun h' => h'.elim (fun e => e ▸ h) id⟩
  · simp [or_comm]

namespace EncoderCache

variable {H : Type}

def init (cacheSize : ℕ) : EncoderCache where
  numFreeSlots := cacheSize
  numFreeableSlots := cacheSize
  cached := Dict.empty
  requestCachedIds := Dict.empty
  freeable := Dict.empty
  freed := []
  allocated := []
  toFree := []

variable (e : EncoderCache) (encDec : Bool) (r : Request H) (id : ReqId)

/-- Record that a request holds one of its items. -/
def hold (i : ℕ) : EncoderCache :=
  { e with requestCachedIds :=
      e.requestCachedIds.set id (addTo ((e.requestCachedIds.get? id).getD []) i) }

/-- An item that gets its first reference can no longer be evicted. -/
def unfree (h : MmHash) (refs : List ReqId) : Except Fault EncoderCache :=
  if refs = [] then do
    let n ← orRaise .keyError (e.freeable.get? h)
    pure { e with freeable := e.freeable.pop h, numFreeableSlots := e.numFreeableSlots - n }
  else .ok e

/-- `EncoderCacheManager.check_and_update_cache`: a hit makes the request refer to the
item. -/
def checkAndUpdateCache (i : ℕ) : Except Fault (Bool × EncoderCache) := do
  let f ← orRaise .indexError r.mmFeatures[i]?
  match e.cached.get? f.identifier with
  | none => pure (false, e)
  | some refs => do
      let e ← e.unfree f.identifier refs
      pure (true, EncoderCache.hold { e with
        cached := e.cached.set f.identifier (addTo refs id) } id i)

/-- Evict unreferenced items, oldest first, until `n` slots are free. -/
def evictUntil (n : ℤ) : List (MmHash × ℕ) → EncoderCache → Except Fault EncoderCache
  | [], e => if n ≤ e.numFreeSlots then .ok e else .error .keyError
  | (h, k) :: rest, e =>
    if n ≤ e.numFreeSlots then .ok e
    else if h ∈ e.cached then evictUntil n rest { e with
      freeable := e.freeable.pop h
      cached := e.cached.pop h
      freed := e.freed ++ [h]
      numFreeSlots := e.numFreeSlots + k }
    else .error .keyError

/-- `can_allocate`: whether an item fits, after evicting others if that is needed. -/
def canAllocate (i : ℕ) (computeBudget numEmbedsToSchedule : ℤ) :
    Except Fault (Bool × EncoderCache) := do
  assert (i < r.mmFeatures.length)
  if computeBudget < r.getNumEncoderEmbeds i then pure (false, e)
  else if (r.getNumEncoderEmbeds i : ℤ) + numEmbedsToSchedule ≤ e.numFreeSlots then pure (true, e)
  else if encDec ∨ e.numFreeableSlots < (r.getNumEncoderEmbeds i : ℤ) + numEmbedsToSchedule then
    pure (false, e)
  else do
    let e ← evictUntil ((r.getNumEncoderEmbeds i : ℤ) + numEmbedsToSchedule) e.freeable.entries e
    pure (true, e)

/-- `EncoderCacheManager.allocate`. -/
def allocateItem (i : ℕ) : Except Fault EncoderCache := do
  let f ← orRaise .indexError r.mmFeatures[i]?
  assert (f.getNumEmbeds ≤ e.numFreeSlots)
  assert (f.getNumEmbeds ≤ e.numFreeableSlots)
  pure (EncoderCache.hold { e with
    cached := e.cached.set f.identifier (addTo ((e.cached.get? f.identifier).getD []) id)
    numFreeSlots := e.numFreeSlots - f.getNumEmbeds
    numFreeableSlots := e.numFreeableSlots - f.getNumEmbeds } id i)

/-- `allocate`. -/
def allocate (i : ℕ) : Except Fault EncoderCache :=
  if encDec then do
    let f ← orRaise .indexError r.mmFeatures[i]?
    pure { e with
      numFreeSlots := e.numFreeSlots - f.getNumEmbeds
      allocated := e.allocated ++ [f.identifier] }
  else e.allocateItem r id i

def allocateAll (encDec : Bool) (r : Request H) (id : ReqId) :
    List ℕ → EncoderCache → Except Fault EncoderCache
  | [], e => .ok e
  | i :: is, e => do
      let e ← e.allocate encDec r id i
      allocateAll encDec r id is e

/-- `get_cached_input_ids`. -/
def getCachedInputIds : List ℕ :=
  if encDec then List.range r.mmFeatures.length else (e.requestCachedIds.get? id).getD []

/-- Forget that a request holds one of its items. -/
def unhold (i : ℕ) : EncoderCache :=
  match e.requestCachedIds.get? id with
  | none => e
  | some is =>
    { e with requestCachedIds :=
        if is.filter (· ≠ i) = [] then e.requestCachedIds.pop id
        else e.requestCachedIds.set id (is.filter (· ≠ i)) }

/-- Drop a request's reference to an item; without references it can be evicted. -/
def dropRef (h : MmHash) (numEmbeds : ℕ) : EncoderCache :=
  match e.cached.get? h with
  | none => e
  | some refs =>
    if refs = [] then e
    else if refs.filter (· ≠ id) = [] then
      { e with
        cached := e.cached.set h []
        freeable := e.freeable.set h numEmbeds
        numFreeableSlots := e.numFreeableSlots + numEmbeds }
    else { e with cached := e.cached.set h (refs.filter (· ≠ id)) }

/-- `free_encoder_input`. -/
def freeEncoderInput (i : ℕ) : Except Fault EncoderCache := do
  let f ← orRaise .indexError r.mmFeatures[i]?
  if encDec then pure { e with numFreeSlots := e.numFreeSlots + f.getNumEmbeds }
  else pure ((e.unhold id i).dropRef id f.identifier f.getNumEmbeds)

def freeAll (encDec : Bool) (r : Request H) (id : ReqId) :
    List ℕ → EncoderCache → Except Fault EncoderCache
  | [], e => .ok e
  | i :: is, e => do
      let e ← e.freeEncoderInput encDec r id i
      freeAll encDec r id is e

/-- `free`: all items a request refers to. -/
def free : Except Fault EncoderCache :=
  freeAll encDec r id (e.getCachedInputIds encDec r id) e

/-- `get_freed_mm_hashes`: an item evicted and allocated again in the same pass stays. -/
def getFreedMmHashes : List MmHash × EncoderCache :=
  if encDec then (e.toFree, { e with toFree := e.allocated, allocated := [] })
  else (e.freed.filter fun h => decide (h ∉ e.cached), { e with freed := [] })

end EncoderCache

/-! ## Scheduling encoder inputs -/

/-- `bisect.bisect_left` between `lo` and `hi`. -/
def bisectLeft (key : ℕ → ℕ) (x : ℕ) : ℕ → ℕ → ℕ → ℕ
  | 0, lo, _ => lo
  | fuel + 1, lo, hi =>
    if lo < hi then
      if key ((lo + hi) / 2) < x then bisectLeft key x fuel ((lo + hi) / 2 + 1) hi
      else bisectLeft key x fuel lo ((lo + hi) / 2)
    else lo

/-- `get_mm_features_in_window`: the items that overlap `[start, stop)`, as a range of
indices. -/
def getMmFeaturesInWindow (fs : List MmFeature) (start stop : ℕ) : ℕ × ℕ :=
  let n := fs.length
  (bisectLeft (fun i => (fs[i]?.map fun f => f.offset + f.length).getD 0) (start + 1) (n + 1) 0 n,
    bisectLeft (fun i => (fs[i]?.map fun f => f.offset).getD 0) stop (n + 1) 0 n)

/-- The static parameters of encoder scheduling. -/
structure EncoderConfig where
  isEncoderDecoder : Bool
  disableChunkedMmInput : Bool
  /-- Whether there is a connector for encoder outputs. -/
  hasEcConnector : Bool

/-- The accumulators of `_try_schedule_encoder_inputs`. -/
structure EncoderPlan where
  cache : EncoderCache
  inputs : List ℕ
  external : List ℕ
  numNewTokens : ℤ
  computeBudget : ℤ
  mmHashesToSchedule : List MmHash
  numEmbedsToSchedule : ℤ

/-- What becomes of one item: the loop goes on, or it ends here. -/
inductive EncoderStep
  | next (p : EncoderPlan)
  | stop (p : EncoderPlan)

section

variable {H : Type} (ec : EncoderConfig) (remote : MmHash → Bool) (r : Request H) (id : ReqId)
  (numComputedTokens shift windowEnd : ℤ)

/-- An item that must be encoded or loaded in this step, if it fits. -/
def planItem (i : ℕ) (f : MmFeature) (p : EncoderPlan) : Except Fault EncoderStep :=
  if ec.disableChunkedMmInput ∧ numComputedTokens < f.offset ∧
      numComputedTokens + p.numNewTokens < (f.offset + f.length : ℕ) then
    -- the item would be cut: stop before it
    .ok (.stop { p with numNewTokens := max 0 ((f.offset : ℤ) - (numComputedTokens + shift)) })
  else do
    let (fits, cache) ← p.cache.canAllocate ec.isEncoderDecoder r i p.computeBudget
      p.numEmbedsToSchedule
    let p := { p with cache := cache }
    if fits = false then
      if numComputedTokens + shift < f.offset then
        pure (.stop { p with numNewTokens := (f.offset : ℤ) - (numComputedTokens + shift) })
      else pure (.stop { p with numNewTokens := 0 })
    else
      let lo := (max 0 (numComputedTokens - f.offset)).toNat
      let hi := (min (f.length : ℤ) (windowEnd - f.offset)).toNat
      if (f.embedsBelow hi : ℤ) - f.embedsBelow lo = 0 then pure (.next p)
      else if ec.hasEcConnector ∧ remote f.identifier then
        pure (.next { p with
          mmHashesToSchedule := addTo p.mmHashesToSchedule f.identifier
          external := p.external ++ [i]
          numEmbedsToSchedule := p.numEmbedsToSchedule + f.getNumEmbeds })
      else
        pure (.next { p with
          numEmbedsToSchedule := p.numEmbedsToSchedule + f.getNumEmbeds
          computeBudget := p.computeBudget - f.getNumEmbeds
          mmHashesToSchedule := addTo p.mmHashesToSchedule f.identifier
          inputs := p.inputs ++ [i] })

/-- One item of the loop of `_try_schedule_encoder_inputs`. -/
def encoderItem (i : ℕ) (p : EncoderPlan) : Except Fault EncoderStep := do
  let f ← orRaise .indexError r.mmFeatures[i]?
  if ec.isEncoderDecoder ∧ 0 < numComputedTokens then do
    assert (f.offset = 0)
    pure (.next p)
  else if ec.isEncoderDecoder then planItem ec remote r numComputedTokens shift windowEnd i f p
  else if f.identifier ∈ p.mmHashesToSchedule then pure (.next p)
  else do
    let (hit, cache) ← p.cache.checkAndUpdateCache r id i
    if hit then pure (.next { p with cache := cache })
    else planItem ec remote r numComputedTokens shift windowEnd i f { p with cache := cache }

/-- The loop over `n` items from index `i` on. -/
def encoderLoop : ℕ → ℕ → EncoderPlan → Except Fault EncoderPlan
  | _, 0, p => .ok p
  | i, n + 1, p => do
      let st ← encoderItem ec remote r id numComputedTokens shift windowEnd i p
      match st with
      | .stop p => pure p
      | .next p => encoderLoop (i + 1) n p

/-- `_try_schedule_encoder_inputs`, for a request with encoder inputs. -/
def tryScheduleEncoderInputs (cache : EncoderCache) (numNewTokens computeBudget : ℤ) :
    Except Fault EncoderPlan :=
  let p : EncoderPlan := ⟨cache, [], [], numNewTokens, computeBudget, [], 0⟩
  if numNewTokens = 0 then .ok p
  else
    let windowEnd := numComputedTokens + numNewTokens + shift
    let w := getMmFeaturesInWindow r.mmFeatures numComputedTokens.toNat windowEnd.toNat
    let lo := if ec.isEncoderDecoder then 0 else w.1
    encoderLoop ec remote r id numComputedTokens shift windowEnd lo (w.2 - lo) p

end

/-- The items of a request whose placeholders, and the drafter's look-ahead behind
them, are computed for good. -/
def freeableInputs {H : Type} (encDec : Bool) (lookahead : ℕ) (r : Request H) (is : List ℕ) :
    List ℕ :=
  is.filter fun i => match r.mmFeatures[i]? with
    | none => true
    | some f => (encDec ∧ 0 < r.numComputedTokens) ∨ ((f.offset + f.length + lookahead : ℕ) : ℤ)
          ≤ r.numComputedTokens - r.numOutputPlaceholders

/-- `Scheduler._free_encoder_inputs`. -/
def freeEncoderInputs {H : Type} (encDec : Bool) (lookahead : ℕ) (r : Request H) (id : ReqId)
    (e : EncoderCache) : Except Fault EncoderCache :=
  EncoderCache.freeAll encDec r id
    (freeableInputs encDec lookahead r (e.getCachedInputIds encDec r id)) e

end KVarN.Sched
