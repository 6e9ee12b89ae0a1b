import KVarN.Lib.TiledLoop
import KVarN.Sched.BlockHash

/-!
# What a block hash tells apart

Two requests share cached blocks when their block hashes are equal. Under an injective hash
function equal hashes mean equal block entries: the tokens of all blocks so far and the
extra keys of each. The extra keys are one flat tuple of strings, items and digests, and
these have different types, so that the parts of the tuple can be read back, with one
exception. A LoRA name and a cache salt are both strings. In the first block a request
with an adapter and no salt has the keys of a request without adapter and with the
adapter's name as its salt.

## Main definitions

* `keyList` — the flat list of keys; `Swapped` — the exception.
* `SameContext` — what equal hashes should mean.

## Main results

* `keyList_inj` — the parts of a key list.
* `sameContext_iff_of_blockHash_eq` — equal hashes, equal contexts.
-/

namespace KVarN.Sched

open KVarN.Lib HashChain List

variable {H D E : Type}

/-! ## Reading the keys back -/

namespace ExtraKey

def name? : ExtraKey D → Option String
  | name s => some s
  | _ => none

def item? : ExtraKey D → Option (MmHash × ℤ)
  | item identifier offset => some (identifier, offset)
  | _ => none

def embeds? : ExtraKey D → Option D
  | embeds digest => some digest
  | _ => none

end ExtraKey

open ExtraKey

/-- The keys of a block, in the order of the source. -/
def keyList (lora : Option String) (items : List (MmHash × ℤ)) (salt : Option String)
    (digest : Option D) : List (ExtraKey D) :=
  (lora.map .name).toList ++ items.map itemKey ++ (salt.map .name).toList ++
    (digest.map .embeds).toList

section KeyList

variable {lora lora' salt salt' : Option String} {items items' : List (MmHash × ℤ)}
  {digest digest' : Option D}

theorem keyTuple_inj {ks ks' : List (ExtraKey D)} (h : keyTuple ks = keyTuple ks') : ks = ks' := by
  cases ks <;> cases ks' <;> simp_all [keyTuple]

/-- Reading a key list part by part. -/
theorem filterMap_keyList {α : Type} (read : ExtraKey D → Option α) :
    (keyList lora items salt digest).filterMap read =
      (lora.bind (read ∘ .name)).toList ++ items.filterMap (read ∘ itemKey) ++
        (salt.bind (read ∘ .name)).toList ++ (digest.bind (read ∘ .embeds)).toList := by
  have hoption {β : Type} (o : Option β) (key : β → ExtraKey D) :
      (o.map key).toList.filterMap read = (o.bind (read ∘ key)).toList := by
    cases o with
    | none => rfl
    | some x => cases hx : read (key x) <;> simp [hx]
  simp only [keyList, filterMap_append, filterMap_map, hoption]

theorem filterMap_item?_keyList : (keyList lora items salt digest).filterMap item? = items := by
  have hitems : items.filterMap (item? (D := D) ∘ itemKey) = items :=
    filterMap_some
  rw [filterMap_keyList, hitems]
  cases lora <;> cases salt <;> cases digest <;> simp [item?]

theorem filterMap_embeds?_keyList :
    (keyList lora items salt digest).filterMap embeds? = digest.toList := by
  have hitems : items.filterMap (embeds? (D := D) ∘ itemKey) = [] :=
    filterMap_eq_nil_iff.2 fun _ _ => rfl
  rw [filterMap_keyList, hitems]
  cases lora <;> cases salt <;> cases digest <;> rfl

theorem filterMap_name?_keyList :
    (keyList lora items salt digest).filterMap name? = lora.toList ++ salt.toList := by
  have hitems : items.filterMap (name? (D := D) ∘ itemKey) = [] :=
    filterMap_eq_nil_iff.2 fun _ _ => rfl
  rw [filterMap_keyList, hitems]
  cases lora <;> cases salt <;> cases digest <;> rfl

/-- A string before the items is an adapter's name. -/
theorem keyList_ne_of_items {x : String} (hitems : items ≠ []) :
    keyList (some x) items none digest ≠ keyList none items (some x) digest' := by
  obtain ⟨p, ps, rfl⟩ := exists_cons_of_ne_nil hitems
  simp [keyList, itemKey]

/-- One string, an adapter's name on the left and a salt on the right. -/
def Swapped (lora salt lora' salt' : Option String) : Prop :=
  ∃ x, lora = some x ∧ salt = none ∧ lora' = none ∧ salt' = some x

/-- Two strings at most: the lists agree part by part or are swapped. -/
theorem toList_append_toList_inj (h : lora.toList ++ salt.toList = lora'.toList ++ salt'.toList) :
    lora = lora' ∧ salt = salt' ∨ Swapped lora salt lora' salt' ∨
      Swapped lora' salt' lora salt := by
  cases lora <;> cases salt <;> cases lora' <;> cases salt' <;> simp_all [Swapped]

/-- **The parts of a key list can be read back**, but for one string without items. -/
theorem keyList_inj (h : keyList lora items salt digest = keyList lora' items' salt' digest') :
    items = items' ∧ digest = digest' ∧ (lora = lora' ∧ salt = salt' ∨
      items = [] ∧ (Swapped lora salt lora' salt' ∨ Swapped lora' salt' lora salt)) := by
  have hitems : items = items' := by
    simpa only [filterMap_item?_keyList] using congrArg (filterMap item?) h
  have hdigest : digest.toList.head? = digest'.toList.head? := by
    simpa only [filterMap_embeds?_keyList] using
      congrArg (fun ks => (ks.filterMap embeds?).head?) h
  rw [Option.head?_toList, Option.head?_toList] at hdigest
  have hnames : lora.toList ++ salt.toList = lora'.toList ++ salt'.toList := by
    simpa only [filterMap_name?_keyList] using congrArg (filterMap name?) h
  subst hitems
  refine ⟨rfl, hdigest, ?_⟩
  rcases toList_append_toList_inj hnames with heq | hswap | hswap
  · exact Or.inl heq
  · refine Or.inr ⟨by_contra fun hne => ?_, Or.inl hswap⟩
    obtain ⟨x, rfl, rfl, rfl, rfl⟩ := hswap
    exact keyList_ne_of_items hne h
  · refine Or.inr ⟨by_contra fun hne => ?_, Or.inr hswap⟩
    obtain ⟨x, rfl, rfl, rfl, rfl⟩ := hswap
    exact keyList_ne_of_items hne h.symm

end KeyList

/-! ## Equal hashes -/

/-- The digest of the prompt embeddings of a block. -/
def embedsHash (cfg : HashConfig H D E) (ctx : KeyContext E) (k : ℕ) : Option D :=
  ctx.promptEmbeds.map fun e => cfg.embedsDigest
    ((e.take ((k + 1) * cfg.hashBlockSize)).drop (k * cfg.hashBlockSize))

/-- Two requests have the same context up to block `i`. -/
structure SameContext (cfg : HashConfig H D E) (ctx ctx' : KeyContext E) (r r' : Request H)
    (i : ℕ) : Prop where
  tokens : r.allTokenIds.take ((i + 1) * cfg.hashBlockSize) =
    r'.allTokenIds.take ((i + 1) * cfg.hashBlockSize)
  loraName : ctx.loraName = ctx'.loraName
  cacheSalt : ctx.cacheSalt = ctx'.cacheSalt
  items : ∀ k ≤ i, itemsIn r.mmFeatures cfg.hashBlockSize k =
    itemsIn r'.mmFeatures cfg.hashBlockSize k
  embeds : ∀ k ≤ i, embedsHash cfg ctx k = embedsHash cfg ctx' k

/-- A request is made and grows; in the blocks up to `i` the scan finds its items and every
growth is safe. -/
structure SafeRun (cfg : HashConfig H D E) (ctx : KeyContext E) (q : RequestParams)
    (gs : List Growth) (r : Request H) (i : ℕ) : Prop where
  run : growAll cfg ctx q gs = .ok r
  scannableNew : ∀ r₀, Request.create (requestBlockHasher cfg ctx) q = .ok r₀ →
    ScannableTo cfg (i + 1) r₀
  scannable : Throughout cfg ctx q gs fun s g => ScannableTo cfg (i + 1) (g.extend s)
  safe : Throughout cfg ctx q gs (SafeTo cfg (i + 1))

/-- The strings of two requests can be told apart at block `i`: an empty salt is not used
like no salt, and in a first block without items no adapter is named like a salt. -/
structure NamesApart (cfg : HashConfig H D E) (ctx ctx' : KeyContext E) (r : Request H)
    (i : ℕ) : Prop where
  salt : ¬ (ctx.cacheSalt = none ∧ ctx'.cacheSalt = some "") ∧
    ¬ (ctx'.cacheSalt = none ∧ ctx.cacheSalt = some "")
  swap : i = 0 → itemsIn r.mmFeatures cfg.hashBlockSize 0 = [] →
    ¬ Swapped ctx.loraName ctx.salt ctx'.loraName ctx'.salt ∧
    ¬ Swapped ctx'.loraName ctx'.salt ctx.loraName ctx.salt

section

variable {cfg : HashConfig H D E} {ctx ctx' : KeyContext E}

theorem KeyContext.salt_inj (h : ctx.salt = ctx'.salt)
    (hsalt : ¬ (ctx.cacheSalt = none ∧ ctx'.cacheSalt = some "") ∧
      ¬ (ctx'.cacheSalt = none ∧ ctx.cacheSalt = some "")) : ctx.cacheSalt = ctx'.cacheSalt := by
  unfold KeyContext.salt at h
  cases hs : ctx.cacheSalt with
  | none => cases hs' : ctx'.cacheSalt <;> simp_all [Option.filter]
  | some x =>
    cases hs' : ctx'.cacheSalt with
    | none => simp_all [Option.filter]
    | some y =>
      by_cases hx : x = "" <;> by_cases hy : y = "" <;> simp_all [Option.filter]

/-- The keys of a block entry. -/
theorem blockEntry_snd (tokens : List Token) (features : List MmFeature) (k : ℕ) :
    (blockEntry cfg ctx tokens features k).2 =
      keyTuple (keyList ctx.loraName (itemsIn features cfg.hashBlockSize k)
        (if k = 0 then ctx.salt else none) (embedsHash cfg ctx k)) := by
  have hpos := cfg.hashBlockSize_pos
  have hzero : k * cfg.hashBlockSize = 0 ↔ k = 0 := by
    rw [Nat.mul_eq_zero]
    omega
  simp only [blockEntry, keyList, genLoraExtraHashKeys, cacheSaltKeys, hzero,
    genPromptEmbedsExtraHashKeys, embedsHash, Option.map_map, apply_ite (Option.map _),
    apply_ite Option.toList]
  rfl

variable {tokens tokens' : List Token} {features features' : List MmFeature}

/-- Equal block entries: the salt is part of the first block only. -/
theorem keys_eq_of_blockEntry_eq {k : ℕ}
    (h : blockEntry cfg ctx tokens features k = blockEntry cfg ctx' tokens' features' k) :
    itemsIn features cfg.hashBlockSize k = itemsIn features' cfg.hashBlockSize k ∧
      embedsHash cfg ctx k = embedsHash cfg ctx' k ∧ (k ≠ 0 → ctx.loraName = ctx'.loraName) ∧
      (k = 0 → ctx.loraName = ctx'.loraName ∧ ctx.salt = ctx'.salt ∨
        itemsIn features cfg.hashBlockSize k = [] ∧
          (Swapped ctx.loraName ctx.salt ctx'.loraName ctx'.salt ∨
            Swapped ctx'.loraName ctx'.salt ctx.loraName ctx.salt)) := by
  have hsnd := congrArg Prod.snd h
  rw [blockEntry_snd, blockEntry_snd] at hsnd
  obtain ⟨hitems, hembeds, hnames⟩ := keyList_inj (keyTuple_inj hsnd)
  refine ⟨hitems, hembeds, fun hk => ?_, fun hk => ?_⟩
  · rw [if_neg hk, if_neg hk] at hnames
    rcases hnames with heq | ⟨-, ⟨y, -, -, -, hy⟩ | ⟨y, -, -, -, hy⟩⟩
    · exact heq.1
    · cases hy
    · cases hy
  · rwa [if_pos hk, if_pos hk] at hnames

/-- The hash of block `i`. -/
theorem SafeRun.blockHash {q : RequestParams} {gs : List Growth} {r : Request H} {i : ℕ} {x : H}
    (h : SafeRun cfg ctx q gs r i) (hi : r.blockHashes[i]? = some x) :
    x = prefixHash cfg ctx r.allTokenIds r.mmFeatures (i + 1) := by
  have hcomplete := congrArg (·[i]?)
    (completeTo_growAll h.run h.scannableNew h.scannable h.safe)
  simp only [getElem?_take, i.lt_succ_self, if_true, hi, allHashes, getElem?_map]
    at hcomplete
  obtain ⟨k, hk, rfl⟩ := Option.map_eq_some_iff.1 hcomplete.symm
  obtain ⟨hlt, rfl⟩ := List.getElem?_eq_some_iff.1 hk
  rw [getElem_range]

/-- The blocks of equal entries hold the same tokens. -/
theorem take_eq_of_blockEntry_eq {n : ℕ}
    (h : ∀ k < n, blockEntry cfg ctx tokens features k = blockEntry cfg ctx' tokens' features' k) :
    tokens.take (n * cfg.hashBlockSize) = tokens'.take (n * cfg.hashBlockSize) := by
  rw [← TiledLoop.flatMap_drop_take, ← TiledLoop.flatMap_drop_take]
  refine flatMap_congr fun k hk => ?_
  have hslice := congrArg Prod.fst (h k (mem_range.1 hk))
  simpa only [blockEntry, drop_take, Nat.succ_mul, Nat.add_sub_cancel_left] using hslice

end

/-- **Block hashes separate contexts.** Under an injective hash function, equal hashes of a
block mean the same tokens, adapter, salt, items and embeddings up to that block, exactly if
the strings of the two requests can be told apart. -/
theorem sameContext_iff_of_blockHash_eq {cfg : HashConfig H D E} {ctx ctx' : KeyContext E}
    {q q' : RequestParams} {gs gs' : List Growth} {r r' : Request H} {i : ℕ}
    (hinj : Function.Injective cfg.cachingHashFn)
    (hr : SafeRun cfg ctx q gs r i) (hr' : SafeRun cfg ctx' q' gs' r' i) {x : H}
    (hi : r.blockHashes[i]? = some x) (hi' : r'.blockHashes[i]? = some x) :
    SameContext cfg ctx ctx' r r' i ↔ NamesApart cfg ctx ctx' r i := by
  have hinj₂ : Function.Injective2 fun (parent : H) (entry : List Token × _) =>
      cfg.cachingHashFn (parent, entry) := fun _ _ _ _ h => Prod.mk.inj (hinj h)
  have hentry := chain_inj hinj₂ ((hr.blockHash hi).symm.trans (hr'.blockHash hi'))
  have hkeys := fun k (hk : k ≤ i) => keys_eq_of_blockEntry_eq (hentry k (by omega))
  constructor
  · intro hsame
    refine ⟨⟨?_, ?_⟩, fun _ _ => ⟨?_, ?_⟩⟩
    · rintro ⟨hnone, hempty⟩
      simp [← hsame.cacheSalt, hnone] at hempty
    · rintro ⟨hnone, hempty⟩
      simp [hsame.cacheSalt, hnone] at hempty
    · rintro ⟨y, hy, -, hnone, -⟩
      simp [← hsame.loraName, hy] at hnone
    · rintro ⟨y, hy, -, hnone, -⟩
      simp [hsame.loraName, hy] at hnone
  intro hnames
  have hfirst : ctx.loraName = ctx'.loraName ∧ ctx.salt = ctx'.salt := by
    rcases (hkeys 0 (Nat.zero_le i)).2.2.2 rfl with heq | ⟨hnil, hswap⟩
    · exact heq
    rcases Nat.eq_zero_or_pos i with rfl | hpos
    · have hno := hnames.swap rfl hnil
      exact (hswap.elim hno.1 hno.2).elim
    · -- the second block has no salt, so it tells whether there is an adapter
      have hsecond := (hkeys 1 hpos).2.2.1 Nat.one_ne_zero
      rcases hswap with ⟨y, h₁, -, h₂, -⟩ | ⟨y, h₁, -, h₂, -⟩ <;> simp [h₁, h₂] at hsecond
  exact
    { tokens := take_eq_of_blockEntry_eq fun k hk => hentry k hk
      loraName := hfirst.1
      cacheSalt := KeyContext.salt_inj hfirst.2 hnames.salt
      items := fun k hk => (hkeys k hk).1
      embeds := fun k hk => (hkeys k hk).2.1 }

namespace Small

theorem hashing_injective : Function.Injective hashing.cachingHashFn := by
  rintro ⟨parent, tokens, keys⟩ ⟨parent', tokens', keys'⟩ h
  obtain ⟨rfl, rfl, rfl⟩ := Digest.node.inj h
  rfl

/-- Sorted items that do not overlap, and growths that are safe up to block `i`. -/
theorem safeRun {q : RequestParams} {gs : List Growth} {i : ℕ}
    (hok : (growAll hashing tenant q gs).isOk = true) (hq : SortedDisjoint q.mmFeatures)
    (hitems : Throughout hashing tenant q gs fun s g => SortedDisjoint (s.mmFeatures ++ g.items s))
    (hsafe : Throughout hashing tenant q gs (SafeTo hashing (i + 1))) :
    SafeRun hashing tenant q gs (reached q gs) i where
  run := growAll_eq_ok hok
  scannableNew := fun _ hr => scannableTo_create hr hq
  scannable := fun pre g hp s hs k _ _ => (hitems pre g hp s hs).scannable _ k
  safe := hsafe

end Small

open KVarN.Sched.Small

/-- Six tokens and two output tokens, against a prompt with all of them; and a prompt whose
second block misses an image, against the first block alone. -/
theorem sameContext_small : SameContext hashing tenant tenant (reached question [.append [7, 8]])
      (reached (prompt [1, 2, 3, 4, 5, 6, 7, 8] [image 70 5]) []) 1 ∧
    SameContext hashing tenant tenant
      (reached (prompt [1, 2, 3, 4, 5, 6] [image 70 4, image 71 5]) [.append [7, 8]])
      (reached (prompt [1, 2, 3, 4] []) []) 0 :=
  ⟨(sameContext_iff_of_blockHash_eq hashing_injective
      (safeRun (by decide +kernel) (by decide)
        (throughout_one (by decide +kernel) (by decide +kernel))
        (throughout_one (by decide +kernel) (by decide +kernel)))
      (safeRun (by decide +kernel) (by decide) throughout_nil throughout_nil)
      (x := .node (.node .none [1, 2, 3, 4] (some [.name "adapter", .name "salt"])) [5, 6, 7, 8]
        (some [.name "adapter", .item 70 1]))
      (by decide +kernel) (by decide +kernel)).2 ⟨by decide, fun h => by cases h⟩,
    (sameContext_iff_of_blockHash_eq hashing_injective
      (safeRun (by decide +kernel) (by decide)
        (throughout_one (by decide +kernel) (by decide +kernel))
        (throughout_one (by decide +kernel) (by decide +kernel)))
      (safeRun (by decide +kernel) (by decide) throughout_nil throughout_nil)
      (x := .node .none [1, 2, 3, 4] (some [.name "adapter", .name "salt"]))
      (by decide +kernel) (by decide +kernel)).2
      ⟨by decide, fun _ _ => by simp [Swapped, tenant]⟩⟩

/-- **Equal block hashes for different contexts**, with an injective hash function. An
adapter is named like a salt. An empty salt is used like no salt. Two requests differ in
the first of two images of the last, partial block of the prompt. They differ in an item
that overlaps with another one. One has dropped the last token of its first block. -/
theorem blockHash_eq_of_different_contexts : Function.Injective hashing.cachingHashFn ∧
    grown ⟨some "a", none, none⟩ (prompt [1, 2, 3, 4] []) [] =
      grown ⟨none, some "a", none⟩ (prompt [1, 2, 3, 4] []) [] ∧
    grown ⟨none, none, none⟩ (prompt [1, 2, 3, 4] []) [] =
      grown ⟨none, some "", none⟩ (prompt [1, 2, 3, 4] []) [] ∧
    (grown tenant (prompt [1, 2, 3, 4, 5, 6] [image 70 4, image 71 5]) [.append [7, 8]] =
        grown tenant (prompt [1, 2, 3, 4, 5, 6] [image 72 4, image 71 5]) [.append [7, 8]] ∧
      itemsIn [image 70 4, image 71 5] 4 1 ≠ itemsIn [image 72 4, image 71 5] 4 1) ∧
    (grown tenant (prompt [1, 2, 3, 4, 5, 6] [⟨70, 0, 6, none⟩, ⟨71, 0, 6, none⟩]) [] =
        grown tenant (prompt [1, 2, 3, 4, 5, 6] [⟨70, 0, 6, none⟩, ⟨72, 0, 6, none⟩]) [] ∧
      itemsIn [⟨70, 0, 6, none⟩, ⟨71, 0, 6, none⟩] 4 0 ≠
        itemsIn [⟨70, 0, 6, none⟩, ⟨72, 0, 6, none⟩] 4 0) ∧ (grown tenant (prompt [1, 2, 3] [])
          [.append [4], .session 3 (input [] [5])] = grown tenant (prompt [1, 2, 3, 4] []) [] ∧
      (reached (prompt [1, 2, 3] [])
          [.append [4], .session 3 (input [] [5])]).allTokenIds = [1, 2, 3, 5]) ∧
    (grown tenant (prompt [1, 2, 3, 4] []) []).map List.length = some 1 := by
  refine ⟨hashing_injective, ?_⟩
  decide +kernel

end KVarN.Sched
