import Mathlib.Tactic.Common

/-!
# Hash chains

The digest of a prefix of a sequence is the hash of the digest before it and of the next
entry. A chain can be resumed from its last digest, it depends on the entries before it only,
and under an injective hash it determines them.

## Main results

* `chain_congr` — equal entries, equal digests.
* `chain_inj` — equal digests of prefixes of one length, equal entries.
* `map_chain_append` — a list of digests is extended by those that follow.
-/

namespace KVarN.Lib.HashChain

variable {D β : Type*}

/-- The digest of the first `n` entries. -/
def chain (hash : D → β → D) (seed : D) (entry : ℕ → β) : ℕ → D
  | 0 => seed
  | n + 1 => hash (chain hash seed entry n) (entry n)

variable {hash : D → β → D} {seed : D} {entry entry' : ℕ → β}

theorem chain_succ (n : ℕ) :
    chain hash seed entry (n + 1) = hash (chain hash seed entry n) (entry n) := rfl

theorem chain_congr {n : ℕ} (h : ∀ k < n, entry k = entry' k) :
    chain hash seed entry n = chain hash seed entry' n := by
  induction n with
  | zero => rfl
  | succ n ih =>
    rw [chain_succ, chain_succ, ih fun k hk => h k (Nat.lt_succ_of_lt hk), h n n.lt_succ_self]

/-- **A chain binds its entries.** -/
theorem chain_inj (hinj : Function.Injective2 hash) {n : ℕ}
    (h : chain hash seed entry n = chain hash seed entry' n) : ∀ k < n, entry k = entry' k := by
  induction n with
  | zero =>
    intro k hk
    omega
  | succ n ih =>
    obtain ⟨hparent, hentry⟩ := hinj h
    intro k hk
    rcases Nat.lt_succ_iff_lt_or_eq.1 hk with hlt | rfl
    · exact ih hparent k hlt
    · exact hentry

/-- The digests that follow the first `n`. -/
theorem map_chain_append {n m : ℕ} (h : n ≤ m) :
    (List.range n).map (fun k => chain hash seed entry (k + 1)) ++
        (List.range' n (m - n)).map (fun k => chain hash seed entry (k + 1)) =
      (List.range m).map fun k => chain hash seed entry (k + 1) := by
  have hsplit : List.range n ++ List.range' n (m - n) = List.range m := by
    rw [List.range_eq_range', List.range_eq_range']
    have happ := List.range'_append_1 (s := 0) (m := n) (n := m - n)
    rwa [Nat.zero_add, Nat.add_sub_cancel' h] at happ
  rw [← List.map_append, hsplit]

/-- The digest a chain is resumed from. -/
theorem getLast?_map_chain (n : ℕ) :
    ((List.range n).map fun k => chain hash seed entry (k + 1)).getLast?.getD seed =
      chain hash seed entry n := by
  cases n with
  | zero => rfl
  | succ n => simp [List.range_succ]

end KVarN.Lib.HashChain
