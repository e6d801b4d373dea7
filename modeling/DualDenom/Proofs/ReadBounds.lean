import DualDenom.Proofs.Solvency
import DualDenom.Proofs.SupplyBalance
import DualDenom.Proofs.VisibleBalance

/-!
# Reading what there is

Where all addresses together have what was issued, the worth of the supply
bounds all that can be read: what the bridge says that an address has, and the
total of any addresses that are all different, in any order. So neither
overflows when the worth of the supply is an amount (`reads_bounded`). What is
locked is missing from the first and not from the second.
-/

namespace DualDenom

namespace Book

variable {b : Book} {c : Config} {as : List Address}

theorem worth_eq (b : Book) (c : Config) (a : Address) : b.worth c a =
    ((b.balance a c.cosmosDenom).val * c.multiplier.val + (b.balance a c.evmDenom).val : Nat) := by
  simp only [worth, Config.worth]
  norm_cast

theorem sum_worth (b : Book) (c : Config) (as : List Address) : (as.map (b.worth c)).sum =
    ((as.map fun a => (b.balance a c.cosmosDenom).val * c.multiplier.val +
      (b.balance a c.evmDenom).val).sum : Nat) := by
  rw [Nat.cast_list_sum, List.map_map]
  exact congrArg List.sum (List.map_congr_left fun a _ => b.worth_eq c a)

theorem Balanced.heldWorth (hb : b.Balanced) (c : Config) : b.heldWorth c = b.supplyWorth c := by
  rw [heldWorth_eq, supplyWorth]
  simp only [figures, hb _]

theorem sum_worth_le (hnd : as.Nodup) : (as.map (b.worth c)).sum ≤ b.heldWorth c := by
  have hall : b.heldWorth c = ∑ a ∈ as.toFinset ∪ b.holders c, b.worth c a :=
    heldWorth_eq_sum fun a ha => Finset.mem_union_right _ (mem_holders ha)
  rw [← List.sum_toFinset _ hnd, hall]
  exact Finset.sum_le_sum_of_subset_of_nonneg Finset.subset_union_left fun a _ _ =>
    b.worth_nonneg c a

theorem sum_worth_eq (hnd : as.Nodup) (h : ∀ a, (b.balance a c.cosmosDenom).val ≠ 0 ∨
    (b.balance a c.evmDenom).val ≠ 0 → a ∈ as) : (as.map (b.worth c)).sum = b.heldWorth c := by
  rw [← List.sum_toFinset _ hnd, heldWorth_eq_sum fun a ha => List.mem_toFinset.mpr (h a ?_)]
  by_contra hnone
  obtain ⟨hcosmos, hevm⟩ := not_or.mp hnone
  exact ha (by simp [worth, Config.worth, not_not.mp hcosmos, not_not.mp hevm])

theorem spendableWorth_le_held (b : Book) (c : Config) (a : Address) :
    b.spendableWorth c a ≤ b.heldWorth c :=
  calc b.spendableWorth c a
    _ ≤ b.worth c a := c.worth_mono fun d => Int.ofNat_le.mpr ((b.sheet d).spendable_le_balance a)
    _ = ([a].map (b.worth c)).sum := by simp
    _ ≤ b.heldWorth c := sum_worth_le (List.nodup_singleton a)

end Book

/-- What an address is said to have, and what a list of addresses has, is part of the supply. -/
theorem Keeper.reads_bounded {k : Keeper} {r : Recorded Book} {T : Amount}
    (hsum : ∀ d, ∑ᶠ a, (r.ledger.balance a d).val = (r.ledger.supply d).val)
    (hT : r.ledger.supplyValue k.config = .ok T) :
    (∀ a, ∃ n, k.Shows r a n ∧ n ≤ T ∧
      n.val = (r.ledger.spendable a k.config.cosmosDenom).val * k.config.multiplier.val +
        (r.ledger.spendable a k.config.evmDenom).val) ∧
    ∀ as : List Address, as.Nodup → ∃ V, r.ledger.totalValue k.config as = .ok V ∧ V ≤ T ∧
      V.val = (as.map fun a => (r.ledger.balance a k.config.cosmosDenom).val *
        k.config.multiplier.val + (r.ledger.balance a k.config.evmDenom).val).sum ∧
      ((∀ a, (r.ledger.balance a k.config.cosmosDenom).val ≠ 0 ∨
        (r.ledger.balance a k.config.evmDenom).val ≠ 0 → a ∈ as) → V = T) := by
  have hheld := (Book.balanced_iff.mpr hsum).heldWorth k.config
  rw [Book.supplyValue_ok, ← hheld] at hT
  have hlt := T.isLt
  constructor
  · intro a
    have hle := r.ledger.spendableWorth_le_held k.config a
    obtain ⟨n, hn⟩ := exists_shows (k := k) (r := r) (a := a) (by omega)
    have hval := shows_iff.mp hn
    refine ⟨n, hn, Amount.le_def.mpr (by omega), ?_⟩
    simp only [Book.spendableWorth, Config.worth] at hval
    exact_mod_cast hval
  · intro as hnd
    have hle := Book.sum_worth_le (b := r.ledger) (c := k.config) hnd
    have hnat := r.ledger.sum_worth k.config as
    obtain ⟨V, hV⟩ := Amount.exists_val_eq (n := (as.map (r.ledger.worth k.config)).sum)
      (by omega) (by omega)
    refine ⟨V, Book.totalValue_ok.mpr hV, Amount.le_def.mpr (by omega), by omega, fun hcover => ?_⟩
    have heq := Book.sum_worth_eq hnd hcover
    exact Amount.ext (by omega)

theorem reads_bounded_small :
    let k := Keeper.standard
    ∃ r : Recorded Book, r.ledger = Book.small.lock "alice" ⟨"aorai", .clamp 2⟩ ∧
      r.ledger.supplyValue k.config = .ok (.clamp 7999999999993) ∧
      k.Shows r "alice" (.clamp 5000000000001) ∧
      r.ledger.totalValue k.config ["fee_module_account", "bob", "alice"] =
        .ok (.clamp 7999999999993) := by
  intro k
  let r : Recorded Book := .start (Book.small.lock "alice" ⟨"aorai", .clamp 2⟩)
  have hb : r.ledger.Balanced := Book.Balanced.lock Book.small_backed.total "alice" _
  have hT : r.ledger.supplyValue k.config = .ok (.clamp 7999999999993) :=
    ok_of_toOption (by decide +kernel)
  obtain ⟨hshows, htotals⟩ :=
    Keeper.reads_bounded (k := k) (Book.balanced_iff.mp hb) hT
  obtain ⟨n, hn, -, hval⟩ := hshows "alice"
  obtain rfl : n = .clamp 5000000000001 := Amount.ext (hval.trans (by decide +kernel))
  obtain ⟨V, hV, -, hsum, -⟩ := htotals ["fee_module_account", "bob", "alice"] (by decide)
  obtain rfl : V = .clamp 7999999999993 := Amount.ext (hsum.trans (by decide +kernel))
  exact ⟨r, rfl, hT, hn, hV⟩

end DualDenom
