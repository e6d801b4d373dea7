import DualDenom.Proofs.BookLaws
import DualDenom.Proofs.SplitLaws
import Mathlib.Algebra.BigOperators.Finprod

/-!
# What a book is worth

Values of both denoms in evm units, as integers of any size: of one address, of
all addresses together and of the supply. Postings change each of them by the
worth of their figures. Where the book's own sums do not overflow, they give
the same numbers.
-/

namespace DualDenom

theorem Amount.exists_val_eq {n : Int} (h : 0 ≤ n) (hlt : n < Amount.bound) :
    ∃ a : Amount, (a.val : Int) = n := ⟨⟨n.toNat, by omega⟩, Int.toNat_of_nonneg h⟩

namespace Book

variable {b b' : Book} {c : Config} {f : Figures}

def worth (b : Book) (c : Config) (a : Address) : Int := c.worth fun d => (b.balance a d).val

def supplyWorth (b : Book) (c : Config) : Int := c.worth fun d => (b.supply d).val

noncomputable def heldWorth (b : Book) (c : Config) : Int := ∑ᶠ a, b.worth c a

theorem supplyValue_ok {n : Amount} : b.supplyValue c = .ok n ↔ (n.val : Int) = b.supplyWorth c := by
  have h : b.supplyValue c = (⟨b.supply c.cosmosDenom, b.supply c.evmDenom⟩ : Split).merge c.multiplier := rfl
  rw [h, Split.merge_ok, supplyWorth, Config.worth]
  norm_cast

theorem value_ok {n : Amount} : b.value c a = .ok n ↔ (n.val : Int) = b.worth c a := by
  have h : b.value c a =
      (⟨b.balance a c.cosmosDenom, b.balance a c.evmDenom⟩ : Split).merge c.multiplier := rfl
  rw [h, Split.merge_ok, worth, Config.worth]
  norm_cast

theorem worth_nonneg (b : Book) (c : Config) (a : Address) : 0 ≤ b.worth c a :=
  c.worth_nonneg fun _ => Int.natCast_nonneg _

theorem foldlM_value_ok {as : List Address} {n v : Amount} :
    as.foldlM (fun sum a => do Amount.add sum (← b.value c a)) n = .ok v ↔
      (v.val : Int) = n.val + (as.map (b.worth c)).sum := by
  induction as generalizing n with
  | nil =>
    rw [List.foldlM_nil, pure_ok, Amount.ext_iff, List.map_nil, List.sum_nil]
    omega
  | cons a as ih =>
    simp only [List.foldlM_cons, bind_ok, Amount.add_eq_ok, value_ok, List.map_cons, List.sum_cons]
    constructor
    · rintro ⟨n', ⟨w, hw, hn'⟩, h⟩
      have hrest := ih.mp h
      omega
    · intro h
      have ha := b.worth_nonneg c a
      have hrest : 0 ≤ (as.map (b.worth c)).sum :=
        List.sum_nonneg (List.forall_mem_map.mpr fun x _ => b.worth_nonneg c x)
      have hlt := v.isLt
      obtain ⟨w, hw⟩ := Amount.exists_val_eq ha (by omega)
      obtain ⟨n', hn'⟩ := Amount.exists_val_eq (n := n.val + w.val) (by omega) (by omega)
      exact ⟨n', ⟨w, hw, by omega⟩, ih.mpr (by omega)⟩

theorem totalValue_ok {as : List Address} {v : Amount} :
    b.totalValue c as = .ok v ↔ (v.val : Int) = (as.map (b.worth c)).sum := by
  rw [totalValue, foldlM_value_ok, Amount.val_zero, Nat.cast_zero, zero_add]

theorem finsum_balance (b : Book) (d : Denom) : ∑ᶠ a, (b.balance a d).val = (b.sheet d).total := by
  have hout : ∀ a, a ∉ (b.sheet d).balances.keys.toFinset → (b.balance a d).val = 0 :=
    fun _ => Sheet.balance_of_not_mem_keys
  rw [Sheet.total_eq_sum _ _ hout]
  refine finsum_eq_sum_of_support_subset _ fun a ha => ?_
  by_contra hS
  exact ha (hout a hS)

def holders (b : Book) (c : Config) : Finset Address :=
  (b.sheet c.cosmosDenom).balances.keys.toFinset ∪ (b.sheet c.evmDenom).balances.keys.toFinset

theorem balance_of_not_mem_holders (h : a ∉ b.holders c) :
    (b.balance a c.cosmosDenom).val = 0 ∧ (b.balance a c.evmDenom).val = 0 :=
  ⟨Sheet.balance_of_not_mem_keys fun ha => h (Finset.mem_union_left _ ha),
    Sheet.balance_of_not_mem_keys fun ha => h (Finset.mem_union_right _ ha)⟩

theorem heldWorth_eq_sum {S : Finset Address} (h : ∀ a, b.worth c a ≠ 0 → a ∈ S) :
    b.heldWorth c = ∑ a ∈ S, b.worth c a := finsum_eq_sum_of_support_subset _ h

theorem mem_holders (h : b.worth c a ≠ 0) : a ∈ b.holders c := by
  by_contra ha
  obtain ⟨hcosmos, hevm⟩ := balance_of_not_mem_holders ha
  exact h (by simp [worth, Config.worth, hcosmos, hevm])

theorem heldWorth_eq (b : Book) (c : Config) : b.heldWorth c = c.worth b.figures.held := by
  rw [heldWorth_eq_sum (S := b.holders c) fun _ => mem_holders]
  simp only [worth, Config.worth, figures, Finset.sum_add_distrib, ← Finset.sum_mul]
  rw [Sheet.total_eq_sum _ (b.holders c) fun a ha => (balance_of_not_mem_holders ha).1,
    Sheet.total_eq_sum _ (b.holders c) fun a ha => (balance_of_not_mem_holders ha).2]
  push_cast
  rfl

theorem Posted.worth (h : Posted b f b') (a : Address) :
    b'.worth c a = b.worth c a + c.worth (f.balance a) := by
  simp only [Book.worth, h.balance, c.worth_add]

theorem Posted.supplyWorth (h : Posted b f b') :
    b'.supplyWorth c = b.supplyWorth c + c.worth f.supply := by
  simp only [Book.supplyWorth, h.supply, c.worth_add]

theorem Posted.heldWorth (h : Posted b f b') : b'.heldWorth c = b.heldWorth c + c.worth f.held := by
  rw [heldWorth_eq, heldWorth_eq, h.figures]
  exact c.worth_add ..

end Book

end DualDenom
