import DualDenom.CoinSet
import DualDenom.Proofs.ActionLaws
import Mathlib.Algebra.BigOperators.Group.List.Basic
import Mathlib.Algebra.Ring.Nat

/-!
# What coin lists hold

`cs.exact d` is the sum of the amounts of one denom without a limit;
`amountOf` is that sum, stopped at the largest amount. Coins of amount zero do
not count. The bridge reads an evm amount off a list: the amount is what the
list holds of the evm denom.
-/

namespace DualDenom.Coins

def exact (cs : Coins) (d : Denom) : Nat :=
  (cs.map fun c => if c.denom = d then c.amount.val else 0).sum

@[simp] theorem exact_nil : exact [] d = 0 := rfl

@[simp] theorem exact_cons :
    exact (c :: cs) d = (if c.denom = d then c.amount.val else 0) + exact cs d := rfl

theorem exact_eq_zero {cs : Coins} (h : ∀ c ∈ cs, c.denom ≠ d) : cs.exact d = 0 := by
  induction cs with
  | nil => rfl
  | cons c cs ih =>
    rw [exact_cons, if_neg (h c List.mem_cons_self), ih fun c' hc => h c' (List.mem_cons_of_mem _ hc)]

theorem exact_positive (cs : Coins) (d : Denom) : cs.positive.exact d = cs.exact d := by
  induction cs with
  | nil => rfl
  | cons c cs ih =>
    by_cases hz : c.amount.isZero = true
    · have hc : positive (c :: cs) = positive cs := by simp [positive, hz]
      rw [hc, ih, exact_cons, Amount.isZero_iff.mp hz, ite_self, Nat.zero_add]
    · have hc : positive (c :: cs) = c :: positive cs := by simp [positive, hz]
      rw [hc, exact_cons, exact_cons, ih]

theorem exact_eq_sum (cs : Coins) (d : Denom) :
    cs.exact d = ((cs.filter fun c => c.denom = d).map (·.amount.val)).sum := by
  rw [exact, List.sum_map_ite, List.sum_map_zero, Nat.add_zero]

/-- Adding up starts anywhere: what was counted before may have reached the limit. -/
theorem val_foldl_addSat (cs : Coins) (n : Amount) :
    (cs.foldl (fun sum c => sum.addSat c.amount) n).val =
      min (n.val + (cs.map (·.amount.val)).sum) (Amount.bound - 1) := by
  induction cs generalizing n with
  | nil =>
    have := n.isLt
    simp only [List.foldl_nil, List.map_nil, List.sum_nil]
    omega
  | cons c cs ih =>
    rw [List.foldl_cons, ih, Amount.val_addSat, List.map_cons, List.sum_cons]
    omega

theorem val_amountOf (cs : Coins) (d : Denom) :
    (cs.amountOf d).val = min (cs.exact d) (Amount.bound - 1) := by
  rw [amountOf, val_foldl_addSat, ← exact_eq_sum, Amount.val_zero, Nat.zero_add]

theorem amountOf_eq {cs : Coins} {n : Amount} (h : cs.exact d = n.val) : cs.amountOf d = n := by
  have hn := n.isLt
  refine Amount.ext ?_
  rw [val_amountOf, h]
  omega

theorem coinDefect?_eq_none {c : Coin} :
    c.defect? = none ↔ c.denom.wellFormed = true ∧ c.amount.val ≠ 0 := by
  by_cases hw : c.denom.wellFormed = true
  · by_cases hz : c.amount.isZero = true
    · simp [Coin.defect?, hw, Amount.isZero_iff.mp hz, Amount.isZero]
    · simp [Coin.defect?, hw, Amount.isZero]
  · simp [Coin.defect?, hw]

theorem check_ok : check cs = .ok u ↔
    (∀ c ∈ cs, c.denom.wellFormed = true ∧ c.amount.val ≠ 0) ∧ orderDefect? cs = none := by
  have hcheck : check cs = .ok u ↔ defect? cs = none := by
    simp only [check]
    cases defect? cs <;> simp
  rw [hcheck, defect?, Option.or_eq_none_iff, List.findSome?_eq_none_iff]
  simp only [coinDefect?_eq_none]

theorem check_singleton : check [c] = .ok u ↔ c.denom.wellFormed = true ∧ c.amount.val ≠ 0 := by
  have ho : orderDefect? [c] = none := rfl
  simp only [check_ok, List.mem_singleton, forall_eq, ho, and_true]

theorem amount_of_mem_positive {cs : Coins} (hc : c ∈ cs.positive) : c.amount.val ≠ 0 := by
  simpa [positive, Amount.isZero] using (List.mem_filter.mp hc).2

theorem checkEvm_ok {cs : Coins} :
    cs.checkEvm d = .ok u ↔
      cs.positive = [] ∨ ∃ n, cs.positive = [⟨d, n⟩] ∧ d.wellFormed = true := by
  unfold checkEvm
  cases hp : cs.positive with
  | nil => simp [pure_ok]
  | cons c rest =>
    simp only [List.isEmpty_cons, Bool.false_eq_true, if_false, bind_ok, mapError_ok]
    constructor
    · rintro ⟨_, hk, h⟩
      split at h
      · rename_i hd
        obtain ⟨e, n⟩ := c
        obtain ⟨rfl, hrest⟩ : e = d ∧ rest.map (·.denom) = [] := by simpa using hd
        obtain rfl : rest = [] := by simpa using hrest
        exact .inr ⟨n, rfl, (check_singleton.mp hk).1⟩
      · exact (throw_ok.mp h).elim
    · rintro (h | ⟨n, h, hw⟩)
      · cases h
      · have hz : n.val ≠ 0 := amount_of_mem_positive (c := ⟨d, n⟩) (by rw [hp, h]; exact List.mem_cons_self)
        exact ⟨(), by rw [h]; exact check_singleton.mpr ⟨hw, hz⟩, by rw [h]; simp [pure_ok]⟩

theorem evmAmount_ok {cs : Coins} :
    cs.evmAmount d = .ok n ↔
      (cs.positive = [] ∧ n = .zero) ∨ (cs.positive = [⟨d, n⟩] ∧ d.wellFormed = true) := by
  simp only [evmAmount, bind_ok, checkEvm_ok]
  constructor
  · rintro ⟨_, hp | ⟨n', hp, hw⟩, h⟩
    · rw [hp] at h
      exact .inl ⟨hp, (pure_ok.mp h).symm⟩
    · rw [hp] at h
      exact .inr ⟨pure_ok.mp h ▸ hp, hw⟩
  · rintro (⟨hp, rfl⟩ | ⟨hp, hw⟩)
    · exact ⟨(), .inl hp, by rw [hp]; rfl⟩
    · exact ⟨(), .inr ⟨n, hp, hw⟩, by rw [hp]; rfl⟩

theorem evmAmount_singleton (hw : d.wellFormed = true) (n : Amount) :
    evmAmount [⟨d, n⟩] d = .ok n := by
  by_cases hz : n.isZero = true
  · exact evmAmount_ok.mpr (.inl ⟨by simp [positive, hz], Amount.ext (Amount.isZero_iff.mp hz)⟩)
  · exact evmAmount_ok.mpr (.inr ⟨by simp [positive, hz], hw⟩)

end DualDenom.Coins
