import DualDenom.Ledger
import DualDenom.Proofs.CanonicalCoins

/-!
# Sums of coin lists

The amounts of one denom are added up in the order of the list, and adding
stops at the largest amount. The limit may be put off to the end: `clamp` takes
exact sums to sums that stop (`Amount.clamp_add`). So the coins may stand in any
order, and the parts of a list may be added up one by one (`amountOf_adds_up`).
A canonical list has no two coins of one denom, so that nothing is added and the
limit plays no part.
-/

namespace DualDenom

theorem Amount.clamp_add (m n : Nat) : clamp (m + n) = (clamp m).addSat (clamp n) := by
  refine Amount.ext ?_
  simp only [val_addSat, val_clamp]
  omega

namespace Coins

variable {cs cs' : Coins} {c : Coin} {d : Denom}

theorem exact_append (cs cs' : Coins) (d : Denom) :
    exact (cs ++ cs') d = cs.exact d + cs'.exact d := by
  rw [exact, List.map_append, List.sum_append, exact, exact]

theorem exact_perm (h : cs.Perm cs') (d : Denom) : cs.exact d = cs'.exact d := (h.map _).sum_nat

theorem amountOf_eq_clamp (cs : Coins) (d : Denom) : cs.amountOf d = .clamp (cs.exact d) :=
  Amount.ext ((cs.val_amountOf d).trans Amount.val_clamp.symm)

theorem amountOf_perm (h : cs.Perm cs') (d : Denom) : cs.amountOf d = cs'.amountOf d := by
  rw [amountOf_eq_clamp, amountOf_eq_clamp, exact_perm h]

theorem amountOf_append (cs cs' : Coins) (d : Denom) :
    (cs ++ cs').amountOf d = (cs.amountOf d).addSat (cs'.amountOf d) := by
  rw [amountOf_eq_clamp, exact_append, Amount.clamp_add, ← amountOf_eq_clamp, ← amountOf_eq_clamp]

theorem amountOf_absent (h : ∀ c ∈ cs, c.denom ≠ d) : cs.amountOf d = .zero :=
  amountOf_eq (exact_eq_zero h)

def Once (cs : Coins) (c : Coin) : Prop :=
  ∃ before after, cs = before ++ c :: after ∧ ∀ c' ∈ before ++ after, c'.denom ≠ c.denom

theorem Once.exact (h : cs.Once c) : cs.exact c.denom = c.amount.val := by
  obtain ⟨before, after, rfl, hothers⟩ := h
  obtain ⟨hbefore, hafter⟩ := List.forall_mem_append.mp hothers
  rw [exact_append, exact_cons, if_pos rfl, exact_eq_zero hbefore, exact_eq_zero hafter,
    Nat.zero_add, Nat.add_zero]

theorem Once.amountOf (h : cs.Once c) : cs.amountOf c.denom = c.amount := amountOf_eq h.exact

theorem Ascending.once (h : cs.Ascending) (hc : c ∈ cs) : cs.Once c := by
  obtain ⟨before, after, rfl⟩ := List.append_of_mem hc
  refine ⟨before, after, rfl, List.forall_mem_append.mpr ⟨fun c' hc' => ?_, fun c' hc' => ?_⟩⟩
  · exact h.apart hc' List.mem_cons_self
  · rw [List.append_cons] at h
    exact (h.apart (List.mem_append_right _ List.mem_cons_self) hc').symm

theorem Ascending.val_amountOf (h : cs.Ascending) (d : Denom) :
    (cs.amountOf d).val = cs.exact d := by
  by_cases hd : ∃ c ∈ cs, c.denom = d
  · obtain ⟨c, hc, rfl⟩ := hd
    rw [(h.once hc).amountOf, (h.once hc).exact]
  · have habsent : ∀ c ∈ cs, c.denom ≠ d := fun c hc heq => hd ⟨c, hc, heq⟩
    rw [amountOf_absent habsent, exact_eq_zero habsent, Amount.val_zero]

end Coins

/-- Nothing is asked of a listing: it may hold a denom more than once, and in any order. -/
theorem Ledger.spendableAmount_ok {L : Ledger σ} : L.spendableAmount s a d = .ok n ↔
    ∃ cs, L.spendableCoins s a = .ok cs ∧ n.val = min (cs.exact d) Amount.largest.val := by
  rw [Ledger.spendableAmount, map_ok]
  refine exists_congr fun cs => and_congr_right fun _ => ?_
  rw [Amount.ext_iff, Coins.val_amountOf, eq_comm]
  rfl

namespace Coins

/-- What a list holds of a denom is the exact sum, or the largest amount where that is too large. It
is the same in any order, and parts add up. A canonical list holds its only coin of the denom, or
nothing of it, and nothing is cut off. A ledger is read in the same way, whatever it lists. -/
theorem amountOf_adds_up (d : Denom) :
    (∀ cs : Coins, (cs.amountOf d).val = min (cs.exact d) Amount.largest.val) ∧
    (∀ cs cs' : Coins, cs.Perm cs' → cs.amountOf d = cs'.amountOf d) ∧
    (∀ cs cs' : Coins, (cs ++ cs').amountOf d = (cs.amountOf d).addSat (cs'.amountOf d)) ∧
    (∀ cs : Coins, cs.check = .ok () → (cs.amountOf d).val = cs.exact d ∧
      (∀ c ∈ cs, c.denom = d → cs.Once c ∧ cs.amountOf d = c.amount) ∧
      ((∀ c ∈ cs, c.denom ≠ d) → cs.amountOf d = .zero)) ∧
    ∀ {σ : Type} (L : Ledger σ) s a n, L.spendableAmount s a d = .ok n ↔
      ∃ cs, L.spendableCoins s a = .ok cs ∧ n.val = min (cs.exact d) Amount.largest.val := by
  refine ⟨fun cs => cs.val_amountOf d, fun cs cs' h => amountOf_perm h d,
    fun cs cs' => amountOf_append cs cs' d, fun cs hcs => ?_,
    fun _ _ _ _ => Ledger.spendableAmount_ok⟩
  have hasc : cs.Ascending := (check_iff.mp hcs).2
  refine ⟨hasc.val_amountOf d, ?_, amountOf_absent⟩
  rintro c hc rfl
  exact ⟨hasc.once hc, (hasc.once hc).amountOf⟩

theorem amountOf_adds_up_largest :
    let cs : Coins := [⟨"aorai", .largest⟩, ⟨"orai", .clamp 3⟩]
    cs.check = .ok () ∧ cs.Once ⟨"aorai", .largest⟩ ∧ cs.amountOf "aorai" = .largest ∧
      cs.amountOf "uluna" = .zero ∧ amountOf cs.reverse "orai" = .clamp 3 ∧
      (cs ++ cs).amountOf "aorai" = .largest := by
  intro cs
  have hcs : cs.check = .ok () := by decide
  obtain ⟨-, -, hparts, haorai, -⟩ := amountOf_adds_up "aorai"
  obtain ⟨-, horder, -, horai, -⟩ := amountOf_adds_up "orai"
  obtain ⟨-, -, -, huluna, -⟩ := amountOf_adds_up "uluna"
  obtain ⟨honce, hall⟩ := (haorai cs hcs).2.1 ⟨"aorai", .largest⟩ (by decide) rfl
  obtain ⟨-, hthree⟩ := (horai cs hcs).2.1 ⟨"orai", .clamp 3⟩ (by decide) rfl
  have hnone : cs.amountOf "uluna" = .zero := (huluna cs hcs).2.2 (by decide)
  have hreverse : amountOf cs.reverse "orai" = cs.amountOf "orai" :=
    horder cs.reverse cs cs.reverse_perm
  have htwice : (cs ++ cs).amountOf "aorai" = Amount.largest.addSat .largest := by rw [hparts, hall]
  exact ⟨hcs, honce, hall, hnone, hreverse.trans hthree, htwice.trans (by decide)⟩

end Coins

end DualDenom
