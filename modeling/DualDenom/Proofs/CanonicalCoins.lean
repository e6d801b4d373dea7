import DualDenom.Proofs.CoinLaws
import DualDenom.Proofs.DenomLaws
import Mathlib.Data.List.Pairwise

/-!
# Canonical coin lists

The order of a coin list is only looked at between neighbours. That is enough:
each denom of a list without a defect is below those of all coins after it
(`check_iff`), so no denom stands there twice (`Ascending.apart`).
-/

namespace DualDenom.Coins

variable {cs before after : Coins} {c : Coin}

def Ascending (cs : Coins) : Prop := cs.Pairwise fun c c' => c.denom < c'.denom

theorem orderDefect?_cons_cons : orderDefect? (a :: b :: rest) = none ↔
    a.denom < b.denom ∧ orderDefect? (b :: rest) = none := by
  rw [orderDefect?]
  split
  · rename_i heq
    exact iff_of_false nofun fun h => String.lt_irrefl b.denom (heq ▸ h.1)
  · rename_i hne
    split
    · rename_i hgt
      exact iff_of_false nofun fun h => String.lt_asymm hgt h.1
    · rename_i hle
      exact (and_iff_right (Denom.lt_of_ne hne hle)).symm

instance : IsTrans Coin fun c c' => c.denom < c'.denom := ⟨fun _ _ _ => String.lt_trans⟩

theorem orderDefect?_eq_none : orderDefect? cs = none ↔ cs.Ascending := by
  unfold Ascending
  induction cs with
  | nil => exact iff_of_true rfl List.Pairwise.nil
  | cons c cs ih =>
    cases cs with
    | nil => exact iff_of_true rfl (List.pairwise_singleton ..)
    | cons c' cs => rw [orderDefect?_cons_cons, ih, List.pairwise_cons_cons_iff_of_trans]

theorem check_iff : check cs = .ok u ↔
    (∀ c ∈ cs, c.denom.wellFormed = true ∧ c.amount.val ≠ 0) ∧ cs.Ascending := by
  rw [check_ok, orderDefect?_eq_none]

theorem Ascending.apart (h : Ascending (before ++ after)) (hc : c ∈ before) (hc' : c' ∈ after) :
    c.denom ≠ c'.denom := by
  intro heq
  have hlt : c.denom < c'.denom := (List.pairwise_append.mp h).2.2 c hc c' hc'
  exact String.lt_irrefl c'.denom (heq ▸ hlt)

end DualDenom.Coins
