import DualDenom.Proofs.SplitLaws
import Mathlib.Data.Nat.ModEq

/-!
# Splits and amounts

A split is a number of two digits, of which the lower one is below the
multiplier. Splitting an amount and merging a split undo each other
(`ofAmount_iff_merge`), as far as the merged number is an amount; merging fails
with an overflow when it is none. Splits of amounts are added digit by digit,
and a unit is carried when the remainders make one (`ofAmount_add`).
-/

namespace DualDenom.Split

variable {s t u : Split} {a b n m : Amount}

def number (s : Split) (m : Amount) : Nat := s.whole.val * m.val + s.remainder.val

def carry (s t : Split) (m : Amount) : Nat :=
  if m.val ≤ s.remainder.val + t.remainder.val then 1 else 0

theorem merge_error : s.merge m = .error o ↔
    Amount.bound ≤ s.whole.val * m.val ∧ o = ⟨.mul, s.whole, m⟩ ∨
      ∃ p, p.val = s.whole.val * m.val ∧ Amount.bound ≤ s.number m ∧
        o = ⟨.add, p, s.remainder⟩ := by
  simp only [merge, bind_error, Amount.mul_eq_ok]
  refine or_congr Amount.checked_eq_error (exists_congr fun p => and_congr_right fun hp => ?_)
  rw [number, ← hp]
  exact Amount.checked_eq_error

theorem merge_overflows : (∃ o, s.merge m = .error o) ↔ Amount.bound ≤ s.number m := by
  constructor
  · rintro ⟨o, h⟩
    rcases merge_error.mp h with ⟨hmul, -⟩ | ⟨p, -, hadd, -⟩
    · exact hmul.trans (Nat.le_add_right ..)
    · exact hadd
  · intro h
    by_cases hmul : Amount.bound ≤ s.whole.val * m.val
    · exact ⟨_, merge_error.mpr (.inl ⟨hmul, rfl⟩)⟩
    · exact ⟨_, merge_error.mpr (.inr ⟨⟨_, Nat.lt_of_not_le hmul⟩, rfl, h, rfl⟩)⟩

/-- The two parts of a number are its quotient and its remainder, and nothing else is. -/
theorem ofAmount_iff_merge (hm : 0 < m.val) :
    ofAmount n m = .ok s ↔ s.remainder < m ∧ s.merge m = .ok n := by
  rw [ofAmount_ok, merge_ok, Amount.lt_def]
  constructor
  · rintro ⟨-, hw, hr⟩
    exact ⟨hr ▸ Nat.mod_lt _ hm, by rw [hw, hr, Nat.mul_comm, Nat.div_add_mod]⟩
  · rintro ⟨hlt, hn⟩
    have hsum : s.remainder.val + m.val * s.whole.val = n.val := by
      rw [hn, Nat.mul_comm, Nat.add_comm]
    obtain ⟨hw, hr⟩ := (Nat.div_mod_unique hm).mpr ⟨hsum, hlt⟩
    exact ⟨Nat.ne_of_gt hm, hw.symm, hr.symm⟩

theorem ofAmount_add (hn : n.val = a.val + b.val) (hs : ofAmount a m = .ok s)
    (ht : ofAmount b m = .ok t) (hu : ofAmount n m = .ok u) :
    u.whole.val = s.whole.val + t.whole.val + carry s t m ∧
      u.remainder.val + carry s t m * m.val = s.remainder.val + t.remainder.val := by
  obtain ⟨hm, hsw, hsr⟩ := ofAmount_ok.mp hs
  obtain ⟨-, htw, htr⟩ := ofAmount_ok.mp ht
  obtain ⟨-, huw, hur⟩ := ofAmount_ok.mp hu
  rw [carry, huw, hur, hsw, htw, hsr, htr, hn, ite_mul, Nat.one_mul, Nat.zero_mul]
  exact ⟨Nat.add_div (Nat.pos_of_ne_zero hm), Nat.add_mod_add_ite ..⟩

/-- Splits below the multiplier and amounts are in bijection by splitting and merging; what is too
large for an amount overflows. Splits add up digit by digit, and carry one unit when the
remainders make one. -/
theorem splits_are_digits (hm : 0 < m.val) :
    (∀ n, ∃ s, ofAmount n m = .ok s ∧ s.remainder < m ∧ s.merge m = .ok n) ∧
    (∀ s : Split, s.remainder < m → s.number m < Amount.bound →
      ∃ n, s.merge m = .ok n ∧ ofAmount n m = .ok s) ∧
    (∀ s : Split, (∃ o, s.merge m = .error o) ↔ Amount.bound ≤ s.number m) ∧
    ∀ a b n s t u, n.val = a.val + b.val → ofAmount a m = .ok s → ofAmount b m = .ok t →
      ofAmount n m = .ok u → u.whole.val = s.whole.val + t.whole.val + carry s t m ∧
        u.remainder.val + carry s t m * m.val = s.remainder.val + t.remainder.val := by
  refine ⟨fun n => ?_, fun s hlt hbound => ?_, fun s => merge_overflows,
    fun a b n s t u => ofAmount_add⟩
  · obtain ⟨s, hs⟩ := ofAmount_succeeds n (Nat.ne_of_gt hm)
    exact ⟨s, hs, (ofAmount_iff_merge hm).mp hs⟩
  · have hmerge : s.merge m = .ok ⟨s.number m, hbound⟩ := merge_ok.mpr rfl
    exact ⟨_, hmerge, (ofAmount_iff_merge hm).mpr ⟨hlt, hmerge⟩⟩

theorem splits_are_digits_ten :
    let m : Amount := .clamp 10
    let s : Split := ⟨.clamp 1, .clamp 7⟩
    let t : Split := ⟨.clamp 2, .clamp 5⟩
    0 < m.val ∧ s.merge m = .ok (.clamp 17) ∧ carry s t m = 1 ∧
      (∃ o, (⟨.clamp (2 ^ 127), .zero⟩ : Split).merge m = .error o) ∧
      ∀ u, ofAmount (.clamp 42) m = .ok u → u.whole.val = 4 ∧ u.remainder.val + 1 * 10 = 12 := by
  intro m s t
  have hm : 0 < m.val := by decide
  obtain ⟨-, -, hoverflow, hadd⟩ := splits_are_digits hm
  refine ⟨hm, by decide, by decide, (hoverflow _).mpr (by decide), fun u hu => ?_⟩
  exact hadd (.clamp 17) (.clamp 25) _ s t u (by decide) (by decide) (by decide) hu

end DualDenom.Split
