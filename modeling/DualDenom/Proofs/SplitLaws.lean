import DualDenom.Keeper
import DualDenom.Proofs.CoinLaws

/-!
# Whole units and remainders

The arithmetic of the bridge on natural numbers: what a checked configuration
has, how an amount splits, how many units a shortfall takes and how many are
in a balance. Each law says when the result exists and which one it is.
-/

namespace DualDenom

theorem Config.check_ok {c : Config} :
    c.check = .ok u ↔ c.evmDenom.wellFormed = true ∧ c.cosmosDenom.wellFormed = true ∧
      c.evmDenom ≠ c.cosmosDenom ∧ isBlank c.conversionModule = false ∧ 1 < c.multiplier.val := by
  have hcheck : c.check = .ok u ↔ c.defect? = none := by
    unfold check
    cases c.defect? <;> simp
  have hm : ¬c.multiplier ≤ .one ↔ 1 < c.multiplier.val := by simp [Amount.le_def]
  -- No test may find anything, as what it finds is a defect.
  have htest : ∀ {p : Prop} [Decidable p] {d : ConfigDefect} {o : Option ConfigDefect},
      (if p then some d else o) = none ↔ ¬p ∧ o = none := by
    intro p _ d o
    by_cases hp : p <;> simp [hp]
  simp only [hcheck, defect?, htest, Bool.not_eq_true', Bool.not_eq_false, Bool.not_eq_true, hm,
    and_true, ne_eq]

namespace Keeper

variable (k : Keeper)

theorem evm_wellFormed : k.config.evmDenom.wellFormed = true := (Config.check_ok.mp k.check_eq).1

theorem cosmos_wellFormed : k.config.cosmosDenom.wellFormed = true :=
  (Config.check_ok.mp k.check_eq).2.1

theorem evm_ne_cosmos : k.config.evmDenom ≠ k.config.cosmosDenom :=
  (Config.check_ok.mp k.check_eq).2.2.1

theorem one_lt_multiplier : 1 < k.config.multiplier.val := (Config.check_ok.mp k.check_eq).2.2.2.2

theorem multiplier_ne_zero : k.config.multiplier.val ≠ 0 := by
  have := k.one_lt_multiplier
  omega

end Keeper

theorem Split.merge_ok {s : Split} :
    s.merge m = .ok n ↔ n.val = s.whole.val * m.val + s.remainder.val := by
  simp only [merge, bind_ok, Amount.mul_eq_ok, Amount.add_eq_ok]
  constructor
  · rintro ⟨p, hp, hn⟩
    rw [hn, hp]
  · intro hn
    have hlt : s.whole.val * m.val < Amount.bound := by
      have := n.isLt
      omega
    exact ⟨⟨_, hlt⟩, rfl, hn⟩

theorem Split.ofAmount_ok {n m : Amount} {s : Split} :
    ofAmount n m = .ok s ↔
      m.val ≠ 0 ∧ s.whole.val = n.val / m.val ∧ s.remainder.val = n.val % m.val := by
  simp only [ofAmount, bind_ok, mapError_ok, Amount.div_eq_ok, Amount.mod_eq_ok, merge_ok]
  constructor
  · rintro ⟨w, ⟨hm, hw⟩, r, ⟨-, hr⟩, p, -, h⟩
    split at h
    · cases pure_ok.mp h
      exact ⟨hm, hw, hr⟩
    · exact (throw_ok.mp h).elim
  · rintro ⟨hm, hw, hr⟩
    have hn : n.val = s.whole.val * m.val + s.remainder.val := by
      rw [hw, hr, Nat.mul_comm, Nat.div_add_mod]
    have hlt : s.remainder < m := Amount.lt_def.mpr (hr ▸ Nat.mod_lt _ (by omega))
    exact ⟨s.whole, ⟨hm, hw⟩, s.remainder, ⟨hm, hr⟩, n, hn, by rw [if_pos ⟨rfl, hlt⟩, pure_ok]⟩

theorem Split.ofAmount_succeeds (n : Amount) {m : Amount} (hm : m.val ≠ 0) :
    ∃ s, ofAmount n m = .ok s :=
  ⟨⟨⟨_, Nat.lt_of_le_of_lt (Nat.div_le_self n.val m.val) n.isLt⟩,
    ⟨_, Nat.lt_of_le_of_lt (Nat.mod_le n.val m.val) n.isLt⟩⟩, ofAmount_ok.mpr ⟨hm, rfl, rfl⟩⟩

namespace Config

theorem unitsFor_ok {c : Config} : c.unitsFor n = .ok u ↔ 1 ≤ c.multiplier.val ∧
      n.val + (c.multiplier.val - 1) < Amount.bound ∧
        u.val = (n.val + (c.multiplier.val - 1)) / c.multiplier.val := by
  simp only [unitsFor, bind_ok, mapError_ok, Amount.sub_eq_ok, Amount.add_eq_ok, Amount.div_eq_ok,
    Amount.val_one]
  constructor
  · rintro ⟨slack, ⟨hm, hs⟩, raised, hr, -, hu⟩
    have := raised.isLt
    exact ⟨hm, by omega, by rw [hu, hr, hs]⟩
  · rintro ⟨hm, hlt, hu⟩
    have := c.multiplier.isLt
    exact ⟨⟨c.multiplier.val - 1, by omega⟩, ⟨hm, rfl⟩, ⟨_, hlt⟩, rfl, by omega, hu⟩

theorem unitsFor_small {c : Config} {q n u : Amount} (hu : c.unitsFor (q.subSat n) = .ok u)
    (hq : q.val < c.multiplier.val) (hlt : n.val < q.val) : u.val = 1 := by
  obtain ⟨-, -, h⟩ := unitsFor_ok.mp hu
  rw [h, Amount.val_subSat]
  exact Nat.div_eq_of_lt_le (by omega) (by omega)

theorem unitsFor_one {c : Config} {q n : Amount} (hm : c.multiplier.val ≤ 2 ^ 127)
    (hq : q.val < c.multiplier.val) (hlt : n.val < q.val) : c.unitsFor (q.subSat n) = .ok .one := by
  have hb : Amount.bound = 2 ^ 128 := rfl
  rw [unitsFor_ok, Amount.val_subSat, Amount.val_one]
  exact ⟨by omega, by omega, (Nat.div_eq_of_lt_le (by omega) (by omega)).symm⟩

theorem unitsIn_ok {c : Config} :
    c.unitsIn n = .ok u ↔ c.multiplier.val ≠ 0 ∧ u.val = n.val / c.multiplier.val := by
  simp only [unitsIn, mapError_ok, Amount.div_eq_ok]

theorem unitsIn_succeeds {c : Config} (hm : c.multiplier.val ≠ 0) (n : Amount) :
    ∃ u, c.unitsIn n = .ok u ∧ u.val * c.multiplier.val ≤ n.val :=
  ⟨⟨_, Nat.lt_of_le_of_lt (Nat.div_le_self n.val c.multiplier.val) n.isLt⟩, unitsIn_ok.mpr ⟨hm, rfl⟩,
    Nat.div_mul_le_self ..⟩

end Config

namespace Keeper

theorem split_ok {k : Keeper} {σ : Type} {s t : σ} :
    (k.split cs).Gives s (.ok sp) t ↔ t = s ∧ ∃ n, cs.evmAmount k.config.evmDenom = .ok n ∧
      sp.whole.val = n.val / k.config.multiplier.val ∧
      sp.remainder.val = n.val % k.config.multiplier.val := by
  have hm := k.multiplier_ne_zero
  simp only [split, Action.gives_bind_ok, Action.gives_ofExcept, Action.gives_report,
    Action.gives_pure, mapError_ok, Split.ofAmount_ok]
  constructor
  · rintro ⟨n, _, ⟨hn, rfl⟩, _, _, ⟨⟨-, hw, hr⟩, rfl⟩, _, _, ⟨-, rfl⟩, ⟨⟩, rfl⟩
    exact ⟨rfl, n, hn, hw, hr⟩
  · rintro ⟨rfl, n, hn, hw, hr⟩
    exact ⟨n, t, ⟨hn, rfl⟩, sp, t, ⟨⟨hm, hw, hr⟩, rfl⟩, (), t, ⟨trivial, rfl⟩, rfl, rfl⟩

theorem coinSet_error {x : Except CoinSetDefect α} {σ : Type} {s t : σ} :
    (Action.ofExcept (x.mapError .invalidCoinSet) : Bridge σ α).Gives s (.error e) t ↔
      t = s ∧ ∃ d, x = .error d ∧ e = .invalidCoinSet d := by
  simp only [Action.gives_ofExcept, mapError_error, @eq_comm _ e, and_comm]

/-- The arithmetic of a split does not fail. -/
theorem split_error {k : Keeper} {σ : Type} {s t : σ} :
    (k.split cs).Gives s (.error e) t ↔
      t = s ∧ ∃ d, cs.evmAmount k.config.evmDenom = .error d ∧ e = .invalidCoinSet d := by
  rw [split, Action.gives_bind_error, coinSet_error, or_iff_left]
  rintro ⟨n, _, -, h⟩
  obtain ⟨sp, hsp⟩ := Split.ofAmount_succeeds n k.multiplier_ne_zero
  rw [hsp] at h
  exact (Action.failsAs_ok_bind (P := fun _ _ => False)
    (Action.failsAs_report.bind fun _ _ _ _ => Action.failsAs_pure) h).elim

end Keeper

end DualDenom
