import DualDenom.Proofs.ConversionLaws

/-!
# Exact exchanges

A conversion takes cosmos units from its holder and from the supply and puts
what they are worth in evm units in their place, or the other way. No one else
notices, the conversion escrow included: what passes through it does not stay
there. What the holder may spend falls as its balance does, and rises as its
balance does when no more is locked than there was. A sweep is such an exchange:
it leaves its holder the remainder of its dust.
-/

namespace DualDenom

open DualDenom.Action Figures

namespace Book

variable {c : Config} {b b' : Book} {u : Int}

/-- `units` cosmos units of `a` became evm units; a negative number of them was made of evm units. -/
structure Exchanged (c : Config) (a : Address) (units : Int) (b b' : Book) : Prop where
  evm : ((b'.balance a c.evmDenom).val : Int) =
    (b.balance a c.evmDenom).val + units * c.multiplier.val
  cosmos : ((b'.balance a c.cosmosDenom).val : Int) = (b.balance a c.cosmosDenom).val - units
  evmSupply : ((b'.supply c.evmDenom).val : Int) = (b.supply c.evmDenom).val + units * c.multiplier.val
  cosmosSupply : ((b'.supply c.cosmosDenom).val : Int) = (b.supply c.cosmosDenom).val - units
  others : ∀ x, x ≠ a → ∀ d, b'.balance x d = b.balance x d
  foreign : ∀ d, d ≠ c.evmDenom → d ≠ c.cosmosDenom →
    (∀ x, b'.balance x d = b.balance x d) ∧ b'.supply d = b.supply d
  settings : b.SameSettings b'

theorem Posted.exchanged (hne : c.evmDenom ≠ c.cosmosDenom) (h : b.Posted (conversion c a u) b') :
    b.Exchanged c a u b' where
  evm := by rw [h.balance, balance_conversion, if_pos rfl, c.rate_evm hne]
  cosmos := by rw [h.balance, balance_conversion, if_pos rfl, c.rate_cosmos hne, sub_eq_add_neg]
  evmSupply := by rw [h.supply, supply_conversion, c.rate_evm hne]
  cosmosSupply := by rw [h.supply, supply_conversion, c.rate_cosmos hne, sub_eq_add_neg]
  others x hx d := h.balance_eq (by rw [balance_conversion, if_neg hx])
  foreign d he hc := by
    have hrate : c.rate u d = 0 := by simp [Config.rate, he, hc]
    exact ⟨fun x => h.balance_eq (by simp [hrate]), h.supply_eq hrate⟩
  settings := h.settings

namespace Exchanged

variable {n : Nat}

/-- What units of an address that is not locked beyond its balance add to what it may spend. -/
theorem spendable_raised (h : b.Exchanged c a n b')
    (hlocked : (b.locked a c.evmDenom).val ≤ (b.balance a c.evmDenom).val) :
    (b'.spendable a c.evmDenom).val = (b.spendable a c.evmDenom).val + n * c.multiplier.val := by
  have hevm := h.evm
  rw [← Nat.cast_mul] at hevm
  rw [spendable_val, spendable_val, h.settings.locked]
  omega

theorem spendable_lowered (h : b.Exchanged c a (-n) b') :
    (b'.spendable a c.evmDenom).val = (b.spendable a c.evmDenom).val - n * c.multiplier.val := by
  have hevm := h.evm
  rw [neg_mul, ← Nat.cast_mul] at hevm
  rw [spendable_val, spendable_val, h.settings.locked]
  omega

theorem spendable_others (h : b.Exchanged c a u b') (hx : x ≠ a) (d : Denom) :
    b'.spendable x d = b.spendable x d := by
  refine Amount.ext ?_
  rw [spendable_val, spendable_val, h.others x hx, h.settings.locked]

end Exchanged

def dustUnits (b : Book) (c : Config) (a : Address) : Nat :=
  (b.spendable a c.evmDenom).val / c.multiplier.val

/-- All whole units of dust of `a` became cosmos units, and nothing else happened. -/
structure Swept (c : Config) (a : Address) (units : Amount) (b b' : Book) : Prop where
  units_eq : units.val = b.dustUnits c a
  rest : (b'.spendable a c.evmDenom).val = (b.spendable a c.evmDenom).val % c.multiplier.val
  exchanged : b.Exchanged c a (-units.val) b'

theorem Swept.dustUnits_self {u : Amount} (h : b.Swept c a u b') : b'.dustUnits c a = 0 := by
  rw [dustUnits, h.rest]
  exact Nat.mod_div_self ..

theorem Swept.dustUnits_others {u : Amount} (h : b.Swept c a u b') (hx : x ≠ a) :
    b'.dustUnits c x = b.dustUnits c x := by
  rw [dustUnits, h.exchanged.spendable_others hx, dustUnits]

end Book

namespace Ledger.Mirrors

variable {L : Ledger σ} {book : σ → Book} {c : Config} {hd : Holder}

theorem sweepDust_resolves (hL : L.Mirrors book) (h : (L.sweepDust c hd).Gives s (.ok u) t) :
    ∃ a, (book s).addressOf hd = .ok a := by
  obtain ⟨n, hn, -⟩ := sweepDust_ok.mp h
  obtain ⟨⟨a, ha, -⟩, -⟩ := hL.spendableEvm_ok.mp hn
  exact ⟨a, ha⟩

theorem sweepDust_swept (hL : L.Mirrors book) (hne : c.evmDenom ≠ c.cosmosDenom)
    (ha : (book s).addressOf hd = .ok a) (h : (L.sweepDust c hd).Gives s (.ok u) t) :
    (book s).Swept c a u (book t) := by
  obtain ⟨n, hn, hu, -⟩ := sweepDust_ok.mp h
  obtain rfl := hL.spendableEvm_eq ha hn
  obtain ⟨-, hunits⟩ := Config.unitsIn_ok.mp hu
  have hexchanged := ((hL.carries.sweepDust_posted h).posted ha).exchanged hne
  refine ⟨hunits, ?_, hexchanged⟩
  rw [hexchanged.spendable_lowered, hunits, Nat.mod_eq_sub_div_mul]

theorem sweepDust_none (hL : L.Mirrors book) (hm : c.multiplier.val ≠ 0)
    (ha : (book s).addressOf hd = .ok a) (hnone : (book s).dustUnits c a = 0) :
    (L.sweepDust c hd).Gives s (.ok .zero) s :=
  sweepDust_ok.mpr ⟨_, hL.spendableEvm_gives ha c, Config.unitsIn_ok.mpr ⟨hm, hnone.symm⟩,
    convert_ok.mpr (.inl ⟨rfl, rfl⟩)⟩

end Ledger.Mirrors

end DualDenom
