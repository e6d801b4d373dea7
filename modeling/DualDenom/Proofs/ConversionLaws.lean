import DualDenom.Proofs.Carrying
import DualDenom.Proofs.SplitLaws

/-!
# What conversions post

On a ledger that carries a book a conversion posts nothing but the exchange at
its holder: the escrow pays out all that it is given, whoever it is. Top-ups
and sweeps are conversions of the units that they answer.
-/

namespace DualDenom

open DualDenom.Action Figures

namespace Book

def Converts (b : Book) (c : Config) (hd : Holder) (units : Int) (b' : Book) : Prop :=
  ∃ a, (units ≠ 0 → b.addressOf hd = .ok a) ∧ b.Posted (conversion c a units) b'

theorem Converts.refl (b : Book) (c : Config) (hd : Holder) : b.Converts c hd 0 b :=
  ⟨"", fun h => absurd rfl h, (Posted.refl b).cast conversion_zero.symm⟩

theorem Converts.posted (h : Converts b c hd u b') (ha : b.addressOf hd = .ok a) :
    b.Posted (conversion c a u) b' := by
  obtain ⟨a', ha', hp⟩ := h
  by_cases hu : u = 0
  · subst hu
    rw [conversion_zero] at hp ⊢
    exact hp
  · rw [Except.ok.inj ((ha' hu).symm.trans ha)] at hp
    exact hp

end Book

def Direction.signed (units : Amount) : Direction → Int
  | .cosmosToEvm => units.val
  | .evmToCosmos => -units.val

theorem Direction.signed_eq_zero {d : Direction} {units : Amount} :
    d.signed units = 0 ↔ units.val = 0 := by
  cases d <;> simp [Direction.signed]

variable {c : Config} {d : Direction} {units evm : Amount}

theorem exchange_figures (he : evm.val = units.val * c.multiplier.val) :
    -inHand a (c.sourceCoin units evm d) + -inIssue (c.sourceCoin units evm d) +
      (inHand a (c.targetCoin units evm d) + inIssue (c.targetCoin units evm d)) =
        conversion c a (d.signed units) := by
  cases d <;> ext <;>
    simp only [Config.sourceCoin, Config.targetCoin, Config.cosmosCoin, Config.evmCoin,
      Direction.signed, Config.rate, he, balance_add, balance_neg, balance_inHand, balance_inIssue,
      balance_conversion, held_add, held_neg, held_inHand, held_inIssue, held_conversion, supply_add,
      supply_neg, supply_inHand, supply_inIssue, supply_conversion, Nat.cast_mul] <;>
    split_ifs <;> simp_all <;> ring

theorem Holder.isModule_iff {hd : Holder} : hd.isModule name = true ↔ hd = .escrow name :=
  decide_eq_true_iff

@[simp] theorem Holder.coins_deposit (hd : Holder) : (hd.deposit name cs).coins = cs := by
  cases hd <;> rfl

@[simp] theorem Holder.coins_withdraw (hd : Holder) : (hd.withdraw name cs).coins = cs := by
  cases hd <;> rfl

namespace Ledger

variable {L : Ledger σ}

theorem convert_ok : (L.convert c hd units d).Gives s (.ok u) t ↔ (units.val = 0 ∧ t = s) ∨
    (units.val ≠ 0 ∧ ∃ evm : Amount, evm.val = units.val * c.multiplier.val ∧
      ((c.route hd units evm d).forM L.call).Gives s (.ok ()) t) := by
  unfold convert
  split
  · rename_i hz
    simp [gives_pure, Amount.isZero_iff.mp hz]
  · rename_i hz
    have hne : units.val ≠ 0 := fun h => hz (Amount.isZero_iff.mpr h)
    simp only [gives_bind_ok, gives_ofExcept, gives_report, mapError_ok, Amount.mul_eq_ok, hne,
      false_and, ne_eq, not_false_eq_true, true_and, false_or]
    constructor
    · rintro ⟨evm, _, ⟨he, rfl⟩, _, _, h, rfl⟩
      exact ⟨evm, he, h⟩
    · rintro ⟨evm, he, h⟩
      exact ⟨evm, s, ⟨he, rfl⟩, (), t, h, rfl⟩

theorem convert_route (hne : units.val ≠ 0) (he : evm.val = units.val * c.multiplier.val) :
    (L.convert c hd units d).Gives s x t ↔ ((c.route hd units evm d).forM L.call).Gives s x t := by
  have hevm : units.mul c.multiplier = .ok evm := Amount.mul_eq_ok.mpr he
  unfold convert
  rw [if_neg fun hz => hne (Amount.isZero_iff.mp hz), hevm]
  exact (gives_ofExcept.mpr ⟨rfl, rfl⟩).bind_iff.trans gives_bind_report

theorem convert_gives (h : (L.convert c hd units d).Gives s x t) : t = s ∨
    ∃ evm : Amount, evm.val = units.val * c.multiplier.val ∧
      ∃ y, ((c.route hd units evm d).forM L.call).Gives s y t := by
  unfold convert at h
  split at h
  · exact .inl (gives_pure.mp h).2
  · rcases gives_bind.mp h with ⟨e, hmul, -⟩ | ⟨evm, r, hmul, hrest⟩
    · exact .inl (gives_ofExcept.mp hmul).2
    · obtain ⟨he, rfl⟩ := gives_ofExcept.mp hmul
      refine .inr ⟨evm, Amount.mul_eq_ok.mp (mapError_ok.mp he), ?_⟩
      rcases gives_bind.mp hrest with ⟨e, hroute, -⟩ | ⟨_, _, hroute, hreport⟩
      · exact ⟨_, hroute⟩
      · obtain ⟨-, rfl⟩ := gives_report.mp hreport
        exact ⟨_, hroute⟩

end Ledger

namespace Ledger.Carries

variable {L : Ledger σ} {book : σ → Book} {hd : Holder}

theorem exchange_posted (hL : L.Carries book) (he : evm.val = units.val * c.multiplier.val)
    (hb : (L.call (.burn c.conversionModule [c.sourceCoin units evm d])).Gives s (.ok ()) r)
    (hm : (L.call (.mint c.conversionModule [c.targetCoin units evm d])).Gives r (.ok ()) t) :
    ∃ e, (book s).moduleAddress c.conversionModule = .ok e ∧
      (book s).Posted (conversion c e (d.signed units)) (book t) := by
  obtain ⟨_, hmb, hpb⟩ := hL.call_ok hb
  obtain ⟨_, hmm, hpm⟩ := hL.call_ok hm
  obtain ⟨e, heb, rfl⟩ := Book.movement_burn.mp hmb
  obtain ⟨e', hem, rfl⟩ := Book.movement_mint.mp hmm
  have he₁ := Book.moduleAddress_of_addressWith heb
  have he₂ := Book.moduleAddress_of_addressWith hem
  obtain rfl : e = e' := Except.ok.inj (he₁.symm.trans ((hpb.settings.moduleAddress _).symm.trans he₂))
  refine ⟨e, he₁, (hpb.trans hpm).cast ?_⟩
  rw [← exchange_figures he]
  simp only [Call.coins, Movement.figures_singleton, Movement.coinFigures]

theorem convert_posted (hL : L.Carries book) (h : (L.convert c hd units d).Gives s (.ok ()) t) :
    (book s).Converts c hd (d.signed units) (book t) := by
  rcases convert_ok.mp h with ⟨hz, rfl⟩ | ⟨-, evm, he, h⟩
  · rw [Direction.signed_eq_zero.mpr hz]
    exact .refl ..
  · unfold Config.route at h
    split at h
    · rename_i hin
      obtain ⟨_, hb, h⟩ := gives_forM_cons_ok.mp h
      obtain ⟨_, hm, h⟩ := gives_forM_cons_ok.mp h
      obtain ⟨-, rfl⟩ := gives_forM_nil.mp h
      obtain ⟨e, hae, hp⟩ := hL.exchange_posted he hb hm
      exact ⟨e, fun _ => by rw [Holder.isModule_iff.mp hin]; exact hae, hp⟩
    · obtain ⟨_, hd₁, h⟩ := gives_forM_cons_ok.mp h
      obtain ⟨_, hb, h⟩ := gives_forM_cons_ok.mp h
      obtain ⟨_, hm, h⟩ := gives_forM_cons_ok.mp h
      obtain ⟨_, hw, h⟩ := gives_forM_cons_ok.mp h
      obtain ⟨-, rfl⟩ := gives_forM_nil.mp h
      obtain ⟨_, hmd, hpd⟩ := hL.call_ok hd₁
      obtain ⟨_, hmw, hpw⟩ := hL.call_ok hw
      obtain ⟨e, hae, hpe⟩ := hL.exchange_posted he hb hm
      obtain ⟨a, e₁, haa, he₁, rfl⟩ := Book.movement_deposit.mp hmd
      obtain ⟨a', e₂, haa', he₂, -, rfl⟩ := Book.movement_withdraw.mp hmw
      -- The settings do not change on the way, so all calls meet the same two addresses.
      have hs := hpd.settings.trans hpe.settings
      obtain rfl : e₁ = e :=
        Except.ok.inj (he₁.symm.trans ((hpd.settings.moduleAddress _).symm.trans hae))
      obtain rfl : e₁ = e₂ := Except.ok.inj (he₁.symm.trans ((hs.moduleAddress _).symm.trans he₂))
      obtain rfl : a = a' := Except.ok.inj (haa.symm.trans ((hs.addressOf _).symm.trans haa'))
      refine ⟨a, fun _ => haa, ((hpd.trans hpe).trans hpw).cast ?_⟩
      rw [← exchange_figures he, ← exchange_figures he]
      simp only [Holder.coins_deposit, Holder.coins_withdraw, Movement.figures_singleton,
        Movement.coinFigures]
      abel

end Ledger.Carries

-- ---------------------------------------------------------------------------
-- Top-ups and sweeps, step by step
-- ---------------------------------------------------------------------------

namespace Ledger

variable {L : Ledger σ} {book : σ → Book} {hd : Holder} {n q u : Amount}

theorem spendableEvm_ok : (L.spendableEvm c hd).Gives s (.ok n) t ↔
    (∃ a, L.holderAddress s hd = .ok a ∧ L.spendableAmount s a c.evmDenom = .ok n) ∧ t = s := by
  simp only [spendableEvm, ask, gives_bind_ok, gives_mapError_ok, gives_query]
  constructor
  · rintro ⟨a, _, ⟨ha, rfl⟩, hn, rfl⟩
    exact ⟨⟨a, ha, hn⟩, rfl⟩
  · rintro ⟨⟨a, ha, hn⟩, rfl⟩
    exact ⟨a, t, ⟨ha, rfl⟩, hn, rfl⟩

theorem Mirrors.spendableEvm_ok (hL : L.Mirrors book) : (L.spendableEvm c hd).Gives s (.ok n) t ↔
    (∃ a, (book s).addressOf hd = .ok a ∧ (book s).spendable a c.evmDenom = n) ∧ t = s := by
  simp only [Ledger.spendableEvm_ok, hL.holderAddress, hL.spendableAmount, Except.ok.injEq]

theorem Mirrors.spendableEvm_gives (hL : L.Mirrors book) (ha : (book s).addressOf hd = .ok a)
    (c : Config) : (L.spendableEvm c hd).Gives s (.ok ((book s).spendable a c.evmDenom)) s :=
  hL.spendableEvm_ok.mpr ⟨⟨a, ha, rfl⟩, rfl⟩

theorem Mirrors.spendableEvm_eq (hL : L.Mirrors book) (ha : (book s).addressOf hd = .ok a)
    (hn : (L.spendableEvm c hd).Gives s (.ok n) t) : n = (book s).spendable a c.evmDenom :=
  Except.ok.inj (hn.unique (hL.spendableEvm_gives ha c)).1

theorem topUp_ok : (L.topUp c hd q).Gives s (.ok u) t ↔
    (q.val = 0 ∧ u = .zero ∧ t = s) ∨
      (q.val ≠ 0 ∧ ∃ n, (L.spendableEvm c hd).Gives s (.ok n) s ∧
        ((q.val ≤ n.val ∧ u = .zero ∧ t = s) ∨ (n.val < q.val ∧ c.unitsFor (q.subSat n) = .ok u ∧
          (L.convert c hd u .cosmosToEvm).Gives s (.ok ()) t))) := by
  unfold topUp
  split
  · rename_i hq
    simp [gives_pure, Amount.isZero_iff.mp hq, @eq_comm _ u]
  · rename_i hq
    have hne : q.val ≠ 0 := fun h => hq (Amount.isZero_iff.mpr h)
    simp only [hne, false_and, ne_eq, not_false_eq_true, true_and, false_or, gives_bind_ok]
    constructor
    · rintro ⟨n, r, hn, h⟩
      obtain rfl : r = s := (spendableEvm_ok.mp hn).2
      refine ⟨n, hn, ?_⟩
      split at h
      · rename_i hle
        obtain ⟨⟨⟩, rfl⟩ := gives_pure.mp h
        exact .inl ⟨hle, rfl, rfl⟩
      · rename_i hgt
        simp only [gives_bind_ok, gives_ofExcept, gives_pure] at h
        obtain ⟨_, _, ⟨hu, rfl⟩, _, _, hc, ⟨⟩, rfl⟩ := h
        exact .inr ⟨Nat.not_le.mp hgt, hu, hc⟩
    · rintro ⟨n, hn, ⟨hle, rfl, rfl⟩ | ⟨hlt, hu, hc⟩⟩
      · refine ⟨n, t, hn, ?_⟩
        rw [if_pos (Amount.le_def.mpr hle)]
        exact gives_pure.mpr ⟨rfl, rfl⟩
      · refine ⟨n, s, hn, ?_⟩
        rw [if_neg fun h => Nat.not_le.mpr hlt (Amount.le_def.mp h)]
        simp only [gives_bind_ok, gives_ofExcept, gives_pure]
        exact ⟨u, s, ⟨hu, rfl⟩, (), t, hc, rfl, rfl⟩

/-- What a top-up does where less is there than was asked for. -/
theorem topUp_short (hn : (L.spendableEvm c hd).Gives s (.ok n) s) (hlt : n.val < q.val) :
    (L.topUp c hd q).Gives s x t ↔ Gives (do
      let units ← .ofExcept (c.unitsFor (q.subSat n))
      L.convert c hd units .cosmosToEvm
      pure units) s x t := by
  have hz : ¬q.isZero = true := Amount.isZero_iff.not.mpr (by omega)
  have hgt : ¬q ≤ n := fun hle => Nat.not_le.mpr hlt (Amount.le_def.mp hle)
  unfold topUp
  rw [if_neg hz, hn.bind_iff, if_neg hgt]

theorem sweepDust_ok : (L.sweepDust c hd).Gives s (.ok u) t ↔
    ∃ n, (L.spendableEvm c hd).Gives s (.ok n) s ∧ c.unitsIn n = .ok u ∧
      (L.convert c hd u .evmToCosmos).Gives s (.ok ()) t := by
  simp only [sweepDust, gives_bind_ok, gives_ofExcept]
  constructor
  · rintro ⟨n, _, hn, w, _, ⟨hw, rfl⟩, h⟩
    obtain rfl := (spendableEvm_ok.mp hn).2
    split at h
    · rename_i hz
      obtain ⟨⟨⟩, rfl⟩ := gives_pure.mp h
      have hw₀ : w = .zero := Amount.ext (Amount.isZero_iff.mp hz)
      subst hw₀
      exact ⟨n, hn, hw, gives_pure.mpr ⟨rfl, rfl⟩⟩
    · simp only [gives_bind_ok, gives_report, gives_pure] at h
      obtain ⟨_, _, hc, _, _, ⟨-, rfl⟩, ⟨⟩, rfl⟩ := h
      exact ⟨n, hn, hw, hc⟩
  · rintro ⟨n, hn, hu, hc⟩
    refine ⟨n, s, hn, u, s, ⟨hu, rfl⟩, ?_⟩
    split
    · rename_i hz
      rw [convert, if_pos hz] at hc
      have hu₀ : u = .zero := Amount.ext (Amount.isZero_iff.mp hz)
      exact gives_pure.mpr ⟨by rw [hu₀], (gives_pure.mp hc).2⟩
    · simp only [gives_bind_ok, gives_report, gives_pure]
      exact ⟨(), t, hc, (), t, ⟨trivial, rfl⟩, trivial, rfl⟩

theorem sweeps_cons_ok : ((hd :: hs).forM fun hd => do let _ ← L.sweepDust c hd).Gives s (.ok ()) t ↔
    ∃ u r, (L.sweepDust c hd).Gives s (.ok u) r ∧
      (hs.forM fun hd => do let _ ← L.sweepDust c hd).Gives r (.ok ()) t := by
  simp only [gives_forM_cons_ok, gives_bind_ok, gives_pure]
  constructor
  · rintro ⟨r, ⟨u, _, h, -, rfl⟩, hrest⟩
    exact ⟨u, r, h, hrest⟩
  · rintro ⟨u, r, h, hrest⟩
    exact ⟨r, ⟨u, r, h, trivial, rfl⟩, hrest⟩

namespace Carries

variable {hs : List Holder}

theorem topUp_posted (hL : L.Carries book) (h : (L.topUp c hd q).Gives s (.ok u) t) :
    (book s).Converts c hd u.val (book t) := by
  rcases topUp_ok.mp h with ⟨-, rfl, rfl⟩ | ⟨-, n, -, ⟨-, rfl, rfl⟩ | ⟨-, -, hc⟩⟩
  · exact .refl ..
  · exact .refl ..
  · exact hL.convert_posted hc

theorem sweepDust_posted (hL : L.Carries book) (h : (L.sweepDust c hd).Gives s (.ok u) t) :
    (book s).Converts c hd (-u.val) (book t) := by
  obtain ⟨n, -, -, hc⟩ := sweepDust_ok.mp h
  exact hL.convert_posted hc

theorem sweeps_posted (hL : L.Carries book) (hne : c.evmDenom ≠ c.cosmosDenom)
    (h : (hs.forM fun hd => do let _ ← L.sweepDust c hd).Gives s (.ok ()) t) :
    ∃ f, Neutral c (fun a => ∃ hd ∈ hs, (book s).addressOf hd = .ok a) f ∧
      (book s).Posted f (book t) := by
  induction hs generalizing s with
  | nil =>
    obtain ⟨-, rfl⟩ := gives_forM_nil.mp h
    exact ⟨0, neutral_zero, .refl _⟩
  | cons hd hs ih =>
    obtain ⟨u, r, h₁, h⟩ := sweeps_cons_ok.mp h
    obtain ⟨a, ha, hp⟩ := hL.sweepDust_posted h₁
    obtain ⟨f, hf, hpf⟩ := ih h
    refine ⟨_, (neutral_conversion hne fun hu => ?_).add (hf.mono ?_), hp.trans hpf⟩
    · exact ⟨hd, List.mem_cons_self, ha hu⟩
    · rintro x ⟨hd', hmem, hx⟩
      exact ⟨hd', List.mem_cons_of_mem _ hmem, (hp.settings.addressOf hd').symm.trans hx⟩

end Carries

end Ledger

end DualDenom
