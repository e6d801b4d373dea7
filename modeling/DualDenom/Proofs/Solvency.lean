import DualDenom.Proofs.Backing
import DualDenom.Proofs.KeeperLaws

/-!
# Solvency

On a sound book all that an account or an escrow is said to have can leave it.
A move whose amount is covered succeeds, and one that is not fails for want of
funds. The whole units are there when the amount is covered. If the evm units
are fewer than the remainder, one cosmos unit is left over to convert; if none
is left, the amount was not covered.
-/

namespace DualDenom

open DualDenom.Action Figures

namespace Book

/-- What a move meets: its call is a transfer from the one address to the other, and
all that take part have addresses and may receive. -/
structure Passes (b : Book) (f : Coins → Call) (source : Holder) (swept : List Holder)
    (x y : Address) : Prop where
  coins : ∀ cs, (f cs).coins = cs
  movement : ∀ cs, b.movement (f cs) = .ok (.transfer x y)
  apart : x ≠ y
  address : b.addressOf source = .ok x
  admits : b.Admits source
  swept : ∀ hd ∈ swept, b.Admits hd ∧ ∃ a, b.addressOf hd = .ok a

variable {b b' : Book} {f : Coins → Call} {source : Holder} {swept : List Holder}

theorem Passes.congr (hp : Passes b f source swept x y) (h : b.SameSettings b') :
    Passes b' f source swept x y where
  coins := hp.coins
  movement cs := (Book.movement_congr h _).trans (hp.movement cs)
  apart := hp.apart
  address := (h.addressOf source).trans hp.address
  admits := h.admits.mpr hp.admits
  swept hd hmem := by
    obtain ⟨hadm, a, ha⟩ := hp.swept hd hmem
    exact ⟨h.admits.mpr hadm, a, (h.addressOf hd).trans ha⟩

theorem passes_accountToModule (he : b.moduleAddress name = .ok e) (hadm : b.Admits (.account a))
    (hne : a ≠ e) :
    b.Passes (.accountToModule a name) (.account a) [.account a, .escrow name] a e where
  coins _ := rfl
  movement _ := movement_accountToModule.mpr ⟨e, he, rfl⟩
  apart := hne
  address := rfl
  admits := hadm
  swept := by
    simp only [List.mem_cons, List.not_mem_nil, or_false]
    rintro hd (rfl | rfl)
    · exact ⟨hadm, a, rfl⟩
    · exact ⟨trivial, e, he⟩

theorem passes_moduleToAccount (he : b.moduleAddress name = .ok e) (hadm : b.Admits (.account a))
    (hne : a ≠ e) : b.Passes (.moduleToAccount name a) (.escrow name) [.account a] e a where
  coins _ := rfl
  movement _ := movement_moduleToAccount.mpr ⟨e, he, hadm, rfl⟩
  apart := hne.symm
  address := he
  admits := trivial
  swept := by
    simp only [List.mem_singleton]
    rintro hd rfl
    exact ⟨hadm, a, rfl⟩

end Book

namespace Ledger.Mirrors

variable {L : Ledger σ} {book : σ → Book} {k : Keeper} {hd : Holder} {q : Amount}

-- ---------------------------------------------------------------------------
-- Top-ups
-- ---------------------------------------------------------------------------

theorem topUp_succeeds (hL : L.Mirrors book) (hS : (book s).Sound k.config)
    (hm : k.config.multiplier.val ≤ 2 ^ 127) (hadm : (book s).Admits hd)
    (ha : (book s).addressOf hd = .ok a) (hq : q.val < k.config.multiplier.val)
    (hcov : q.val ≤ ((book s).balance a k.config.evmDenom).val ∨
      1 ≤ ((book s).balance a k.config.cosmosDenom).val) :
    ∃ u t, (L.topUp k.config hd q).Gives s (.ok u) t := by
  by_cases hz : q.val = 0
  · exact ⟨.zero, s, topUp_ok.mpr (.inl ⟨hz, rfl, rfl⟩)⟩
  have hn := hL.spendableEvm_gives ha k.config
  have hsp := hS.backed.spendable_val a k.config.evmDenom
  by_cases hle : q.val ≤ ((book s).spendable a k.config.evmDenom).val
  · exact ⟨.zero, s, topUp_ok.mpr (.inr ⟨hz, _, hn, .inl ⟨hle, rfl, rfl⟩⟩)⟩
  have hu := Config.unitsFor_one hm hq (Nat.not_le.mp hle)
  have hone : k.config.multiplier.val = Amount.one.val * k.config.multiplier.val := by
    rw [Amount.val_one, Nat.one_mul]
  obtain ⟨t, ht⟩ := hL.convert_succeeds (d := .cosmosToEvm) hS hadm ha hone
    (hcov.resolve_left (by omega))
  exact ⟨.one, t, topUp_ok.mpr (.inr ⟨hz, _, hn, .inr ⟨Nat.not_le.mp hle, hu, ht⟩⟩)⟩

theorem topUp_covers (hL : L.Mirrors book) (ha : (book s).addressOf hd = .ok a)
    (hq : q.val < k.config.multiplier.val) (h : (L.topUp k.config hd q).Gives s (.ok u) t) :
    q.val ≤ ((book t).balance a k.config.evmDenom).val := by
  have hp := (hL.carries.topUp_posted h).posted ha
  rcases topUp_ok.mp h with ⟨hz, -⟩ | ⟨-, n, hn, ⟨hle, -, rfl⟩ | ⟨hlt, hu, -⟩⟩
  · omega
  · obtain rfl := hL.spendableEvm_eq ha hn
    exact hle.trans (Sheet.spendable_le_balance ..)
  · have hone := Config.unitsFor_small hu hq hlt
    have hbal := hp.balance a k.config.evmDenom
    rw [balance_conversion, if_pos rfl, k.config.rate_evm k.evm_ne_cosmos, hone] at hbal
    omega

theorem topUp_overdraws (hL : L.Mirrors book) (hS : (book s).Sound k.config)
    (hm : k.config.multiplier.val ≤ 2 ^ 127) (ha : (book s).addressOf hd = .ok a)
    (hq : q.val < k.config.multiplier.val)
    (hlt : ((book s).balance a k.config.evmDenom).val < q.val)
    (hnone : ((book s).balance a k.config.cosmosDenom).val = 0) :
    Overdraws (L.topUp k.config hd q) s := by
  have hn := hL.spendableEvm_gives ha k.config
  have hsp := hS.backed.spendable_val a k.config.evmDenom
  have hshort : ((book s).spendable a k.config.evmDenom).val < q.val := hsp.trans_lt hlt
  have hgt : ¬q ≤ (book s).spendable a k.config.evmDenom := Nat.not_le.mpr hshort
  have hu : (ofExcept (k.config.unitsFor (q.subSat ((book s).spendable a k.config.evmDenom))) :
      Bridge σ Amount).Gives s (.ok .one) s :=
    gives_ofExcept.mpr ⟨Config.unitsFor_one hm hq hshort, rfl⟩
  have hone : k.config.multiplier.val = Amount.one.val * k.config.multiplier.val := by
    rw [Amount.val_one, Nat.one_mul]
  have hconv : Overdraws (L.convert k.config hd .one .cosmosToEvm) s :=
    hL.convert_overdraws hS ha hone (by simp) (by
      simp only [Config.sourceCoin, Config.cosmosCoin, hnone, Amount.val_one]
      omega)
  have hnz : q.isZero ≠ true := Amount.isZero_iff.not.mpr (by omega)
  rw [topUp, if_neg hnz]
  refine Overdraws.after ?_ hn
  rw [if_neg hgt]
  refine Overdraws.after ?_ hu
  exact hconv.bind _

-- ---------------------------------------------------------------------------
-- Sweeps
-- ---------------------------------------------------------------------------

theorem sweepDust_succeeds (hL : L.Mirrors book) (hS : (book s).Sound k.config)
    (hadm : (book s).Admits hd) (ha : (book s).addressOf hd = .ok a) :
    ∃ u t, (L.sweepDust k.config hd).Gives s (.ok u) t := by
  have hn := hL.spendableEvm_gives ha k.config
  have hsp := hS.backed.spendable_val a k.config.evmDenom
  obtain ⟨u, hu, hle⟩ :=
    Config.unitsIn_succeeds k.multiplier_ne_zero ((book s).spendable a k.config.evmDenom)
  obtain ⟨evm, he⟩ : ∃ evm : Amount, evm.val = u.val * k.config.multiplier.val :=
    ⟨⟨_, hle.trans_lt (Amount.isLt _)⟩, rfl⟩
  obtain ⟨t, ht⟩ := hL.convert_succeeds (d := .evmToCosmos) hS hadm ha he (he ▸ hle.trans_eq hsp)
  exact ⟨u, t, sweepDust_ok.mpr ⟨_, hn, hu, ht⟩⟩

theorem sweeps_succeed {hs : List Holder} (hL : L.Mirrors book) (hS : (book s).Sound k.config)
    (h : ∀ hd ∈ hs, (book s).Admits hd ∧ ∃ a, (book s).addressOf hd = .ok a) :
    ∃ t, (hs.forM fun hd => do let _ ← L.sweepDust k.config hd).Gives s (.ok ()) t := by
  induction hs generalizing s with
  | nil => exact ⟨s, gives_forM_nil.mpr ⟨rfl, rfl⟩⟩
  | cons hd hs ih =>
    obtain ⟨hadm, a, ha⟩ := h hd List.mem_cons_self
    obtain ⟨u, r, hr⟩ := hL.sweepDust_succeeds hS hadm ha
    have hconv := hL.carries.sweepDust_posted hr
    have hS' := hS.converts k.evm_ne_cosmos hconv
    obtain ⟨_, -, hp⟩ := hconv
    obtain ⟨t, ht⟩ := ih hS' fun hd' hmem => by
      obtain ⟨hadm', a', ha'⟩ := h hd' (List.mem_cons_of_mem _ hmem)
      exact ⟨hp.settings.admits.mpr hadm', a', (hp.settings.addressOf hd').trans ha'⟩
    exact ⟨t, sweeps_cons_ok.mpr ⟨u, r, hr, ht⟩⟩

-- ---------------------------------------------------------------------------
-- Moves
-- ---------------------------------------------------------------------------

variable {f : Coins → Call} {source : Holder} {swept : List Holder} {sp : Split}

theorem callUnlessZero_succeeds (hL : L.Mirrors book) (hb : (book s).Backed)
    (hp : (book s).Passes f source swept x y) (hw : c.denom.wellFormed = true)
    (hle : c.amount.val ≤ ((book s).balance x c.denom).val) :
    ∃ t, (Keeper.callUnlessZero L c f).Gives s (.ok ()) t := by
  by_cases hz : c.amount.val = 0
  · exact ⟨s, Keeper.callUnlessZero_ok.mpr (.inl ⟨hz, rfl⟩)⟩
  · obtain ⟨t, ht, -⟩ := hL.call_succeeds hb (hp.movement [c]) (hp.coins [c]) hw hz hle
    exact ⟨t, Keeper.callUnlessZero_ok.mpr (.inr ⟨hz, ht⟩)⟩

theorem wholeLeg_leaves (hL : L.Mirrors book) (hS : (book s).Sound k.config)
    (hp : (book s).Passes f source swept x y)
    (h : (Keeper.callUnlessZero L (k.config.wholeCoin sp) f).Gives s (.ok ()) t) :
    (book t).Sound k.config ∧ (book s).SameSettings (book t) ∧
      ((book t).balance x k.config.cosmosDenom).val + sp.whole.val =
        ((book s).balance x k.config.cosmosDenom).val ∧
      ((book t).balance x k.config.evmDenom).val = ((book s).balance x k.config.evmDenom).val := by
  have hpw := hL.carries.callUnlessZero_posted hp.coins
    (fun cs m hm => Except.ok.inj (hm.symm.trans (hp.movement cs))) h
  have hcosmos := hpw.balance x k.config.cosmosDenom
  have hevm := hpw.balance x k.config.evmDenom
  simp only [Movement.coinFigures, balance_add, balance_neg, balance_inHand, Config.wholeCoin,
    Config.cosmosCoin, hp.apart, k.evm_ne_cosmos, and_self, and_false, false_and, if_true, if_false,
    neg_zero, add_zero] at hcosmos hevm
  refine ⟨hS.posted hpw (Movement.held_coinFigures _ _) ?_, hpw.settings, by omega, by omega⟩
  simp [Movement.coinFigures, Config.worth]

theorem moveSplit_succeeds (hL : L.Mirrors book) (hS : (book s).Sound k.config)
    (hm : k.config.multiplier.val ≤ 2 ^ 127) (hp : (book s).Passes f source swept x y)
    (hdust : ((book s).balance x k.config.evmDenom).val < k.config.multiplier.val)
    (hrem : sp.remainder.val < k.config.multiplier.val)
    (hcov : sp.whole.val * k.config.multiplier.val + sp.remainder.val ≤
      ((book s).balance x k.config.cosmosDenom).val * k.config.multiplier.val +
        ((book s).balance x k.config.evmDenom).val) :
    ∃ t, (k.moveSplit L sp source swept f).Gives s (.ok ()) t := by
  have hwhole : sp.whole.val ≤ ((book s).balance x k.config.cosmosDenom).val := by
    by_contra hgt
    have := Nat.mul_le_mul_right k.config.multiplier.val (Nat.not_le.mp hgt)
    rw [Nat.succ_mul] at this
    omega
  obtain ⟨r, hr⟩ := hL.callUnlessZero_succeeds (c := k.config.wholeCoin sp) hS.backed hp
    k.cosmos_wellFormed hwhole
  obtain ⟨hS₁, hs₁, hcosmos, hevm⟩ := hL.wholeLeg_leaves hS hp hr
  by_cases hz : sp.remainder.val = 0
  · exact ⟨r, Keeper.moveSplit_ok.mpr ⟨r, hr, .inl ⟨hz, rfl⟩⟩⟩
  have hp₁ := hp.congr hs₁
  -- With too few evm units for the remainder the whole units cannot have been all there were.
  have hunit : sp.remainder.val ≤ ((book r).balance x k.config.evmDenom).val ∨
      1 ≤ ((book r).balance x k.config.cosmosDenom).val := by
    by_contra hnone
    have heq : sp.whole.val = ((book s).balance x k.config.cosmosDenom).val := by omega
    rw [heq] at hcov
    omega
  obtain ⟨u, p, ht⟩ := hL.topUp_succeeds hS₁ hm hp₁.admits hp₁.address hrem hunit
  have hS₂ := hS₁.converts k.evm_ne_cosmos (hL.carries.topUp_posted ht)
  obtain ⟨_, -, hpt⟩ := hL.carries.topUp_posted ht
  have hp₂ := hp₁.congr hpt.settings
  obtain ⟨q, hq, hpq, -⟩ := hL.call_succeeds hS₂.backed (hp₂.movement [k.config.remainderCoin sp])
    (hp₂.coins _) k.evm_wellFormed hz (hL.topUp_covers hp₁.address hrem ht)
  have hS₃ : (book q).Sound k.config := hS₂.posted hpq (Movement.held_coinFigures _ _)
    (by simp [Movement.coinFigures, Config.worth])
  obtain ⟨t, hs⟩ := hL.sweeps_succeed hS₃ (hp₂.congr hpq.settings).swept
  exact ⟨t, Keeper.moveSplit_ok.mpr ⟨r, hr, .inr ⟨hz, u, p, q, ht, hq, hs⟩⟩⟩

/-- A move that is not covered fails for want of funds: at its whole leg, or at the top-up
when all the whole units there were have gone. -/
theorem moveSplit_overdraws (hL : L.Mirrors book) (hS : (book s).Sound k.config)
    (hm : k.config.multiplier.val ≤ 2 ^ 127) (hp : (book s).Passes f source swept x y)
    (hrem : sp.remainder.val < k.config.multiplier.val)
    (hcov : ((book s).balance x k.config.cosmosDenom).val * k.config.multiplier.val +
        ((book s).balance x k.config.evmDenom).val <
      sp.whole.val * k.config.multiplier.val + sp.remainder.val) :
    Overdraws (k.moveSplit L sp source swept f) s := by
  by_cases hwhole : sp.whole.val ≤ ((book s).balance x k.config.cosmosDenom).val
  · obtain ⟨r, hr⟩ := hL.callUnlessZero_succeeds (c := k.config.wholeCoin sp) hS.backed hp
      k.cosmos_wellFormed hwhole
    obtain ⟨hS₁, hs₁, hcosmos, hevm⟩ := hL.wholeLeg_leaves hS hp hr
    have hall : sp.whole.val = ((book s).balance x k.config.cosmosDenom).val := by
      by_contra hne
      have hlt : sp.whole.val < ((book s).balance x k.config.cosmosDenom).val := by omega
      have := Nat.mul_le_mul_right k.config.multiplier.val hlt
      rw [Nat.succ_mul] at this
      omega
    rw [hall] at hcov
    have htop : Overdraws (L.topUp k.config source sp.remainder) r :=
      hL.topUp_overdraws hS₁ hm (hp.congr hs₁).address hrem (by omega) (by omega)
    have hnz : sp.remainder.isZero ≠ true := Amount.isZero_iff.not.mpr (by omega)
    rw [Keeper.moveSplit]
    refine Overdraws.after ?_ hr
    rw [if_neg hnz]
    exact htop.bind _
  · have hsome : sp.whole.val ≠ 0 := by omega
    have hnz : (k.config.wholeCoin sp).amount.isZero ≠ true := Amount.isZero_iff.not.mpr hsome
    have hcall : Overdraws (Keeper.callUnlessZero L (k.config.wholeCoin sp) f) s := by
      rw [Keeper.callUnlessZero, if_neg hnz]
      exact hL.call_overdraws hS.backed (hp.movement _) rfl (hp.coins _) k.cosmos_wellFormed
        (Nat.not_le.mp hwhole)
    rw [Keeper.moveSplit]
    exact hcall.bind _

end Ledger.Mirrors

-- ---------------------------------------------------------------------------
-- What is said to be there
-- ---------------------------------------------------------------------------

/-- Moves of amounts up to what `x` is said to have succeed, and those of more fail for
want of funds. -/
def Keeper.PaysOut (k : Keeper) (L : Ledger σ) (s : σ) (x : Address)
    (move : Coins → Bridge σ Unit) : Prop :=
  ∃ v, (k.balance L x k.config.evmDenom).Gives s (.ok (k.config.evmCoin v)) s ∧ ∀ n : Amount,
    (n ≤ v → ∃ t, (move [k.config.evmCoin n]).Gives s (.ok ()) t) ∧
    (v < n → Overdraws (move [k.config.evmCoin n]) s)

namespace Ledger.Mirrors

variable {L : Ledger σ} {book : σ → Book} {k : Keeper}

theorem balance_gives (hL : L.Mirrors book) (hS : (book s).Sound k.config) (x : Address) :
    ∃ v : Amount, v.val = ((book s).balance x k.config.cosmosDenom).val * k.config.multiplier.val +
        ((book s).balance x k.config.evmDenom).val ∧
      (k.balance L x k.config.evmDenom).Gives s (.ok (k.config.evmCoin v)) s := by
  have hlt : ((book s).balance x k.config.cosmosDenom).val * k.config.multiplier.val +
      ((book s).balance x k.config.evmDenom).val < Amount.bound := by
    have hcosmos := Nat.mul_le_mul_right k.config.multiplier.val
      (hS.backed.balance_le_supply x k.config.cosmosDenom)
    have hevm := hS.backed.balance_le_supply x k.config.evmDenom
    have hworth := hS.supplyWorth_lt
    omega
  refine ⟨⟨_, hlt⟩, rfl, Keeper.balance_ok.mpr ⟨rfl, rfl, _, _, hL.spendableCoins s x, ?_, rfl⟩⟩
  simp only [Split.merge_ok, Book.amountOf_spendableCoins, hS.backed.spendable_val]

theorem paysOut (hL : L.Mirrors book) (hS : (book s).Sound k.config)
    (hm : k.config.multiplier.val ≤ 2 ^ 127) (hp : (book s).Passes f source swept x y)
    (hdust : ((book s).balance x k.config.evmDenom).val < k.config.multiplier.val)
    {move : Coins → Bridge σ Unit}
    (hmove : ∀ cs, move cs = do let sp ← k.split cs; k.moveSplit L sp source swept f) :
    k.PaysOut L s x move := by
  obtain ⟨v, hv, hbal⟩ := hL.balance_gives hS x
  refine ⟨v, hbal, fun n => ?_⟩
  obtain ⟨sp, hsp, hn⟩ := k.split_evmCoin n s
  have hrem := Keeper.split_remainder hsp
  rw [Split.merge_ok] at hn
  rw [hmove, Amount.le_def, Amount.lt_def, hn, hv]
  constructor
  · intro hcov
    obtain ⟨t, ht⟩ := hL.moveSplit_succeeds hS hm hp hdust hrem hcov
    exact ⟨t, gives_bind_ok.mpr ⟨sp, s, hsp, ht⟩⟩
  · intro hcov
    refine Overdraws.after ?_ hsp
    exact hL.moveSplit_overdraws hS hm hp hrem hcov

end Ledger.Mirrors

/-- All that an account or an escrow is said to have can be moved, and no more. -/
theorem Keeper.moves_pay_out {k : Keeper} {r : Recorded Book}
    (hm : k.config.multiplier.val ≤ 2 ^ 127)
    (hminter : r.ledger.addressWith k.config.conversionModule .minter = .ok c)
    (hburner : r.ledger.addressWith k.config.conversionModule .burner = .ok c')
    (hsum : ∀ d, ∑ᶠ x, (r.ledger.balance x d).val = (r.ledger.supply d).val)
    (hvalue : r.ledger.supplyValue k.config = .ok v)
    (hlocked : ∀ x d, (r.ledger.locked x d).val = 0)
    (he : r.ledger.moduleAddress name = .ok e) (hblocked : r.ledger.checkNotBlocked a = .ok ())
    (hne : a ≠ e) :
    ((r.ledger.balance a k.config.evmDenom).val < k.config.multiplier.val →
      k.PaysOut Book.ledger.recorded r a (k.accountToModule Book.ledger.recorded a name)) ∧
    ((r.ledger.balance e k.config.evmDenom).val < k.config.multiplier.val →
      k.PaysOut Book.ledger.recorded r e (k.moduleToAccount Book.ledger.recorded name a)) := by
  have hadm := Book.checkNotBlocked_ok.mp hblocked
  have hS : r.ledger.Sound k.config := Book.sound_of hsum hlocked hvalue hminter hburner
  have hto := Book.passes_accountToModule he hadm hne
  have hfrom := Book.passes_moduleToAccount he hadm hne
  exact ⟨fun hdust => Book.mirrors_recorded.paysOut hS hm hto hdust fun _ => rfl,
    fun hdust => Book.mirrors_recorded.paysOut hS hm hfrom hdust fun _ => rfl⟩

theorem Book.small_backed : Book.small.Backed := by
  have h := gives_of_toOption (m := Book.smallFunds) (s := Book.smallModules) (a := ())
    (by decide +kernel)
  obtain ⟨_, b, h₁, h₂⟩ := gives_bind_ok.mp h
  exact (((Book.backed_empty.addModule ..).addModule ..).fund h₁).fund h₂

theorem moves_pay_out_small :
    let k := Keeper.standard
    let L := Book.ledger.recorded
    let r := Recorded.start Book.small
    k.PaysOut L r "alice" (k.accountToModule L "alice" "fee") ∧
      k.PaysOut L r "fee_module_account" (k.moduleToAccount L "fee" "alice") := by
  intro k L r
  have hstart : r.ledger = Book.small := by simp only [r, Recorded.start]
  have hbacked : r.ledger.Backed := hstart ▸ Book.small_backed
  have hminter : r.ledger.addressWith k.config.conversionModule .minter = .ok "evm_module_account" :=
    ok_of_toOption (by decide +kernel)
  have hburner : r.ledger.addressWith k.config.conversionModule .burner = .ok "evm_module_account" :=
    ok_of_toOption (by decide +kernel)
  have hsum : ∀ d, ∑ᶠ x, (r.ledger.balance x d).val = (r.ledger.supply d).val := fun d =>
    (Book.finsum_balance ..).trans (hbacked.total d)
  have hvalue : r.ledger.supplyValue k.config = .ok ⟨7999999999993, by decide⟩ :=
    ok_of_toOption (by decide +kernel)
  have he : r.ledger.moduleAddress "fee" = .ok "fee_module_account" :=
    ok_of_toOption (by decide +kernel)
  have hblocked : r.ledger.checkNotBlocked "alice" = .ok () := ok_of_toOption (by decide +kernel)
  have h := Keeper.moves_pay_out (k := k) (r := r) (by decide +kernel) hminter hburner hsum hvalue
    hbacked.unlocked he hblocked (by decide)
  exact ⟨h.1 (by decide +kernel), h.2 (by decide +kernel)⟩

end DualDenom
