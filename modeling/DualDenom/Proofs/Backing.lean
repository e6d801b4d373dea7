import DualDenom.Proofs.ConversionLaws
import DualDenom.Proofs.Worth

/-!
# Backed books

A book is backed when all addresses together have what was issued, of every
denom, and nothing is locked. Then an amount that the source has, or that the
supply has room for, is all that a call needs to succeed; without it the call
fails for want of funds. A book is sound for a configuration when moreover its
supply is worth an amount and the conversion escrow may mint and burn. Then no
conversion overflows: what it issues of one denom was backed by the other.
-/

namespace DualDenom

open DualDenom.Action Figures

-- ---------------------------------------------------------------------------
-- Backing
-- ---------------------------------------------------------------------------

structure Book.Backed (b : Book) : Prop where
  total : ∀ d, (b.sheet d).total = (b.supply d).val
  unlocked : ∀ a d, (b.locked a d).val = 0

namespace Book.Backed

variable {b b' : Book} {f : Figures}

theorem spendable_val (hb : b.Backed) (a : Address) (d : Denom) :
    (b.spendable a d).val = (b.balance a d).val := by
  rw [Book.spendable_val, hb.unlocked, Nat.sub_zero]

theorem balance_le_supply (hb : b.Backed) (a : Address) (d : Denom) :
    (b.balance a d).val ≤ (b.supply d).val := hb.total d ▸ Sheet.balance_le_total ..

theorem posted (hb : b.Backed) (hp : b.Posted f b') (hf : ∀ d, f.held d = f.supply d) :
    b'.Backed where
  total d := by
    have hheld := hp.held d
    have hsup := hp.supply d
    have htotal := hb.total d
    rw [hf d] at hheld
    omega
  unlocked a d := by rw [hp.settings.locked, hb.unlocked]

end Book.Backed

-- ---------------------------------------------------------------------------
-- One call
-- ---------------------------------------------------------------------------

namespace Movement

variable {m : Movement} {b b' : Book} {coin : Coin}

/-- The source has the coin, or the supply has room for it. -/
def Fits (b : Book) (coin : Coin) : Movement → Prop
  | .transfer source _ | .destroy source => coin.amount.val ≤ (b.balance source coin.denom).val
  | .create _ => (b.supply coin.denom).val + coin.amount.val < Amount.bound

theorem held_coinFigures (m : Movement) (coin : Coin) (d : Denom) :
    (m.coinFigures coin).held d = (m.coinFigures coin).supply d := by
  cases m <;> simp [coinFigures]

theorem carryCoin_succeeds (hb : b.Backed) (hf : m.Fits b coin) :
    ∃ b', (m.carryCoin coin).Gives b (.ok ()) b' := by
  have htotal := hb.total coin.denom
  cases m with
  | transfer source target =>
    exact transfer_succeeds (by rwa [hb.spendable_val]) (htotal ▸ (b.supply coin.denom).isLt)
  | create target => exact create_succeeds (by rwa [htotal]) hf
  | destroy source =>
    exact destroy_succeeds (by rwa [hb.spendable_val]) (hf.trans (hb.balance_le_supply ..))

theorem held_figures (m : Movement) (cs : Coins) (d : Denom) :
    (m.figures cs).held d = (m.figures cs).supply d := by
  induction cs with
  | nil => rfl
  | cons coin cs ih => rw [figures_cons, held_add, supply_add, held_coinFigures, ih]

end Movement

namespace Book

variable {b b' : Book}

theorem backed_empty : empty.Backed := ⟨fun _ => rfl, fun _ _ => rfl⟩

theorem Backed.addModule (hb : b.Backed) (name : ModuleName) (ps : List Permission) :
    (b.addModule name ps).Backed := ⟨hb.total, hb.unlocked⟩

theorem Backed.fund (hb : b.Backed) (h : (Book.fund a cs).Gives b (.ok ()) b') : b'.Backed :=
  hb.posted (Movement.carryOut_posted (m := .create a) h) (Movement.held_figures _ cs)

end Book

def Action.Overdraws (m : Bridge σ α) (s : σ) : Prop :=
  ∃ a d available required t,
    m.Gives s (.error (.ledger (.insufficientFunds a d available required))) t

theorem Action.Overdraws.bind {m : Bridge σ α} (h : m.Overdraws s) (f : α → Bridge σ β) :
    (m >>= f).Overdraws s := by
  obtain ⟨a, d, available, required, t, h⟩ := h
  exact ⟨a, d, available, required, t, gives_bind_error.mpr (.inl h)⟩

theorem Action.Overdraws.after {m : Bridge σ α} {f : α → Bridge σ β} (hf : (f x).Overdraws t)
    (h : m.Gives s (.ok x) t) : (m >>= f).Overdraws s := by
  obtain ⟨a, d, available, required, u, hf⟩ := hf
  exact ⟨a, d, available, required, u, gives_bind_error.mpr (.inr ⟨x, t, h, hf⟩)⟩

namespace Ledger.Mirrors

variable {L : Ledger σ} {book : σ → Book} {cl : Call} {coin : Coin} {m : Movement}

theorem call_succeeds (hL : L.Mirrors book) (hb : (book s).Backed)
    (hm : (book s).movement cl = .ok m) (hcs : cl.coins = [coin])
    (hw : coin.denom.wellFormed = true) (hz : coin.amount.val ≠ 0) (hf : m.Fits (book s) coin) :
    ∃ t, (L.call cl).Gives s (.ok ()) t ∧ (book s).Posted (m.coinFigures coin) (book t) ∧
      (book t).Backed := by
  obtain ⟨b', h⟩ := Movement.carryCoin_succeeds hb hf
  have hsub : (Book.submit cl).Gives (book s) (.ok ()) b' :=
    (Book.submit_of_movement hm).mpr (hcs ▸ (Movement.carryOut_singleton hw hz).mpr h)
  obtain ⟨t, ht, rfl⟩ := hL.submit_gives hsub
  have hp := Movement.carryCoin_posted h
  exact ⟨t, gives_mapError_ok.mpr ht, hp, hb.posted hp (m.held_coinFigures coin)⟩

theorem call_overdraws (hL : L.Mirrors book) (hb : (book s).Backed)
    (hm : (book s).movement cl = .ok m) (ha : m.source? = some a) (hcs : cl.coins = [coin])
    (hw : coin.denom.wellFormed = true)
    (hlt : ((book s).balance a coin.denom).val < coin.amount.val) : Overdraws (L.call cl) s := by
  have hsp := hb.spendable_val a coin.denom
  have hfail := m.carryCoin_fails (b := book s) (c := coin) ha (by omega)
  obtain ⟨t, ht, -⟩ := hL.submit_gives <| (Book.submit_of_movement hm).mpr <|
    hcs ▸ (Movement.carryOut_singleton hw (by omega)).mpr hfail
  exact ⟨_, _, _, _, t, gives_mapError_error.mpr ⟨_, ht, rfl⟩⟩

end Ledger.Mirrors

-- ---------------------------------------------------------------------------
-- Soundness for a configuration
-- ---------------------------------------------------------------------------

structure Book.Sound (c : Config) (b : Book) : Prop where
  backed : b.Backed
  valued : b.supplyWorth c < Amount.bound
  escrow : ∃ e, b.addressWith c.conversionModule .minter = .ok e ∧
    b.addressWith c.conversionModule .burner = .ok e

theorem Book.sound_of {b : Book} {c : Config} {v : Amount}
    (hsum : ∀ d, ∑ᶠ x, (b.balance x d).val = (b.supply d).val)
    (hlocked : ∀ x d, (b.locked x d).val = 0) (hvalue : b.supplyValue c = .ok v)
    (hminter : b.addressWith c.conversionModule .minter = .ok e)
    (hburner : b.addressWith c.conversionModule .burner = .ok e') : b.Sound c := by
  obtain rfl : e = e' := Except.ok.inj ((moduleAddress_of_addressWith hminter).symm.trans
    (moduleAddress_of_addressWith hburner))
  refine ⟨⟨fun d => ?_, hlocked⟩, ?_, e, hminter, hburner⟩
  · rw [← finsum_balance, hsum]
  · rw [← supplyValue_ok.mp hvalue]
    exact_mod_cast v.isLt

namespace Book.Sound

variable {c : Config} {b b' : Book} {f : Figures} {units evm : Amount} {d : Direction}

theorem posted (hS : b.Sound c) (hp : b.Posted f b') (hf : ∀ d, f.held d = f.supply d)
    (hworth : c.worth f.supply = 0) : b'.Sound c where
  backed := hS.backed.posted hp hf
  valued := by
    rw [hp.supplyWorth, hworth, add_zero]
    exact hS.valued
  escrow := by
    obtain ⟨e, hm, hb⟩ := hS.escrow
    exact ⟨e, by rw [hp.settings.addressWith, hm], by rw [hp.settings.addressWith, hb]⟩

theorem converts (hS : b.Sound c) (hne : c.evmDenom ≠ c.cosmosDenom) (h : b.Converts c hd u b') :
    b'.Sound c := by
  obtain ⟨a, -, hp⟩ := h
  exact hS.posted hp (fun _ => rfl) (c.worth_rate hne u)

theorem supplyWorth_lt (hS : b.Sound c) :
    (b.supply c.cosmosDenom).val * c.multiplier.val + (b.supply c.evmDenom).val < Amount.bound := by
  have h := hS.valued
  simp only [supplyWorth, Config.worth] at h
  exact_mod_cast h

theorem room (hS : b.Sound c) (hm : 0 < c.multiplier.val) (he : evm.val = units.val * c.multiplier.val)
    (ha : (c.sourceCoin units evm d).amount.val ≤
      (b.balance a (c.sourceCoin units evm d).denom).val) :
    (b.supply (c.targetCoin units evm d).denom).val + (c.targetCoin units evm d).amount.val <
      Amount.bound := by
  have hle := ha.trans (hS.backed.balance_le_supply ..)
  have hworth := hS.supplyWorth_lt
  cases d with
  | cosmosToEvm =>
    have hmul := Nat.mul_le_mul_right c.multiplier.val hle
    simp only [Config.sourceCoin, Config.targetCoin, Config.cosmosCoin, Config.evmCoin] at hmul ⊢
    omega
  | evmToCosmos =>
    have hmul : ((b.supply c.cosmosDenom).val + units.val) * 1 ≤
        ((b.supply c.cosmosDenom).val + units.val) * c.multiplier.val := Nat.mul_le_mul_left _ hm
    rw [Nat.add_mul, Nat.add_mul] at hmul
    simp only [Config.sourceCoin, Config.targetCoin, Config.cosmosCoin, Config.evmCoin] at hle ⊢
    omega

end Book.Sound

-- ---------------------------------------------------------------------------
-- Conversions
-- ---------------------------------------------------------------------------

theorem Keeper.coins_proper (k : Keeper) {units evm : Amount} (d : Direction) (hu : units.val ≠ 0)
    (he : evm.val = units.val * k.config.multiplier.val) :
    ((k.config.sourceCoin units evm d).denom.wellFormed = true ∧
      (k.config.sourceCoin units evm d).amount.val ≠ 0) ∧
    ((k.config.targetCoin units evm d).denom.wellFormed = true ∧
      (k.config.targetCoin units evm d).amount.val ≠ 0) ∧
    (k.config.targetCoin units evm d).denom ≠ (k.config.sourceCoin units evm d).denom := by
  have hevm : evm.val ≠ 0 := by
    rw [he]
    exact Nat.mul_ne_zero hu k.multiplier_ne_zero
  cases d with
  | cosmosToEvm => exact ⟨⟨k.cosmos_wellFormed, hu⟩, ⟨k.evm_wellFormed, hevm⟩, k.evm_ne_cosmos⟩
  | evmToCosmos => exact ⟨⟨k.evm_wellFormed, hevm⟩, ⟨k.cosmos_wellFormed, hu⟩, k.evm_ne_cosmos.symm⟩

structure Book.Exchanges (b : Book) (name : ModuleName) (e : Address) (src tgt : Coin) : Prop where
  backed : b.Backed
  burner : b.addressWith name .burner = .ok e
  minter : b.addressWith name .minter = .ok e
  source : src.denom.wellFormed = true ∧ src.amount.val ≠ 0
  target : tgt.denom.wellFormed = true ∧ tgt.amount.val ≠ 0
  apart : tgt.denom ≠ src.denom
  room : (b.supply tgt.denom).val + tgt.amount.val < Amount.bound

namespace Book.Exchanges

variable {b b' : Book} {src tgt coin : Coin}

theorem moduleAddress (hx : b.Exchanges name e src tgt) : b.moduleAddress name = .ok e :=
  moduleAddress_of_addressWith hx.burner

theorem transferred (hx : b.Exchanges name e src tgt)
    (hp : b.Posted ((Movement.transfer x y).coinFigures coin) b') : b'.Exchanges name e src tgt where
  backed := hx.backed.posted hp (Movement.held_coinFigures _ _)
  burner := (hp.settings.addressWith name .burner).trans hx.burner
  minter := (hp.settings.addressWith name .minter).trans hx.minter
  source := hx.source
  target := hx.target
  apart := hx.apart
  room := by
    have hsup := hp.supply tgt.denom
    have hroom := hx.room
    simp only [Movement.coinFigures, supply_add, supply_neg, supply_inHand, neg_zero, add_zero] at hsup
    omega

end Book.Exchanges

namespace Ledger.Mirrors

variable {L : Ledger σ} {book : σ → Book} {k : Keeper} {hd : Holder} {units evm : Amount}
  {d : Direction} {src tgt : Coin}

theorem exchange_succeeds (hL : L.Mirrors book) (hx : (book s).Exchanges name e src tgt)
    (hle : src.amount.val ≤ ((book s).balance e src.denom).val) :
    ∃ r t, (L.call (.burn name [src])).Gives s (.ok ()) r ∧
      (L.call (.mint name [tgt])).Gives r (.ok ()) t ∧ (book t).Backed ∧
      (book s).Posted (-inHand e src + -inIssue src + (inHand e tgt + inIssue tgt)) (book t) := by
  obtain ⟨r, hr, hpr, hbr⟩ := hL.call_succeeds hx.backed
    (Book.movement_burn.mpr ⟨e, hx.burner, rfl⟩) rfl hx.source.1 hx.source.2 hle
  have hroom := hx.room
  have hsup := hpr.supply tgt.denom
  simp only [Movement.coinFigures, supply_add, supply_neg, supply_inHand, supply_inIssue, hx.apart,
    if_false, neg_zero, add_zero] at hsup
  have hfits : (Movement.create e).Fits (book r) tgt := by
    show ((book r).supply tgt.denom).val + tgt.amount.val < Amount.bound
    omega
  have hminter := (hpr.settings.addressWith name .minter).trans hx.minter
  obtain ⟨t, ht, hpt, hbt⟩ := hL.call_succeeds hbr (Book.movement_mint.mpr ⟨e, hminter, rfl⟩) rfl
    hx.target.1 hx.target.2 hfits
  exact ⟨r, t, hr, ht, hbt, hpr.trans hpt⟩

theorem routed_succeeds (hL : L.Mirrors book) (hx : (book s).Exchanges name e src tgt)
    (hadm : (book s).Admits hd) (ha : (book s).addressOf hd = .ok a)
    (hle : src.amount.val ≤ ((book s).balance a src.denom).val) :
    ∃ t, ([hd.deposit name [src], .burn name [src], .mint name [tgt],
      hd.withdraw name [tgt]].forM L.call).Gives s (.ok ()) t := by
  have hdeposit : (book s).movement (hd.deposit name [src]) = .ok (.transfer a e) :=
    Book.movement_deposit.mpr ⟨a, e, ha, hx.moduleAddress, rfl⟩
  obtain ⟨p, hp, hpp, -⟩ := hL.call_succeeds hx.backed hdeposit (Holder.coins_deposit hd)
    hx.source.1 hx.source.2 hle
  -- The escrow may have the holder's address; then it keeps what it pays to itself.
  have hsrc : src.amount.val ≤ ((book p).balance e src.denom).val := by
    have hbal := hpp.balance e src.denom
    by_cases hea : e = a
    · subst hea
      simp only [Movement.coinFigures, neg_add_cancel, balance_zero, add_zero] at hbal
      omega
    · simp only [Movement.coinFigures, balance_add, balance_neg, balance_inHand, hea, and_true,
        if_false, if_true, neg_zero, zero_add] at hbal
      omega
  obtain ⟨q, r, hq, hr, hbr, hpr⟩ := hL.exchange_succeeds (hx.transferred hpp) hsrc
  have htgt : tgt.amount.val ≤ ((book r).balance e tgt.denom).val := by
    have hbal := hpr.balance e tgt.denom
    simp only [balance_add, balance_neg, balance_inHand, balance_inIssue, hx.apart, and_false,
      and_self, if_false, if_true, neg_zero, add_zero, zero_add] at hbal
    omega
  have hsr := hpp.settings.trans hpr.settings
  have hwithdraw : (book r).movement (hd.withdraw name [tgt]) = .ok (.transfer e a) :=
    Book.movement_withdraw.mpr ⟨a, e, (hsr.addressOf hd).trans ha,
      (hsr.moduleAddress name).trans hx.moduleAddress, hsr.admits.mpr hadm, rfl⟩
  obtain ⟨t, ht, -, -⟩ := hL.call_succeeds hbr hwithdraw (Holder.coins_withdraw hd)
    hx.target.1 hx.target.2 htgt
  refine ⟨t, ?_⟩
  simp only [gives_forM_cons_ok, gives_forM_nil]
  exact ⟨p, hp, q, hq, r, hr, t, ht, trivial, rfl⟩

theorem convert_succeeds (hL : L.Mirrors book) (hS : (book s).Sound k.config)
    (hadm : (book s).Admits hd) (ha : (book s).addressOf hd = .ok a)
    (he : evm.val = units.val * k.config.multiplier.val)
    (hle : (k.config.sourceCoin units evm d).amount.val ≤
      ((book s).balance a (k.config.sourceCoin units evm d).denom).val) :
    ∃ t, (L.convert k.config hd units d).Gives s (.ok ()) t := by
  have hm := k.one_lt_multiplier
  by_cases hz : units.val = 0
  · exact ⟨s, convert_ok.mpr (.inl ⟨hz, rfl⟩)⟩
  obtain ⟨e, hminter, hburner⟩ := hS.escrow
  obtain ⟨hsrc, htgt, hne⟩ := k.coins_proper d hz he
  have hx : (book s).Exchanges k.config.conversionModule e (k.config.sourceCoin units evm d)
      (k.config.targetCoin units evm d) :=
    ⟨hS.backed, hburner, hminter, hsrc, htgt, hne, hS.room (by omega) he hle⟩
  have hroute : ∃ t, ((k.config.route hd units evm d).forM L.call).Gives s (.ok ()) t := by
    unfold Config.route
    split
    · rename_i hin
      obtain rfl := Holder.isModule_iff.mp hin
      obtain rfl : e = a := Except.ok.inj (hx.moduleAddress.symm.trans ha)
      obtain ⟨r, t, hr, ht, -⟩ := hL.exchange_succeeds hx hle
      refine ⟨t, ?_⟩
      simp only [gives_forM_cons_ok, gives_forM_nil]
      exact ⟨r, hr, t, ht, trivial, rfl⟩
    · exact hL.routed_succeeds hx hadm ha hle
  obtain ⟨t, ht⟩ := hroute
  exact ⟨t, convert_ok.mpr (.inr ⟨hz, evm, he, ht⟩)⟩

theorem convert_overdraws (hL : L.Mirrors book) (hS : (book s).Sound k.config)
    (ha : (book s).addressOf hd = .ok a) (he : evm.val = units.val * k.config.multiplier.val)
    (hu : units.val ≠ 0)
    (hlt : ((book s).balance a (k.config.sourceCoin units evm d).denom).val <
      (k.config.sourceCoin units evm d).amount.val) :
    Overdraws (L.convert k.config hd units d) s := by
  obtain ⟨e, -, hburn⟩ := hS.escrow
  obtain ⟨⟨hws, -⟩, -⟩ := k.coins_proper d hu he
  have hroute : Overdraws ((k.config.route hd units evm d).forM L.call) s := by
    unfold Config.route
    split
    · rename_i hin
      obtain rfl := Holder.isModule_iff.mp hin
      obtain rfl : e = a := Except.ok.inj ((Book.moduleAddress_of_addressWith hburn).symm.trans ha)
      exact (hL.call_overdraws hS.backed (Book.movement_burn.mpr ⟨e, hburn, rfl⟩) rfl rfl hws hlt).bind _
    · have hmv : (book s).movement
          (hd.deposit k.config.conversionModule [k.config.sourceCoin units evm d]) =
            .ok (.transfer a e) :=
        Book.movement_deposit.mpr ⟨a, e, ha, Book.moduleAddress_of_addressWith hburn, rfl⟩
      exact (hL.call_overdraws hS.backed hmv rfl (Holder.coins_deposit hd) hws hlt).bind _
  have hnz : units.isZero ≠ true := Amount.isZero_iff.not.mpr hu
  have hmul : (ofExcept ((units.mul k.config.multiplier).mapError .overflow) : Bridge σ Amount).Gives
      s (.ok evm) s := gives_ofExcept.mpr ⟨mapError_ok.mpr (Amount.mul_eq_ok.mpr he), rfl⟩
  rw [convert, if_neg hnz]
  refine Overdraws.after ?_ hmul
  exact hroute.bind _

end Ledger.Mirrors

end DualDenom
