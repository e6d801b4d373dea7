import DualDenom.Proofs.Conservation
import DualDenom.Proofs.NormalForm
import DualDenom.Proofs.Steps

/-!
# Mints and burns

A mint and a burn of the same coins have the same two legs, one for each denom,
and each leg of the one takes back that leg of the other. As the legs do not
share a denom, their order does not matter. So a mint can be burned again, if no
more is locked than the module had, and a burn can always be minted again;
either way all funds are as they were (`mint_burn_inverse`).
-/

namespace DualDenom

open DualDenom.Action Figures

structure Book.ReadsAll (b : Book) (f : Coins → Call) (m : Movement) : Prop where
  coins : ∀ cs, (f cs).coins = cs
  movement : ∀ cs, b.movement (f cs) = .ok m

namespace Book

variable {b b' : Book} {f : Coins → Call} {m : Movement} {coin : Coin}

theorem ReadsAll.congr (hf : b.ReadsAll f m) (h : b.SameSettings b') : b'.ReadsAll f m :=
  ⟨hf.coins, fun cs => (movement_congr h _).trans (hf.movement cs)⟩

theorem ReadsAll.reads (hf : b.ReadsAll f m)
    (hcoin : coin.denom.wellFormed = true ∧ coin.amount.val ≠ 0) :
    b.Reads (f [coin]) ⟨m, coin⟩ := ⟨hf.movement _, hf.coins _, hcoin⟩

theorem readsAll_mint (h : b.addressWith name .minter = .ok e) :
    b.ReadsAll (.mint name) (.create e) :=
  ⟨fun _ => rfl, fun _ => movement_mint.mpr ⟨e, h, rfl⟩⟩

theorem readsAll_burn (h : b.addressWith name .burner = .ok e) :
    b.ReadsAll (.burn name) (.destroy e) :=
  ⟨fun _ => rfl, fun _ => movement_burn.mpr ⟨e, h, rfl⟩⟩

end Book

namespace Keeper

theorem legFigures_inverse (k : Keeper) (m : Movement) (sp : Split) :
    k.legFigures m.inverse sp = -k.legFigures m sp := by
  simp only [legFigures, Movement.coinFigures_inverse]
  abel

end Keeper

namespace Ledger.Mirrors

variable {L : Ledger σ} {book : σ → Book} {k : Keeper} {f g : Coins → Call} {m : Movement}
  {coin : Coin}

theorem leg_posted (hL : L.Mirrors book) (hf : (book s).ReadsAll f m)
    (h : (Keeper.callUnlessZero L coin f).Gives s (.ok ()) t) :
    (book s).Posted (m.coinFigures coin) (book t) :=
  hL.carries.callUnlessZero_posted hf.coins
    (fun cs _ hm' => Except.ok.inj (hm'.symm.trans (hf.movement cs))) h

/-- A leg can be taken back, also after something else happened to other denoms. -/
theorem leg_undone (hL : L.Mirrors book) (hf : (book s).ReadsAll f m)
    (hg : (book s).ReadsAll g m.inverse) (hw : coin.denom.wellFormed = true)
    (hlocked : ∀ a, m.inverse.source? = some a →
      ((book s).locked a coin.denom).val ≤ ((book s).balance a coin.denom).val)
    (h : (Keeper.callUnlessZero L coin f).Gives s (.ok ()) t)
    (hp : (book t).Posted e (book p)) (he : e.Spares coin.denom) :
    ∃ q, (Keeper.callUnlessZero L coin g).Gives p (.ok ()) q ∧
      (book p).Posted (m.inverse.coinFigures coin) (book q) := by
  rcases Keeper.callUnlessZero_ok.mp h with ⟨hz, -⟩ | ⟨hz, h⟩
  · refine ⟨p, Keeper.callUnlessZero_ok.mpr (.inl ⟨hz, rfl⟩), ?_⟩
    rw [Movement.coinFigures_of_isZero _ hz]
    exact .refl _
  · have hstep : (m.carryCoin coin).Gives (book s) (.ok ()) (book t) :=
      (hL.call_iff (hf.reads ⟨hw, hz⟩)).mp ⟨t, h, rfl⟩
    have ha := (Movement.affords_congr hp he).mpr (Movement.inverse_affords hstep hlocked)
    obtain ⟨b', hback⟩ := Movement.inverse_succeeds hstep hp he ha
    have hsettings := (Movement.carryCoin_posted hstep).settings.trans hp.settings
    obtain ⟨q, hq, rfl⟩ := (hL.call_iff ((hg.congr hsettings).reads ⟨hw, hz⟩)).mpr hback
    exact ⟨q, Keeper.callUnlessZero_ok.mpr (.inr ⟨hz, hq⟩), Movement.carryCoin_posted hback⟩

theorem legs_undone (hL : L.Mirrors book) (hf : (book s).ReadsAll f m)
    (hg : (book s).ReadsAll g m.inverse)
    (hlocked : ∀ a, m.inverse.source? = some a → ∀ d, k.config.Native d →
      ((book s).locked a d).val ≤ ((book s).balance a d).val)
    (h : Gives (do
      let sp ← k.split cs
      Keeper.callUnlessZero L (k.config.wholeCoin sp) f
      Keeper.callUnlessZero L (k.config.remainderCoin sp) f) s (.ok ()) t) :
    ∃ n sp u, cs.evmAmount k.config.evmDenom = .ok n ∧ sp.merge k.config.multiplier = .ok n ∧
      (book s).Posted (k.legFigures m sp) (book t) ∧
      Gives (do
        let sp ← k.split cs
        Keeper.callUnlessZero L (k.config.wholeCoin sp) g
        Keeper.callUnlessZero L (k.config.remainderCoin sp) g) t (.ok ()) u ∧
      (book t).Posted (k.legFigures m.inverse sp) (book u) := by
  simp only [gives_bind_ok] at h
  obtain ⟨sp, _, hsp, _, r, hwhole, hrem⟩ := h
  obtain ⟨rfl, n, hn, hmerge⟩ := Keeper.split_merge hsp
  have hpw := hL.leg_posted hf hwhole
  have hfr := hf.congr hpw.settings
  have hpr := hL.leg_posted hfr hrem
  -- The whole units go back first, as they went first: the remainder does not touch their denom.
  obtain ⟨q, hq, hpq⟩ := hL.leg_undone hf hg k.cosmos_wellFormed
    (fun a ha => hlocked a ha _ (.inr rfl)) hwhole hpr
    (m.spares_coinFigures k.evm_ne_cosmos.symm)
  have hspares : (m.coinFigures (k.config.wholeCoin sp)).Spares (k.config.remainderCoin sp).denom :=
    m.spares_coinFigures k.evm_ne_cosmos
  obtain ⟨u, hu, hpu⟩ := hL.leg_undone hfr (hg.congr hpw.settings) k.evm_wellFormed
    (fun a ha => by
      rw [hpw.settings.locked, hpw.balance_eq (hspares.balance a)]
      exact hlocked a ha _ (.inl rfl)) hrem hpq
    (m.inverse.spares_coinFigures k.evm_ne_cosmos)
  refine ⟨n, sp, u, hn, hmerge, hpw.trans hpr, ?_, hpq.trans hpu⟩
  simp only [gives_bind_ok]
  exact ⟨sp, t, Keeper.split_ok.mpr ⟨rfl, (Keeper.split_ok.mp hsp).2⟩, (), q, hq, hu⟩

end Ledger.Mirrors

theorem Keeper.balance_legs_create (k : Keeper) (sp : Split) (e : Address) :
    (k.legFigures (.create e) sp).balance e = (k.legFigures (.create e) sp).supply := by
  funext d
  simp [legFigures, Movement.coinFigures]

structure Book.Gains (c : Config) (a : Address) (n : Int) (b b' : Book) : Prop where
  worth : b'.worth c a = b.worth c a + n
  supply : b'.supplyWorth c = b.supplyWorth c + n

namespace Book

variable {b b' : Book} {k : Keeper} {n : Amount}

theorem Posted.gains_create (hp : b.Posted (k.legFigures (.create e) sp) b')
    (hn : sp.merge k.config.multiplier = .ok n) : b.Gains k.config e n.val b' := by
  have hsupply := (nets_legs_create (x := e) hn).supply
  refine ⟨?_, ?_⟩
  · rw [hp.worth, k.balance_legs_create, hsupply]
  · rw [hp.supplyWorth, hsupply]

theorem Posted.gains_destroy (hp : b.Posted (k.legFigures (.destroy e) sp) b')
    (hn : sp.merge k.config.multiplier = .ok n) : b.Gains k.config e (-n.val) b' := by
  have hback : b'.Posted (k.legFigures (.create e) sp) b :=
    hp.symm.cast (k.legFigures_inverse (.destroy e) sp).symm
  obtain ⟨hworth, hsupply⟩ := hback.gains_create hn
  exact ⟨by omega, by omega⟩

end Book

namespace Keeper

variable {k : Keeper} {r : Recorded Book} {n : Amount}

/-- What a module mints it can burn, and what it burns it can mint. Either changes its worth and
that of the supply by the amount, and both together change nothing. -/
theorem mint_burn_inverse (hminter : r.ledger.addressWith name .minter = .ok e)
    (hburner : r.ledger.addressWith name .burner = .ok e)
    (hlocked : ∀ d, k.config.Native d → (r.ledger.locked e d).val ≤ (r.ledger.balance e d).val)
    (hn : cs.evmAmount k.config.evmDenom = .ok n) :
    let mint := k.mintCoins Book.ledger.recorded name cs
    let burn := k.burnCoins Book.ledger.recorded name cs
    (∀ r', mint.Gives r (.ok ()) r' → r.ledger.Gains k.config e n.val r'.ledger ∧
      ∃ r'', burn.Gives r' (.ok ()) r'' ∧ r.ledger.SameFunds r''.ledger) ∧
    ∀ r', burn.Gives r (.ok ()) r' → r.ledger.Gains k.config e (-n.val) r'.ledger ∧
      ∃ r'', mint.Gives r' (.ok ()) r'' ∧ r.ledger.SameFunds r''.ledger := by
  intro mint burn
  have hL := Book.mirrors_recorded
  have hmint := Book.readsAll_mint hminter
  have hburn := Book.readsAll_burn hburner
  -- What is posted and then taken back.
  have hsame : ∀ {m sp r' r''}, r.ledger.Posted (k.legFigures m sp) r' →
      r'.Posted (k.legFigures m.inverse sp) r'' → r.ledger.SameFunds r'' := fun hp hback =>
    (Book.Posted.refl _).sameFunds ((hp.trans hback).cast (by rw [legFigures_inverse, add_neg_cancel]))
  constructor
  · intro r' h
    obtain ⟨n', sp, r'', hn', hmerge, hp, hback, hpback⟩ := hL.legs_undone hmint hburn (by
      rintro _ ⟨⟩
      exact hlocked) h
    obtain rfl : n' = n := Except.ok.inj (hn'.symm.trans hn)
    exact ⟨hp.gains_create hmerge, r'', hback, hsame hp hpback⟩
  · intro r' h
    obtain ⟨n', sp, r'', hn', hmerge, hp, hback, hpback⟩ :=
      hL.legs_undone hburn hmint (fun _ ha => nomatch ha) h
    obtain rfl : n' = n := Except.ok.inj (hn'.symm.trans hn)
    exact ⟨hp.gains_destroy hmerge, r'', hback, hsame hp hpback⟩

end Keeper

theorem mint_burn_inverse_small :
    let k := Keeper.standard
    let e := "evm_module_account"
    let cs : Coins := [⟨"aorai", .clamp 2000000000007⟩]
    let funds := Book.fund e [⟨"aorai", .clamp 9⟩, ⟨"orai", .clamp 4⟩]
    let r := Recorded.start ((funds.run Book.small).state.lock e ⟨"aorai", .clamp 2⟩)
    let mint := k.mintCoins Book.ledger.recorded "evm" cs
    let burn := k.burnCoins Book.ledger.recorded "evm" cs
    (∃ r' r'', mint.Gives r (.ok ()) r' ∧ r.ledger.Gains k.config e 2000000000007 r'.ledger ∧
      burn.Gives r' (.ok ()) r'' ∧ r.ledger.SameFunds r''.ledger) ∧
    ∃ r' r'', burn.Gives r (.ok ()) r' ∧ r.ledger.Gains k.config e (-2000000000007) r'.ledger ∧
      mint.Gives r' (.ok ()) r'' ∧ r.ledger.SameFunds r''.ledger := by
  intro k e cs funds r mint burn
  have hlocked : ∀ d, k.config.Native d →
      (r.ledger.locked e d).val ≤ (r.ledger.balance e d).val := by
    rintro d (rfl | rfl) <;> decide +kernel
  have hn : cs.evmAmount k.config.evmDenom = .ok (.clamp 2000000000007) :=
    ok_of_toOption (by decide +kernel)
  have hminter : r.ledger.addressWith "evm" .minter = .ok e := ok_of_toOption (by decide +kernel)
  have hburner : r.ledger.addressWith "evm" .burner = .ok e := ok_of_toOption (by decide +kernel)
  obtain ⟨hthere, hback⟩ := Keeper.mint_burn_inverse hminter hburner hlocked hn
  have hmint : (mint.run r).answer.toOption = some () := by decide +kernel
  have hburn : (burn.run r).answer.toOption = some () := by decide +kernel
  obtain ⟨hgains, r₁, hburned, hsame⟩ := hthere _ (gives_of_toOption hmint)
  obtain ⟨hgains', r₂, hminted, hsame'⟩ := hback _ (gives_of_toOption hburn)
  exact ⟨⟨_, r₁, gives_of_toOption hmint, hgains, hburned, hsame⟩,
    _, r₂, gives_of_toOption hburn, hgains', hminted, hsame'⟩

end DualDenom
