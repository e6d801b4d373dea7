import DualDenom.Proofs.Audit
import DualDenom.Proofs.Conservation
import DualDenom.Proofs.Courses
import DualDenom.Proofs.Dust
import DualDenom.Proofs.Failures

/-!
# What a failure may cost

Nothing but minting makes value, wherever an operation stops and nothing is put
back. A call moves value or takes it away, also one that fails after the first
of its two writes. Conversions burn before they mint, so one that stops in
between has cost its units, and since nothing follows the first error no
operation leaves more than one conversion open (`perform_gains_nothing`).
-/

namespace DualDenom

open DualDenom.Action Figures

-- ---------------------------------------------------------------------------
-- The worth of a coin
-- ---------------------------------------------------------------------------

namespace Config

variable {c : Config} {units evm : Amount}

def coinWorth (c : Config) (coin : Coin) : Int :=
  c.worth fun d => if d = coin.denom then coin.amount.val else 0

theorem coinWorth_nonneg (c : Config) (coin : Coin) : 0 ≤ c.coinWorth coin := by
  refine c.worth_nonneg fun d => ?_
  split <;> omega

theorem coinWorth_source (hne : c.evmDenom ≠ c.cosmosDenom)
    (he : evm.val = units.val * c.multiplier.val) (d : Direction) :
    c.coinWorth (c.sourceCoin units evm d) = units.val * c.multiplier.val := by
  cases d <;> simp [coinWorth, worth, sourceCoin, cosmosCoin, evmCoin, hne, hne.symm, he]

theorem coinWorth_target (hne : c.evmDenom ≠ c.cosmosDenom)
    (he : evm.val = units.val * c.multiplier.val) (d : Direction) :
    c.coinWorth (c.targetCoin units evm d) = units.val * c.multiplier.val := by
  cases d <;> simp [coinWorth, worth, targetCoin, cosmosCoin, evmCoin, hne, hne.symm, he]

end Config

structure Figures.Weighs (c : Config) (held supply : Int) (f : Figures) : Prop where
  held : c.worth f.held = held
  supply : c.worth f.supply = supply

namespace Figures

variable {c : Config} {f g : Figures}

theorem Weighs.add (hf : Weighs c h s f) (hg : Weighs c h' s' g) :
    Weighs c (h + h') (s + s') (f + g) where
  held := (c.worth_add ..).trans (by rw [hf.held, hg.held])
  supply := (c.worth_add ..).trans (by rw [hf.supply, hg.supply])

theorem Weighs.neg (hf : Weighs c h s f) : Weighs c (-h) (-s) (-f) where
  held := (c.worth_neg _).trans (by rw [hf.held])
  supply := (c.worth_neg _).trans (by rw [hf.supply])

theorem weighs_inHand (c : Config) (a : Address) (coin : Coin) :
    Weighs c (c.coinWorth coin) 0 (inHand a coin) := ⟨rfl, c.worth_zero⟩

theorem weighs_inIssue (c : Config) (coin : Coin) : Weighs c 0 (c.coinWorth coin) (inIssue coin) :=
  ⟨c.worth_zero, rfl⟩

theorem Weighs.posted (hf : Weighs c h s f) (hp : Book.Posted b f b') :
    b'.heldWorth c = b.heldWorth c + h ∧ b'.supplyWorth c = b.supplyWorth c + s := by
  rw [hp.heldWorth, hp.supplyWorth, hf.held, hf.supply]
  exact ⟨rfl, rfl⟩

end Figures

-- ---------------------------------------------------------------------------
-- One call
-- ---------------------------------------------------------------------------

namespace Book

def steady (c : Config) : Course ε Book := .always
  (fun b b' => b'.heldWorth c ≤ b.heldWorth c ∧ b'.supplyWorth c = b.supplyWorth c)
  (fun _ => ⟨le_rfl, rfl⟩) fun _ _ _ h h' => ⟨h'.1.trans h.1, h'.2.trans h.2⟩

def losing (c : Config) : Course ε Book := .always
  (fun b b' => b'.heldWorth c ≤ b.heldWorth c ∧ b'.supplyWorth c ≤ b.supplyWorth c)
  (fun _ => ⟨le_rfl, le_rfl⟩) fun _ _ _ h h' => ⟨h'.1.trans h.1, h'.2.trans h.2⟩

variable (c : Config) {cl : Call} {coin : Coin}

theorem transfer_takes_steady (x y : Address) (coin : Coin) :
    ((Movement.transfer x y).carryCoin coin).Takes (steady c) := by
  intro b z b' h
  have hworth := c.coinWorth_nonneg coin
  have hpaid := (weighs_inHand c x coin).neg
  cases z with
  | ok u =>
    have hmoved := hpaid.add (weighs_inHand c y coin)
    obtain ⟨hheld, hsup⟩ := hmoved.posted (Movement.carryCoin_posted h)
    exact ⟨by omega, by omega⟩
  | error e =>
    rcases Movement.carryCoin_error h with rfl | ⟨hp, -⟩
    · exact ⟨le_rfl, rfl⟩
    · obtain ⟨hheld, hsup⟩ := hpaid.posted hp
      exact ⟨by omega, by omega⟩

theorem destroy_takes_losing (x : Address) (coin : Coin) :
    ((Movement.destroy x).carryCoin coin).Takes (losing c) := by
  intro b z b' h
  have hworth := c.coinWorth_nonneg coin
  have hpaid := (weighs_inHand c x coin).neg
  cases z with
  | ok u =>
    obtain ⟨hheld, hsup⟩ :=
      (hpaid.add (weighs_inIssue c coin).neg).posted (Movement.carryCoin_posted h)
    exact ⟨by omega, by omega⟩
  | error e =>
    rcases Movement.carryCoin_error h with rfl | ⟨hp, -⟩
    · exact ⟨le_rfl, le_rfl⟩
    · obtain ⟨hheld, hsup⟩ := hpaid.posted hp
      exact ⟨by omega, by omega⟩

theorem submit_takes_steady (hmint : cl.isMint = false) (hburn : cl.isBurn = false) :
    (submit cl).Takes (steady c) := by
  refine submit_takes fun b m hm coin _ => ?_
  obtain ⟨x, y, rfl⟩ := movement_transfers hm hmint hburn
  exact transfer_takes_steady c x y coin

theorem submit_takes_losing (hmint : cl.isMint = false) : (submit cl).Takes (losing c) := by
  refine submit_takes fun b m hm coin _ => ?_
  have hcreates := creates_of_movement hm
  rw [hmint] at hcreates
  cases m with
  | transfer x y => exact (transfer_takes_steady c x y coin).mono fun h => ⟨h.1, h.2.le⟩
  | create x => cases hcreates
  | destroy x => exact destroy_takes_losing c x coin

end Book

theorem Ledger.Carries.call_error {L : Ledger σ} {book : σ → Book} {cl : Call} (hL : L.Carries book)
    (hcs : cl.coins = [coin]) (h : (L.call cl).Gives s (.error e) t) :
    book t = book s ∨ ∃ m, (book s).movement cl = .ok m ∧
      (book s).Posted (m.firstFigures coin) (book t) := by
  obtain ⟨e₀, h, -⟩ := gives_mapError_error.mp h
  rcases hL.submit h with h | ⟨-, ht⟩
  · rcases Book.submit_error h with hb | ⟨m, hm, hc⟩
    · exact .inl hb
    · rw [hcs] at hc
      exact (Movement.carryOut_singleton_error hc).imp_right fun hp => ⟨m, hm, hp⟩
  · exact .inl ht

-- ---------------------------------------------------------------------------
-- Conversions
-- ---------------------------------------------------------------------------

/-- The calls end with a conversion that burned its source and failed to mint its target;
what it burned is missing in the supply of `b'`. -/
def Book.BrokenOff (c : Config) (b : Book) (log : List Answered) (b' : Book) : Prop :=
  ∃ units evm d e before, units.val ≠ 0 ∧ evm.val = units.val * c.multiplier.val ∧
    log = before ++ [⟨.burn c.conversionModule [c.sourceCoin units evm d], .ok ()⟩,
      ⟨.mint c.conversionModule [c.targetCoin units evm d], .error e⟩] ∧
    b.supplyWorth c = b'.supplyWorth c + units.val * c.multiplier.val

/-- Nobody gains. The supply keeps its value, unless a conversion is broken off. -/
def settling (c : Config) (book : σ → Book) : Course BridgeError (Audited σ) where
  Goes r e r' := (book r'.ledger).heldWorth c ≤ (book r.ledger).heldWorth c ∧
    ((book r'.ledger).supplyWorth c = (book r.ledger).supplyWorth c ∨
      e ≠ none ∧ (book r.ledger).BrokenOff c r'.log (book r'.ledger))
  stays := ⟨le_rfl, .inl rfl⟩
  follows := by
    rintro r r₁ e r' ⟨hheld, hsup⟩ ⟨hheld', hsup'⟩
    have hkept := hsup.resolve_right fun h => h.1 rfl
    refine ⟨hheld'.trans hheld, hsup'.imp (fun h => h.trans hkept) fun ⟨he, h⟩ => ⟨he, ?_⟩⟩
    unfold Book.BrokenOff at h ⊢
    rwa [hkept] at h

namespace Ledger.Carries

variable {L : Ledger σ} {book : σ → Book} {k : Keeper} {units evm : Amount} {cl : Call}

theorem call_takes_settling (hL : L.Carries book) (c : Config) (hmint : cl.isMint = false)
    (hburn : cl.isBurn = false) : (L.audited.call cl).Takes (settling c book) :=
  (hL.audited.call_takes (C := Book.steady c)
    (Book.submit_takes_steady c hmint hburn)).mono fun h => ⟨h.1, .inl h.2⟩

theorem burn_worth (hL : L.Carries book) (c : Config)
    (h : (L.call (.burn name [coin])).Gives s (.ok ()) t) :
    (book t).heldWorth c = (book s).heldWorth c - c.coinWorth coin ∧
      (book t).supplyWorth c = (book s).supplyWorth c - c.coinWorth coin := by
  obtain ⟨_, hm, hp⟩ := hL.call_ok h
  obtain ⟨a, -, rfl⟩ := Book.movement_burn.mp hm
  obtain ⟨hheld, hsup⟩ := ((weighs_inHand c a coin).neg.add (weighs_inIssue c coin).neg).posted
    (hp.cast (Movement.figures_singleton _ coin))
  exact ⟨by omega, by omega⟩

theorem burn_error_worth (hL : L.Carries book) (c : Config)
    (h : (L.call (.burn name [coin])).Gives s (.error e) t) :
    (book t).heldWorth c ≤ (book s).heldWorth c ∧
      (book t).supplyWorth c = (book s).supplyWorth c := by
  have hworth := c.coinWorth_nonneg coin
  rcases hL.call_error rfl h with hsame | ⟨m, hm, hp⟩
  · rw [hsame]
    exact ⟨le_rfl, rfl⟩
  · obtain ⟨a, -, rfl⟩ := Book.movement_burn.mp hm
    obtain ⟨hheld, hsup⟩ := (weighs_inHand c a coin).neg.posted hp
    exact ⟨by omega, by omega⟩

/-- Of a mint that fails, the supply sees nothing, but someone may have the coin. -/
theorem mint_error_worth (hL : L.Carries book) (c : Config)
    (h : (L.call (.mint name [coin])).Gives s (.error e) t) :
    (book t).heldWorth c ≤ (book s).heldWorth c + c.coinWorth coin ∧
      (book t).supplyWorth c = (book s).supplyWorth c := by
  have hworth := c.coinWorth_nonneg coin
  rcases hL.call_error rfl h with hsame | ⟨m, hm, hp⟩
  · rw [hsame]
    exact ⟨by omega, rfl⟩
  · obtain ⟨a, -, rfl⟩ := Book.movement_mint.mp hm
    obtain ⟨hheld, hsup⟩ := (weighs_inHand c a coin).posted hp
    exact ⟨by omega, by omega⟩

/-- What the escrow does in place costs nothing, but between its two calls. -/
theorem exchange_takes (hL : L.Carries book) (hu : units.val ≠ 0)
    (he : evm.val = units.val * k.config.multiplier.val) (d : Direction) :
    ([.burn k.config.conversionModule [k.config.sourceCoin units evm d],
      .mint k.config.conversionModule [k.config.targetCoin units evm d]].forM L.audited.call).Takes
        (settling k.config book) := by
  have hsource := k.config.coinWorth_source k.evm_ne_cosmos he d
  have htarget := k.config.coinWorth_target k.evm_ne_cosmos he d
  intro r x r' h
  cases x with
  | ok u =>
    obtain ⟨r₁, hb, h⟩ := gives_forM_cons_ok.mp h
    obtain ⟨r₂, hm, h⟩ := gives_forM_cons_ok.mp h
    obtain ⟨-, rfl⟩ := gives_forM_nil.mp h
    obtain ⟨a, -, hp⟩ := hL.audited.exchange_posted he hb hm
    have hnets := nets_conversion k a (d.signed units)
    refine ⟨?_, .inl ?_⟩
    · rw [hp.heldWorth, hnets.held, add_zero]
    · rw [hp.supplyWorth, hnets.supply, add_zero]
  | error e =>
    rcases gives_bind_error.mp h with hb | ⟨_, r₁, hb, hrest⟩
    · exact (hL.audited.burn_error_worth k.config hb).imp_right .inl
    rcases gives_bind_error.mp hrest with hm | ⟨_, _, -, hnil⟩
    · obtain ⟨hheld, hsup⟩ := hL.audited.burn_worth k.config hb
      obtain ⟨hheld', hsup'⟩ := hL.audited.mint_error_worth k.config hm
      obtain ⟨-, hlog⟩ := audited_submit.mp (gives_mapError_ok.mp hb)
      obtain ⟨e₀, hm, -⟩ := gives_mapError_error.mp hm
      obtain ⟨-, hlog'⟩ := audited_submit.mp hm
      rw [hlog, List.append_assoc] at hlog'
      refine ⟨by omega, .inr ⟨nofun, units, evm, d, e₀, r.log, hu, he, hlog', by omega⟩⟩
    · cases (gives_forM_nil.mp hnil).1

theorem convert_takes_settling (hL : L.Carries book) (k : Keeper) (hd : Holder) (units : Amount)
    (d : Direction) : (L.audited.convert k.config hd units d).Takes (settling k.config book) := by
  refine Ledger.convert_takes fun evm hu he => ?_
  have hexchange := hL.exchange_takes (k := k) hu he d
  unfold Config.route
  split
  · exact hexchange
  · have hdeposit : (L.audited.call (hd.deposit k.config.conversionModule
        [k.config.sourceCoin units evm d])).Takes (settling k.config book) :=
      hL.call_takes_settling _ (by cases hd <;> rfl) (by cases hd <;> rfl)
    have hwithdraw : (L.audited.call (hd.withdraw k.config.conversionModule
        [k.config.targetCoin units evm d])).Takes (settling k.config book) :=
      hL.call_takes_settling _ (by cases hd <;> rfl) (by cases hd <;> rfl)
    exact takes_forM_append (hdeposit.bind fun _ => hexchange) (hwithdraw.bind fun _ => takes_pure)

-- ---------------------------------------------------------------------------
-- Requests
-- ---------------------------------------------------------------------------

theorem escrowMove_takes (hL : L.Carries book) (k : Keeper)
    (hq : (Operation.keeper q).isEscrowMove = true) :
    (k.perform L.audited q).Takes (settling k.config book) := by
  refine Keeper.perform_takes (hL.convert_takes_settling k) fun cl hcl => ?_
  cases hcl with
  | mint | burn | send => cases hq
  | accountToModule | moduleToAccount => exact hL.call_takes_settling _ rfl rfl

theorem perform_takes_losing (hL : L.Carries book) (k : Keeper)
    (hq : ∀ name cs, q ≠ .mintCoins name cs) :
    (k.perform L.audited q).Takes ((Book.losing k.config).of fun r => book r.ledger) := by
  have hcall : ∀ cl : Call, cl.isMint = false →
      (L.audited.call cl).Takes ((Book.losing k.config).of fun r => book r.ledger) :=
    fun cl hcl => hL.audited.call_takes (Book.submit_takes_losing k.config hcl)
  refine Keeper.perform_takes (fun hd units d => ?_) fun cl hcl => ?_
  · refine (hL.convert_takes_settling k hd units d).mono fun ⟨hheld, hsup⟩ => ⟨hheld, ?_⟩
    rcases hsup with hsup | ⟨-, units, evm, d, e, before, -, -, -, hsup⟩
    · exact hsup.le
    · have hlost : 0 ≤ (units.val : Int) * k.config.multiplier.val :=
        mul_nonneg (Int.natCast_nonneg _) (Int.natCast_nonneg _)
      exact hsup.symm ▸ le_add_of_nonneg_right hlost
  · cases hcl with
    | mint => exact absurd rfl (hq _ _)
    | burn | accountToModule | moduleToAccount | send => exact hcall _ rfl

end Ledger.Carries

def Keeper.answeredCalls (k : Keeper) (L : Ledger σ) (q : KeeperRequest) (s : σ) : List Answered :=
  ((k.perform L.audited q).run (.start s)).state.log

/-- Wherever the ledger refuses a call and whatever it lists as spendable, no operation but
minting makes value, and one of an escrow costs at most the conversion that it broke off. -/
theorem Keeper.perform_gains_nothing {k : Keeper} {q : KeeperRequest}
    {listing : Recorded Book → Address → Except LedgerError Coins} {w t : Staged (Recorded Book)}
    (hq : ∀ name cs, q ≠ .mintCoins name cs)
    (h : (k.perform (Book.ledgerListing listing).staged q).Gives w x t) :
    t.ledger.ledger.supplyWorth k.config ≤ w.ledger.ledger.supplyWorth k.config ∧
    t.ledger.ledger.heldWorth k.config ≤ w.ledger.ledger.heldWorth k.config ∧
    ((Operation.keeper q).isEscrowMove = true → ∀ e, x = .error e →
      t.ledger.ledger.supplyWorth k.config = w.ledger.ledger.supplyWorth k.config ∨
      w.ledger.ledger.BrokenOff k.config
        (k.answeredCalls (Book.ledgerListing listing).staged q w) t.ledger.ledger) := by
  have hL : (Book.ledgerListing listing).staged.Carries fun t => t.ledger.ledger :=
    (Book.carries_ledgerListing listing).staged
  have hrun := gives_run (k.perform (Book.ledgerListing listing).staged.audited q) (.start w)
  have hshadow := (Ledger.audited_shadows _).perform k q |>.gives hrun
  obtain ⟨-, rfl⟩ := hshadow.unique h
  obtain ⟨hheld, hsup⟩ := hL.perform_takes_losing k hq hrun
  refine ⟨hsup, hheld, fun hmove e _ => ?_⟩
  obtain ⟨-, hsettled⟩ := hL.escrowMove_takes k hmove hrun
  exact hsettled.imp_right And.right

/-- The top-up is refused its mint: the unit that it burned is lost. -/
theorem perform_gains_nothing_small :
    let k := Keeper.standard
    let L := (Book.ledgerListing Book.ledger.recorded.spendableCoins).staged
    let w : Staged (Recorded Book) := ⟨.start Book.small, some ⟨3, "down"⟩, ∅⟩
    let q : KeeperRequest := .accountToModule "alice" "fee" [⟨"aorai", .clamp 10⟩]
    ∃ t, (k.perform L q).Gives w (.error (.ledger (.rejected "down"))) t ∧
      t.ledger.ledger.heldWorth k.config ≤ w.ledger.ledger.heldWorth k.config ∧
      t.ledger.ledger.supplyWorth k.config + 1000000000000 = w.ledger.ledger.supplyWorth k.config ∧
      w.ledger.ledger.BrokenOff k.config (k.answeredCalls L q w) t.ledger.ledger := by
  intro k L w q
  obtain ⟨t, hrun, hsupply⟩ : ∃ t, (k.perform L q).Gives w (.error (.ledger (.rejected "down"))) t ∧
      t.ledger.ledger.supplyWorth k.config + 1000000000000 =
        w.ledger.ledger.supplyWorth k.config :=
    ⟨_, ⟨by decide +kernel, rfl⟩, by decide +kernel⟩
  obtain ⟨-, hheld, hsettled⟩ := Keeper.perform_gains_nothing (q := q) nofun hrun
  refine ⟨t, hrun, hheld, hsupply, (hsettled rfl _ rfl).resolve_left fun hsame => ?_⟩
  omega

end DualDenom
