import DualDenom.Proofs.Backing
import DualDenom.Proofs.Courses
import DualDenom.Proofs.Dust
import DualDenom.Proofs.ExactTransfer

/-!
# What can be burned

A burn has no top-up: it takes the whole units in the cosmos denom and the rest
in the evm denom, as the amount splits. So a module can burn all that it is said
to have just when its evm units are less than a whole one (`burn_all_iff`).
Nothing sweeps after a mint or after a transfer of coins as they are; without
evm units from either the dust of a module stays below a unit, and with them it
need not (`mints_leave_dust`).
-/

namespace DualDenom

open DualDenom.Action Figures

-- ---------------------------------------------------------------------------
-- Burning everything
-- ---------------------------------------------------------------------------

theorem Keeper.split_sum {k : Keeper} {n r : Nat} (hv : v.val = k.config.multiplier.val * n + r)
    (h : (k.split [k.config.evmCoin v]).Gives s (.ok sp) t) :
    sp.whole.val = n + r / k.config.multiplier.val ∧
      sp.remainder.val = r % k.config.multiplier.val := by
  obtain ⟨-, w, hw, hwhole, hrem⟩ := Keeper.split_ok.mp h
  obtain rfl : w = v := Except.ok.inj (hw.symm.trans (Coins.evmAmount_singleton k.evm_wellFormed v))
  rw [hwhole, hrem, hv, Nat.mul_add_div (Nat.pos_of_ne_zero k.multiplier_ne_zero), Nat.mul_add_mod]
  exact ⟨rfl, rfl⟩

namespace Ledger.Mirrors

variable {L : Ledger σ} {book : σ → Book} {k : Keeper} {c : Coin}

theorem burnLeg_succeeds (hL : L.Mirrors book) (hb : (book s).Backed)
    (he : (book s).addressWith name .burner = .ok e) (hw : c.denom.wellFormed = true)
    (hle : c.amount.val ≤ ((book s).balance e c.denom).val) :
    ∃ t, (Keeper.callUnlessZero L c (.burn name)).Gives s (.ok ()) t ∧
      (book s).Posted ((Movement.destroy e).coinFigures c) (book t) ∧ (book t).Backed := by
  by_cases hz : c.amount.val = 0
  · refine ⟨s, Keeper.callUnlessZero_ok.mpr (.inl ⟨hz, rfl⟩), ?_, hb⟩
    rw [Movement.coinFigures_of_isZero _ hz]
    exact .refl _
  · obtain ⟨t, ht, hp, hbt⟩ := hL.call_succeeds hb
      (Book.movement_burn.mpr ⟨e, he, rfl⟩) rfl hw hz (m := .destroy e) hle
    exact ⟨t, Keeper.callUnlessZero_ok.mpr (.inr ⟨hz, ht⟩), hp, hbt⟩

theorem burn_posted (hL : L.Mirrors book) (he : (book s).addressWith name .burner = .ok e)
    (h : (k.burnCoins L name cs).Gives s (.ok ()) t) :
    ∃ sp, (k.split cs).Gives s (.ok sp) s ∧
      (book s).Posted (k.legFigures (.destroy e) sp) (book t) := by
  refine hL.carries.splitLegs_posted (fun _ => rfl) (fun cs m hm => ?_) h
  obtain ⟨e', he', rfl⟩ := Book.movement_burn.mp hm
  rw [Except.ok.inj (he'.symm.trans he)]

theorem balance_destroyed (k : Keeper) {sp : Split}
    (hp : (book s).Posted (k.legFigures (.destroy e) sp) (book t)) :
    ((book t).balance e k.config.cosmosDenom).val + sp.whole.val =
        ((book s).balance e k.config.cosmosDenom).val ∧
      ((book t).balance e k.config.evmDenom).val + sp.remainder.val =
        ((book s).balance e k.config.evmDenom).val := by
  have hcosmos := hp.balance e k.config.cosmosDenom
  have hevm := hp.balance e k.config.evmDenom
  simp only [Keeper.legFigures, Movement.coinFigures, Config.wholeCoin, Config.cosmosCoin,
    Config.remainderCoin, Config.evmCoin, balance_add, balance_neg, balance_inHand, balance_inIssue,
    k.evm_ne_cosmos, k.evm_ne_cosmos.symm, and_self, and_false, if_true, if_false, neg_zero,
    add_zero, zero_add] at hcosmos hevm
  exact ⟨by omega, by omega⟩

theorem burn_succeeds (hL : L.Mirrors book) (hb : (book s).Backed)
    (he : (book s).addressWith name .burner = .ok e)
    (hsp : (k.split cs).Gives s (.ok sp) s)
    (hwhole : sp.whole.val ≤ ((book s).balance e k.config.cosmosDenom).val)
    (hrem : sp.remainder.val ≤ ((book s).balance e k.config.evmDenom).val) :
    ∃ t, (k.burnCoins L name cs).Gives s (.ok ()) t ∧
      (book s).Posted (k.legFigures (.destroy e) sp) (book t) ∧ (book t).Backed := by
  obtain ⟨r, hr, hpr, hbr⟩ :=
    hL.burnLeg_succeeds (c := k.config.wholeCoin sp) hb he k.cosmos_wellFormed hwhole
  have hsame : (book r).balance e k.config.evmDenom = (book s).balance e k.config.evmDenom := by
    refine hpr.balance_eq ?_
    simp [Movement.coinFigures, Config.wholeCoin, Config.cosmosCoin, k.evm_ne_cosmos]
  obtain ⟨t, ht, hpt, hbt⟩ := hL.burnLeg_succeeds (c := k.config.remainderCoin sp) hbr
    ((hpr.settings.addressWith name .burner).trans he) k.evm_wellFormed (hsame ▸ hrem)
  refine ⟨t, ?_, hpr.trans hpt, hbt⟩
  simp only [Keeper.burnCoins, gives_bind_ok]
  exact ⟨sp, s, hsp, (), r, hr, ht⟩

/-- All that a module has can be burned just when its evm units are less than a whole one. -/
theorem burn_all_iff (hL : L.Mirrors book) (hb : (book s).Backed)
    (he : (book s).addressWith name .burner = .ok e)
    (hv : (k.balance L e k.config.evmDenom).Gives s (.ok (k.config.evmCoin v)) s) :
    (∃ t, (k.burnCoins L name [k.config.evmCoin v]).Gives s (.ok ()) t ∧
      (k.balance L e k.config.evmDenom).Gives t (.ok (k.config.evmCoin .zero)) t) ↔
    ((book s).balance e k.config.evmDenom).val < k.config.multiplier.val := by
  have hm := k.one_lt_multiplier
  obtain ⟨-, hv⟩ := hL.balance_ok.mp hv
  rw [hb.spendable_val, hb.spendable_val, Nat.mul_comm] at hv
  constructor
  · rintro ⟨t, ht, -⟩
    obtain ⟨sp, hsp, hp⟩ := hL.burn_posted he ht
    obtain ⟨hw, -⟩ := Keeper.split_sum hv hsp
    obtain ⟨hcosmos, -⟩ := balance_destroyed k hp
    have hnone : ((book s).balance e k.config.evmDenom).val / k.config.multiplier.val = 0 := by
      generalize ((book s).balance e k.config.evmDenom).val / k.config.multiplier.val = units
        at hw ⊢
      omega
    exact (Nat.div_eq_zero_iff_lt (by omega)).mp hnone
  · intro hlt
    obtain ⟨sp, hsp, -⟩ := k.split_evmCoin v s
    obtain ⟨hw, hr⟩ := Keeper.split_sum hv hsp
    rw [Nat.div_eq_of_lt hlt] at hw
    rw [Nat.mod_eq_of_lt hlt] at hr
    obtain ⟨t, ht, hp, hbt⟩ := hL.burn_succeeds hb he hsp (by omega) (by omega)
    obtain ⟨hcosmos, hevm⟩ := balance_destroyed k hp
    refine ⟨t, ht, hL.balance_ok.mpr ⟨rfl, ?_⟩⟩
    have hzero : ((book t).balance e k.config.cosmosDenom).val = 0 := by omega
    rw [hbt.spendable_val, hbt.spendable_val, hzero, Nat.zero_mul, Amount.val_zero]
    omega

end Ledger.Mirrors

-- ---------------------------------------------------------------------------
-- Dust
-- ---------------------------------------------------------------------------

/-- No evm units come to anyone without a sweep: only whole units are minted, and none are sent
as they are. -/
def KeeperRequest.dustFree (c : Config) : KeeperRequest → Bool
  | .mintCoins _ cs => match cs.evmAmount c.evmDenom with
    | .ok n => n.val % c.multiplier.val = 0
    | .error _ => true
  | .sendCoins _ _ cs => cs.all fun coin => coin.denom ≠ c.evmDenom
  | _ => true

theorem Movement.balance_figures_absent (m : Movement) {cs : Coins}
    (hcs : ∀ coin ∈ cs, coin.denom ≠ d) (a : Address) : (m.figures cs).balance a d = 0 := by
  rw [balance_figures, Coins.exact_eq_zero hcs]
  simp

theorem Coins.mem_of_movable {cs moved : Coins} (h : cs.movable c = .ok moved) :
    ∀ coin ∈ moved, coin ∈ cs := by
  obtain ⟨rfl, -⟩ := Config.movable_ok.mp h
  exact fun coin hcoin => List.mem_of_mem_filter hcoin

theorem Book.LowBut.posted {b b' : Book} (h : b.LowBut c A) (hp : b.Posted f b')
    (hf : ∀ a, f.balance a c.evmDenom ≤ 0) : b'.LowBut c A := by
  intro a ha
  have hlow := h a ha
  have hbal := hp.balance a c.evmDenom
  have hdown := hf a
  rw [spendable_val] at hlow ⊢
  rw [hp.settings.locked]
  omega

namespace Ledger.Mirrors

variable {L : Ledger σ} {book : σ → Book} {k : Keeper} {q : KeeperRequest}

theorem perform_low (hL : L.Mirrors book) (h : (k.perform L q).Gives s (.ok reply) t)
    (hq : q.dustFree k.config = true) (hlow : (book s).LowBut k.config fun _ => False) :
    (book t).LowBut k.config fun _ => False := by
  have hne := k.evm_ne_cosmos
  cases q with
  | mintCoins name cs =>
    obtain ⟨e, he⟩ := exists_ok_unique ((book s).addressWith name .minter)
    obtain ⟨sp, hsp, hp⟩ := hL.carries.splitLegs_posted (m := .create e) (fun _ => rfl)
      (fun cs m hm => by
        obtain ⟨e', he', rfl⟩ := Book.movement_mint.mp hm
        rw [he e' he']) (gives_thenDone_ok.mp h).1
    obtain ⟨-, n, hn, -, hr⟩ := Keeper.split_ok.mp hsp
    have hzero : sp.remainder.val = 0 := by
      simpa [KeeperRequest.dustFree, hn, hr] using hq
    refine hlow.posted hp fun a => ?_
    simp [Keeper.legFigures, Movement.coinFigures, Config.wholeCoin, Config.cosmosCoin,
      Config.remainderCoin, Config.evmCoin, hne, hzero]
  | burnCoins name cs =>
    obtain ⟨n, sp, e, -, -, hp⟩ := hL.carries.burnCoins_posted (gives_thenDone_ok.mp h).1
    refine hlow.posted hp fun a => ?_
    simp only [Keeper.legFigures, Movement.coinFigures, balance_add, balance_neg, balance_inHand,
      balance_inIssue]
    split_ifs <;> omega
  | accountToModule a name cs => exact hL.accountToModule_low (gives_thenDone_ok.mp h).1 hlow
  | moduleToAccount name a cs => exact hL.moduleToAccount_low (gives_thenDone_ok.mp h).1 hlow
  | sendCoins source target cs =>
    obtain ⟨moved, hm, hp⟩ := hL.carries.sendCoins_posted (gives_thenDone_ok.mp h).1
    have hcs : ∀ coin ∈ moved, coin.denom ≠ k.config.evmDenom := fun coin hcoin => by
      simpa using List.all_eq_true.mp hq coin (Coins.mem_of_movable hm coin hcoin)
    exact hlow.posted hp fun a => (Movement.balance_figures_absent _ hcs a).le
  | sweep hd =>
    simp only [Keeper.perform, gives_bind_ok, gives_pure] at h
    obtain ⟨u, _, h, -, rfl⟩ := h
    exact (hL.sweepDust_low h hlow).mono fun a hA => hA.1
  | _ =>
    obtain rfl : t = s := Keeper.question_takes (C := .always (fun a b => b = a) (fun _ => rfl)
      fun _ _ _ h h' => h'.trans h) rfl h
    exact hlow

end Ledger.Mirrors

-- ---------------------------------------------------------------------------
-- Runs
-- ---------------------------------------------------------------------------

namespace Book

def backing : Course ε Book := .onSuccess (fun b b' => b.Backed → b'.Backed) (fun _ hb => hb)
  fun _ _ _ h h' hb => h' (h hb)

theorem submit_takes_backing (cl : Call) :
    (submit cl).Takes ((backing : Course BridgeError Book).before .ledger) := by
  refine submit_takes fun _ m _ c _ => takes_onSuccess fun b _ b' h hb => ?_
  exact hb.posted (Movement.carryCoin_posted h) (m.held_coinFigures c)

variable {b b' : Book} {funds : List (Address × Coins)}

theorem modules_backed (modules : List (ModuleName × List Permission)) :
    (modules.foldl (fun b m => b.addModule m.1 m.2) empty).Backed :=
  List.foldlRecOn modules _ backed_empty fun _ hb m _ => hb.addModule m.1 m.2

theorem modules_low (hm : 0 < c.multiplier.val) (modules : List (ModuleName × List Permission)) :
    (modules.foldl (fun b m => b.addModule m.1 m.2) empty).LowBut c A :=
  List.foldlRecOn modules _ (fun _ _ => hm) fun _ hlow _ _ => hlow

theorem funded_keeps {P : Book → Prop}
    (hP : ∀ f ∈ funds, ∀ b b', (fund f.1 f.2).Gives b (.ok ()) b' → P b → P b') (hb : P b)
    (h : (funds.forM fun f => fund f.1 f.2).Gives b (.ok ()) b') : P b' := by
  induction funds generalizing b with
  | nil =>
    obtain ⟨-, rfl⟩ := gives_forM_nil.mp h
    exact hb
  | cons f funds ih =>
    obtain ⟨r, h₁, h₂⟩ := gives_forM_cons_ok.mp h
    exact ih (fun g hg => hP g (List.mem_cons_of_mem _ hg)) (hP f List.mem_cons_self b r h₁ hb) h₂

theorem funded_backed (hb : b.Backed)
    (h : (funds.forM fun f => fund f.1 f.2).Gives b (.ok ()) b') : b'.Backed :=
  funded_keeps (fun _ _ _ _ h hb => hb.fund h) hb h

theorem funded_low (hfunds : ∀ f ∈ funds, ∀ coin ∈ f.2, coin.denom ≠ c.evmDenom)
    (hlow : b.LowBut c A) (h : (funds.forM fun f => fund f.1 f.2).Gives b (.ok ()) b') :
    b'.LowBut c A := by
  refine funded_keeps (P := fun b => b.LowBut c A) (fun f hf b b' h hlow => ?_) hlow h
  have hp := Movement.carryOut_posted (m := .create f.1) h
  exact hlow.posted hp fun a => (Movement.balance_figures_absent _ (hfunds f hf) a).le

end Book

namespace Keeper

variable {k : Keeper} {r : Recorded Book} {q : KeeperRequest}

theorem take_backed (k : Keeper) (q : KeeperRequest) (hb : r.ledger.Backed) :
    (k.take (.plain (.keeper q)) r).state.ledger.Backed := by
  cases ha : (k.take (.plain (.keeper q)) r).answer with
  | error e => rwa [k.take_error ha]
  | ok reply =>
    exact perform_takes_of_calls
      (fun cl => Book.mirrors_recorded.carries.call_takes (Book.submit_takes_backing cl)) q
      (k.take_ok ha) rfl hb

theorem take_dustFree (hq : q.dustFree k.config = true)
    (hlow : r.ledger.LowBut k.config fun _ => False) :
    (k.take (.plain (.keeper q)) r).state.ledger.LowBut k.config fun _ => False := by
  cases ha : (k.take (.plain (.keeper q)) r).answer with
  | error e => rwa [k.take_error ha]
  | ok reply => exact Book.mirrors_recorded.perform_low (k.take_ok ha) hq hlow

def BurnsAll (k : Keeper) (L : Ledger σ) (s : σ) (name : ModuleName) (e : Address) (v : Amount) :
    Prop :=
  ∃ t, (k.burnCoins L name [k.config.evmCoin v]).Gives s (.ok ()) t ∧
    (k.balance L e k.config.evmDenom).Gives t (.ok (k.config.evmCoin .zero)) t

/-- After a run of requests on a ledger that was funded with other coins than evm coins, a
module can burn all that it is said to have just when its dust is below a unit. That is so
unless evm units came to someone without a sweep. -/
theorem play_burns_all {modules : List (ModuleName × List Permission)}
    {funds : List (Address × Coins)} {b : Book}
    (hfunds : ∀ f ∈ funds, ∀ coin ∈ f.2, coin.denom ≠ k.config.evmDenom)
    (hb : (funds.forM fun f => Book.fund f.1 f.2).Gives
      (modules.foldl (fun b m => b.addModule m.1 m.2) .empty) (.ok ()) b)
    (qs : List KeeperRequest) (hr : (k.play (qs.map (.plain <| .keeper ·)) (.start b)).2 = r)
    (he : r.ledger.addressWith name .burner = .ok e)
    (hv : (k.balance Book.ledger.recorded e k.config.evmDenom).Gives r
      (.ok (k.config.evmCoin v)) r) :
    (k.BurnsAll Book.ledger.recorded r name e v ↔
      (r.ledger.balance e k.config.evmDenom).val < k.config.multiplier.val) ∧
    ((∀ q ∈ qs, q.dustFree k.config = true) →
      k.BurnsAll Book.ledger.recorded r name e v) := by
  have hm := k.one_lt_multiplier
  have hbacked : r.ledger.Backed := by
    rw [← hr]
    refine k.play_ends (fun t ht r hr => ?_) (Book.funded_backed (Book.modules_backed modules) hb)
    obtain ⟨q, -, rfl⟩ := List.mem_map.mp ht
    exact k.take_backed q hr
  have hiff := Book.mirrors_recorded.burn_all_iff hbacked he hv
  refine ⟨hiff, fun hqs => hiff.mpr ?_⟩
  have hlow : r.ledger.LowBut k.config fun _ => False := by
    rw [← hr]
    refine k.play_ends (P := fun b => b.LowBut k.config fun _ => False) (fun t ht r hr => ?_)
      (Book.funded_low hfunds (Book.modules_low (by omega) modules) hb)
    obtain ⟨q, hq, rfl⟩ := List.mem_map.mp ht
    exact take_dustFree (hqs q hq) hr
  exact hbacked.spendable_val e k.config.evmDenom ▸ hlow e not_false

end Keeper

theorem play_burns_all_small :
    let k := Keeper.standard
    let L := Book.ledger.recorded
    let evm (n : Nat) : Coins := [k.config.evmCoin (.clamp n)]
    let qs : List KeeperRequest := [.accountToModule "alice" "evm" (evm 1500000000003),
      .mintCoins "evm" (evm 4000000000000), .moduleToAccount "evm" "bob" (evm 7)]
    ∃ b r, ([("alice", [k.config.cosmosCoin (.clamp 5)])].forM fun f => Book.fund f.1 f.2).Gives
        ([("evm", [.minter, .burner])].foldl (fun b m => b.addModule m.1 m.2) .empty) (.ok ()) b ∧
      (k.play (qs.map (.plain <| .keeper ·)) (.start b)).2 = r ∧
      k.BurnsAll L r "evm" "evm_module_account" (.clamp 5499999999996) := by
  intro k L evm qs
  obtain ⟨b, r, hb, hr, he, hv⟩ : ∃ b r,
      ([("alice", [k.config.cosmosCoin (.clamp 5)])].forM fun f => Book.fund f.1 f.2).Gives
        ([("evm", [.minter, .burner])].foldl (fun b m => b.addModule m.1 m.2) .empty) (.ok ()) b ∧
      (k.play (qs.map (.plain <| .keeper ·)) (.start b)).2 = r ∧
      r.ledger.addressWith "evm" .burner = .ok "evm_module_account" ∧
      (k.balance L "evm_module_account" k.config.evmDenom).Gives r
        (.ok (k.config.evmCoin (.clamp 5499999999996))) r :=
    ⟨_, _, ⟨by decide +kernel, rfl⟩, rfl, by decide +kernel,
      Book.mirrors_recorded.balance_ok.mpr ⟨rfl, by decide +kernel⟩⟩
  exact ⟨b, r, hb, hr, (k.play_burns_all (by decide) hb qs hr he hv).2 (by decide +kernel)⟩

/-- Two mints of less than a unit leave a module with more than one in evm units: it is said to
have them, and it cannot burn them. -/
theorem mints_leave_dust :
    let k := Keeper.standard
    let L := Book.ledger.recorded
    let evm (n : Nat) : Coins := [k.config.evmCoin (.clamp n)]
    let qs : List KeeperRequest := [.mintCoins "evm" (evm 600000000000),
      .mintCoins "evm" (evm 600000000000)]
    ∃ r, (k.play (qs.map (.plain <| .keeper ·)) (.start Book.smallModules)).2 = r ∧
      r.ledger.addressWith "evm" .burner = .ok "evm_module_account" ∧
      (k.balance L "evm_module_account" k.config.evmDenom).Gives r
        (.ok (k.config.evmCoin (.clamp 1200000000000))) r ∧
      (∃ t, (k.burnCoins L "evm" (evm 1200000000000)).Gives r (.error (.ledger
        (.insufficientFunds "evm_module_account" k.config.cosmosDenom .zero .one))) t) ∧
      ¬k.BurnsAll L r "evm" "evm_module_account" (.clamp 1200000000000) := by
  intro k L evm qs
  obtain ⟨r, hr, he, hv, t, ht⟩ : ∃ r,
      (k.play (qs.map (.plain <| .keeper ·)) (.start Book.smallModules)).2 = r ∧
      r.ledger.addressWith "evm" .burner = .ok "evm_module_account" ∧
      (k.balance L "evm_module_account" k.config.evmDenom).Gives r
        (.ok (k.config.evmCoin (.clamp 1200000000000))) r ∧
      ∃ t, (k.burnCoins L "evm" (evm 1200000000000)).Gives r (.error (.ledger
        (.insufficientFunds "evm_module_account" k.config.cosmosDenom .zero .one))) t :=
    ⟨_, rfl, by decide +kernel, Book.mirrors_recorded.balance_ok.mpr ⟨rfl, by decide +kernel⟩, _,
      by decide +kernel, rfl⟩
  refine ⟨r, hr, he, hv, ⟨t, ht⟩, ?_⟩
  rintro ⟨u, hu, -⟩
  cases (hu.unique ht).1

end DualDenom
