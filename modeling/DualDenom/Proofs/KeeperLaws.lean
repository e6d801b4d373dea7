import DualDenom.Proofs.ConversionLaws

/-!
# What the keeper posts

A move of evm coins is the two legs of its split plus conversions at the
holders that take part, so that beside the legs nothing of value moves. The
two legs are worth the amount that was asked for, whichever movement carries
them.
-/

namespace DualDenom

open DualDenom.Action Figures

-- ---------------------------------------------------------------------------
-- Questions
-- ---------------------------------------------------------------------------

theorem Ledger.ask_ok {f : σ → Except LedgerError α} :
    (Ledger.ask f).Gives s (.ok a) t ↔ f s = .ok a ∧ t = s := by
  rw [ask, gives_mapError_ok, gives_query]

theorem Ledger.ask_error {f : σ → Except LedgerError α} :
    (Ledger.ask f).Gives s (.error e) t ↔ ∃ e₀, f s = .error e₀ ∧ e = .ledger e₀ ∧ t = s := by
  simp only [ask, gives_mapError_error, gives_query]
  constructor
  · rintro ⟨e₀, ⟨h, rfl⟩, rfl⟩
    exact ⟨e₀, h, rfl, rfl⟩
  · rintro ⟨e₀, h, rfl, rfl⟩
    exact ⟨e₀, ⟨h, rfl⟩, rfl⟩

namespace Keeper

variable {k : Keeper} {L : Ledger σ}

theorem balanceParts_ok : (k.balanceParts L a).Gives s (.ok p) t ↔
    ∃ cs, L.spendableCoins s a = .ok cs ∧ t = s ∧
      p = ⟨cs.amountOf k.config.cosmosDenom, cs.amountOf k.config.evmDenom⟩ := by
  simp only [balanceParts, gives_bind_ok, Ledger.ask_ok, gives_pure, Except.ok.injEq]
  constructor
  · rintro ⟨cs, _, ⟨hcs, rfl⟩, rfl, rfl⟩
    exact ⟨cs, hcs, rfl, rfl⟩
  · rintro ⟨cs, hcs, rfl, rfl⟩
    exact ⟨cs, t, ⟨hcs, rfl⟩, rfl, rfl⟩

theorem balance_ok : (k.balance L a d).Gives s (.ok coin) t ↔
    d = k.config.evmDenom ∧ t = s ∧ ∃ cs n, L.spendableCoins s a = .ok cs ∧
      (⟨cs.amountOf k.config.cosmosDenom, cs.amountOf k.config.evmDenom⟩ : Split).merge
        k.config.multiplier = .ok n ∧ coin = k.config.evmCoin n := by
  unfold balance
  split
  · rename_i hd
    simp only [gives_bind_ok, balanceParts_ok, gives_ofExcept, mapError_ok, gives_pure,
      Except.ok.injEq]
    constructor
    · rintro ⟨_, _, ⟨cs, hcs, rfl, rfl⟩, n, _, ⟨hn, rfl⟩, rfl, rfl⟩
      exact ⟨hd, rfl, cs, n, hcs, hn, rfl⟩
    · rintro ⟨-, rfl, cs, n, hcs, hn, rfl⟩
      exact ⟨_, t, ⟨cs, hcs, rfl, rfl⟩, n, t, ⟨hn, rfl⟩, rfl, rfl⟩
  · rename_i hd
    simp [gives_fail, hd]

end Keeper

theorem Ledger.Mirrors.balance_ok {L : Ledger σ} {book : σ → Book} {k : Keeper} {n : Amount}
    (hL : L.Mirrors book) :
    (k.balance L a k.config.evmDenom).Gives s (.ok (k.config.evmCoin n)) t ↔
      t = s ∧ n.val = ((book s).spendable a k.config.cosmosDenom).val * k.config.multiplier.val +
        ((book s).spendable a k.config.evmDenom).val := by
  simp only [Keeper.balance_ok, hL.spendableCoins, Except.ok.injEq, Split.merge_ok, true_and]
  constructor
  · rintro ⟨rfl, _, n', rfl, hn, hc⟩
    simp only [Book.amountOf_spendableCoins] at hn
    obtain rfl : n = n' := congrArg Coin.amount hc
    exact ⟨rfl, hn⟩
  · rintro ⟨rfl, hn⟩
    exact ⟨rfl, _, n, rfl, by simpa only [Book.amountOf_spendableCoins] using hn, rfl⟩

-- ---------------------------------------------------------------------------
-- Legs
-- ---------------------------------------------------------------------------

namespace Keeper

variable {k : Keeper} {L : Ledger σ} {f : Coins → Call} {sp : Split}

theorem callUnlessZero_ok : (callUnlessZero L c f).Gives s (.ok ()) t ↔
    (c.amount.val = 0 ∧ t = s) ∨ (c.amount.val ≠ 0 ∧ (L.call (f [c])).Gives s (.ok ()) t) := by
  unfold callUnlessZero
  split
  · rename_i hz
    simp [gives_pure, Amount.isZero_iff.mp hz]
  · rename_i hz
    have hne : c.amount.val ≠ 0 := fun h => hz (Amount.isZero_iff.mpr h)
    simp [hne]

/-- After the whole leg a remainder takes a top-up, its own leg and the sweeps. -/
theorem moveSplit_ok : (k.moveSplit L sp source swept f).Gives s (.ok ()) t ↔
    ∃ r, (callUnlessZero L (k.config.wholeCoin sp) f).Gives s (.ok ()) r ∧
      ((sp.remainder.val = 0 ∧ t = r) ∨ (sp.remainder.val ≠ 0 ∧ ∃ u p q,
        (L.topUp k.config source sp.remainder).Gives r (.ok u) p ∧
        (L.call (f [k.config.remainderCoin sp])).Gives p (.ok ()) q ∧
        (swept.forM fun hd => do let _ ← L.sweepDust k.config hd).Gives q (.ok ()) t)) := by
  rw [moveSplit, gives_bind_ok]
  constructor
  · rintro ⟨_, r, hw, h⟩
    refine ⟨r, hw, ?_⟩
    split at h
    · rename_i hz
      exact .inl ⟨Amount.isZero_iff.mp hz, (gives_pure.mp h).2⟩
    · rename_i hz
      simp only [gives_bind_ok] at h
      obtain ⟨u, p, ht, _, q, hc, hs⟩ := h
      exact .inr ⟨fun h => hz (Amount.isZero_iff.mpr h), u, p, q, ht, hc, hs⟩
  · rintro ⟨r, hw, h⟩
    refine ⟨(), r, hw, ?_⟩
    split
    · rename_i hz
      rcases h with ⟨-, rfl⟩ | ⟨hne, -⟩
      · exact gives_pure.mpr ⟨rfl, rfl⟩
      · exact absurd (Amount.isZero_iff.mp hz) hne
    · rename_i hz
      rcases h with ⟨h₀, -⟩ | ⟨-, u, p, q, ht, hc, hs⟩
      · exact absurd (Amount.isZero_iff.mpr h₀) hz
      · simp only [gives_bind_ok]
        exact ⟨u, p, ht, (), q, hc, hs⟩

def legFigures (k : Keeper) (m : Movement) (sp : Split) : Figures :=
  m.coinFigures (k.config.wholeCoin sp) + m.coinFigures (k.config.remainderCoin sp)

variable {n : Amount}

theorem worth_balance_legs (hn : sp.merge k.config.multiplier = .ok n) (a t x : Address) :
    k.config.worth ((k.legFigures (.transfer a t) sp).balance x) =
      (if x = t then (n.val : Int) else 0) - if x = a then (n.val : Int) else 0 := by
  have hne := k.evm_ne_cosmos
  rw [Split.merge_ok.mp hn]
  simp only [Config.worth, legFigures, Movement.coinFigures, Config.wholeCoin, Config.cosmosCoin,
    Config.remainderCoin, Config.evmCoin, balance_add, balance_neg, balance_inHand, hne, hne.symm,
    and_true, and_false, if_false, neg_zero, add_zero, zero_add, Nat.cast_add, Nat.cast_mul]
  split_ifs <;> ring

theorem balance_legs_elsewhere (k : Keeper) (sp : Split) (ha : x ≠ a) (ht : x ≠ t) (d : Denom) :
    (k.legFigures (.transfer a t) sp).balance x d = 0 := by
  simp [legFigures, Movement.coinFigures, ha, ht]

theorem balance_legs_foreign (k : Keeper) (sp : Split) (he : d ≠ k.config.evmDenom)
    (hc : d ≠ k.config.cosmosDenom) (a t x : Address) :
    (k.legFigures (.transfer a t) sp).balance x d = 0 := by
  simp [legFigures, Movement.coinFigures, Config.wholeCoin, Config.remainderCoin,
    Config.cosmosCoin, Config.evmCoin, he, hc]

theorem split_merge (h : (k.split cs).Gives s (.ok sp) t) :
    t = s ∧ ∃ n, cs.evmAmount k.config.evmDenom = .ok n ∧ sp.merge k.config.multiplier = .ok n := by
  obtain ⟨rfl, n, hn, hw, hr⟩ := split_ok.mp h
  exact ⟨rfl, n, hn, Split.merge_ok.mpr (by rw [hw, hr, Nat.mul_comm, Nat.div_add_mod])⟩

theorem split_remainder (h : (k.split cs).Gives s (.ok sp) t) :
    sp.remainder.val < k.config.multiplier.val := by
  obtain ⟨-, n, -, -, hr⟩ := split_ok.mp h
  exact hr ▸ Nat.mod_lt _ (Nat.pos_of_ne_zero k.multiplier_ne_zero)

theorem split_evmCoin (k : Keeper) (n : Amount) (s : σ) :
    ∃ sp, (k.split [k.config.evmCoin n]).Gives s (.ok sp) s ∧
      sp.merge k.config.multiplier = .ok n := by
  let sp : Split := ⟨⟨_, (Nat.div_le_self n.val k.config.multiplier.val).trans_lt n.isLt⟩,
    ⟨_, (Nat.mod_le n.val k.config.multiplier.val).trans_lt n.isLt⟩⟩
  have hn := Coins.evmAmount_singleton k.evm_wellFormed n
  exact ⟨sp, split_ok.mpr ⟨rfl, n, hn, rfl, rfl⟩, Split.merge_ok.mpr (Nat.div_add_mod' ..).symm⟩

end Keeper

namespace Ledger.Carries

variable {L : Ledger σ} {book : σ → Book} {k : Keeper} {f : Coins → Call} {m : Movement} {sp : Split}

theorem callUnlessZero_posted (hL : L.Carries book) (hcs : ∀ cs, (f cs).coins = cs)
    (hm : ∀ cs m', (book s).movement (f cs) = .ok m' → m' = m)
    (h : (Keeper.callUnlessZero L c f).Gives s (.ok ()) t) :
    (book s).Posted (m.coinFigures c) (book t) := by
  rcases Keeper.callUnlessZero_ok.mp h with ⟨hz, rfl⟩ | ⟨-, h⟩
  · rw [m.coinFigures_of_isZero hz]
    exact .refl _
  · obtain ⟨m', hm', hp⟩ := hL.call_ok h
    rw [hcs, hm _ m' hm', Movement.figures_singleton] at hp
    exact hp

theorem splitLegs_posted (hL : L.Carries book) (hcs : ∀ cs, (f cs).coins = cs)
    (hm : ∀ cs m', (book s).movement (f cs) = .ok m' → m' = m)
    (h : Gives (do
      let sp ← k.split cs
      Keeper.callUnlessZero L (k.config.wholeCoin sp) f
      Keeper.callUnlessZero L (k.config.remainderCoin sp) f) s (.ok ()) t) :
    ∃ sp, (k.split cs).Gives s (.ok sp) s ∧ (book s).Posted (k.legFigures m sp) (book t) := by
  simp only [gives_bind_ok] at h
  obtain ⟨sp, r, hsp, _, _, hw, hr⟩ := h
  obtain rfl := (Keeper.split_merge hsp).1
  have hp := hL.callUnlessZero_posted hcs hm hw
  refine ⟨sp, hsp, hp.trans (hL.callUnlessZero_posted hcs (fun cs m' hm' => hm cs m' ?_) hr)⟩
  rw [← hm', Book.movement_congr hp.settings]

theorem legs_posted (hL : L.Carries book) (hcs : ∀ cs, (f cs).coins = cs)
    (hm : ∀ cs m', (book s).movement (f cs) = .ok m' → m' = m)
    (h : Gives (do
      let sp ← k.split cs
      Keeper.callUnlessZero L (k.config.wholeCoin sp) f
      Keeper.callUnlessZero L (k.config.remainderCoin sp) f) s (.ok ()) t) :
    ∃ n sp, cs.evmAmount k.config.evmDenom = .ok n ∧ sp.merge k.config.multiplier = .ok n ∧
      (book s).Posted (k.legFigures m sp) (book t) := by
  obtain ⟨sp, hsp, hp⟩ := hL.splitLegs_posted hcs hm h
  obtain ⟨-, n, hn, hmerge⟩ := Keeper.split_merge hsp
  exact ⟨n, sp, hn, hmerge, hp⟩

/-- A move posts its legs, and conversions at the holders that take part. -/
theorem moveSplit_posted (hL : L.Carries book) (hcs : ∀ cs, (f cs).coins = cs)
    (hm : ∀ cs m', (book s).movement (f cs) = .ok m' → m' = m)
    (h : (k.moveSplit L sp source swept f).Gives s (.ok ()) t) :
    ∃ e, Neutral k.config (fun a => ∃ hd ∈ source :: swept, (book s).addressOf hd = .ok a) e ∧
      (book s).Posted (k.legFigures m sp + e) (book t) := by
  obtain ⟨r, hw, h⟩ := Keeper.moveSplit_ok.mp h
  have hpw := hL.callUnlessZero_posted hcs hm hw
  rcases h with ⟨hz, rfl⟩ | ⟨-, u, p, q, ht, hc, hs⟩
  · refine ⟨0, neutral_zero, hpw.cast ?_⟩
    rw [Keeper.legFigures, m.coinFigures_of_isZero (c := k.config.remainderCoin sp) hz, add_zero,
      add_zero]
  · obtain ⟨a, ha, hpt⟩ := hL.topUp_posted ht
    obtain ⟨m', hm', hpc⟩ := hL.call_ok hc
    have hsp := hpw.settings.trans hpt.settings
    rw [Book.movement_congr hsp] at hm'
    rw [hcs, hm _ m' hm', Movement.figures_singleton] at hpc
    obtain ⟨e, he, hps⟩ := hL.sweeps_posted k.evm_ne_cosmos hs
    have hsq := hsp.trans hpc.settings
    have hnt : Neutral k.config (fun a => ∃ hd ∈ source :: swept, (book s).addressOf hd = .ok a)
        (conversion k.config a u.val) :=
      neutral_conversion k.evm_ne_cosmos fun hu =>
        ⟨source, List.mem_cons_self, (hpw.settings.addressOf source).symm.trans (ha hu)⟩
    have hns : Neutral k.config (fun a => ∃ hd ∈ source :: swept, (book s).addressOf hd = .ok a) e := by
      refine he.mono ?_
      rintro x ⟨hd, hmem, hx⟩
      exact ⟨hd, List.mem_cons_of_mem _ hmem, (hsq.addressOf hd).symm.trans hx⟩
    refine ⟨_, hnt.add hns, (((hpw.trans hpt).trans hpc).trans hps).cast ?_⟩
    rw [Keeper.legFigures]
    abel

theorem move_posted (hL : L.Carries book) (hcs : ∀ cs, (f cs).coins = cs)
    (hm : ∀ cs m', (book s).movement (f cs) = .ok m' → m' = m)
    (h : Gives (do let sp ← k.split cs; k.moveSplit L sp source swept f) s (.ok ()) t) :
    ∃ n sp e, cs.evmAmount k.config.evmDenom = .ok n ∧ sp.merge k.config.multiplier = .ok n ∧
      Neutral k.config (fun a => ∃ hd ∈ source :: swept, (book s).addressOf hd = .ok a) e ∧
      (book s).Posted (k.legFigures m sp + e) (book t) := by
  simp only [gives_bind_ok] at h
  obtain ⟨sp, r, hsp, h⟩ := h
  obtain ⟨rfl, n, hn, hmerge⟩ := Keeper.split_merge hsp
  obtain ⟨e, he, hp⟩ := hL.moveSplit_posted hcs hm h
  exact ⟨n, sp, e, hn, hmerge, he, hp⟩

-- ---------------------------------------------------------------------------
-- Requests
-- ---------------------------------------------------------------------------

theorem mintCoins_posted (hL : L.Carries book) (h : (k.mintCoins L name cs).Gives s (.ok ()) t) :
    ∃ n sp e, cs.evmAmount k.config.evmDenom = .ok n ∧ sp.merge k.config.multiplier = .ok n ∧
      (book s).Posted (k.legFigures (.create e) sp) (book t) := by
  obtain ⟨e, he⟩ := exists_ok_unique ((book s).addressWith name .minter)
  have hcall : ∀ cs m', (book s).movement (.mint name cs) = .ok m' → m' = .create e := by
    intro cs m' hm'
    obtain ⟨e', he', rfl⟩ := Book.movement_mint.mp hm'
    rw [he e' he']
  obtain ⟨n, sp, hn, hm, hp⟩ := hL.legs_posted (fun _ => rfl) hcall h
  exact ⟨n, sp, e, hn, hm, hp⟩

theorem burnCoins_posted (hL : L.Carries book) (h : (k.burnCoins L name cs).Gives s (.ok ()) t) :
    ∃ n sp e, cs.evmAmount k.config.evmDenom = .ok n ∧ sp.merge k.config.multiplier = .ok n ∧
      (book s).Posted (k.legFigures (.destroy e) sp) (book t) := by
  obtain ⟨e, he⟩ := exists_ok_unique ((book s).addressWith name .burner)
  have hcall : ∀ cs m', (book s).movement (.burn name cs) = .ok m' → m' = .destroy e := by
    intro cs m' hm'
    obtain ⟨e', he', rfl⟩ := Book.movement_burn.mp hm'
    rw [he e' he']
  obtain ⟨n, sp, hn, hm, hp⟩ := hL.legs_posted (fun _ => rfl) hcall h
  exact ⟨n, sp, e, hn, hm, hp⟩

theorem accountToModule_posted (hL : L.Carries book)
    (he : ∀ e', (book s).moduleAddress name = .ok e' → e' = e)
    (h : (k.accountToModule L a name cs).Gives s (.ok ()) t) :
    ∃ n sp g, cs.evmAmount k.config.evmDenom = .ok n ∧ sp.merge k.config.multiplier = .ok n ∧
      Neutral k.config (fun x => x = a ∨ x = e) g ∧
      (book s).Posted (k.legFigures (.transfer a e) sp + g) (book t) := by
  obtain ⟨n, sp, g, hn, hm, hg, hp⟩ :=
    hL.move_posted (fun _ => rfl) (fun _ _ => Book.movement_into he) h
  refine ⟨n, sp, g, hn, hm, hg.mono ?_, hp⟩
  simp only [List.mem_cons, List.not_mem_nil, or_false]
  rintro x ⟨hd, rfl | rfl | rfl, hx⟩
  · exact .inl (Except.ok.inj hx).symm
  · exact .inl (Except.ok.inj hx).symm
  · exact .inr (he x hx)

theorem moduleToAccount_posted (hL : L.Carries book)
    (he : ∀ e', (book s).moduleAddress name = .ok e' → e' = e)
    (h : (k.moduleToAccount L name a cs).Gives s (.ok ()) t) :
    ∃ n sp g, cs.evmAmount k.config.evmDenom = .ok n ∧ sp.merge k.config.multiplier = .ok n ∧
      Neutral k.config (fun x => x = e ∨ x = a) g ∧
      (book s).Posted (k.legFigures (.transfer e a) sp + g) (book t) := by
  obtain ⟨n, sp, g, hn, hm, hg, hp⟩ :=
    hL.move_posted (fun _ => rfl) (fun _ _ => Book.movement_outOf he) h
  refine ⟨n, sp, g, hn, hm, hg.mono ?_, hp⟩
  simp only [List.mem_cons, List.not_mem_nil, or_false]
  rintro x ⟨hd, rfl | rfl, hx⟩
  · exact .inl (he x hx)
  · exact .inr (Except.ok.inj hx).symm

theorem sendCoins_posted (hL : L.Carries book)
    (h : (k.sendCoins L source target cs).Gives s (.ok ()) t) :
    ∃ moved, cs.movable k.config = .ok moved ∧
      (book s).Posted ((Movement.transfer source target).figures moved) (book t) := by
  simp only [Keeper.sendCoins, gives_bind_ok, gives_ofExcept, mapError_ok] at h
  obtain ⟨moved, _, ⟨hm, rfl⟩, h⟩ := h
  refine ⟨moved, hm, ?_⟩
  split at h
  · rename_i hnil
    obtain ⟨-, rfl⟩ := gives_pure.mp h
    rw [List.isEmpty_iff.mp hnil]
    exact .refl _
  · obtain ⟨m', hm', hp⟩ := hL.call_ok h
    simp only [Book.movement, bind_ok, pure_ok] at hm'
    obtain ⟨_, -, rfl⟩ := hm'
    exact hp

end Ledger.Carries

-- ---------------------------------------------------------------------------
-- A small ledger
-- ---------------------------------------------------------------------------

def Keeper.standard : Keeper := ⟨.standard, rfl⟩

def Book.smallModules : Book := (Book.empty.addModule "evm" [.minter, .burner]).addModule "fee" []

def Book.smallFunds : Book.Change Unit := do
  Book.fund "alice" [⟨"aorai", ⟨3, by decide⟩⟩, ⟨"orai", ⟨5, by decide⟩⟩]
  Book.fund "fee_module_account" [⟨"aorai", ⟨999999999990, by decide⟩⟩, ⟨"orai", ⟨2, by decide⟩⟩]

def Book.small : Book := (Book.smallFunds.run Book.smallModules).state

end DualDenom
