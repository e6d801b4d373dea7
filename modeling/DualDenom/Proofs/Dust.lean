import DualDenom.Proofs.Exchanges
import DualDenom.Proofs.KeeperLaws
import DualDenom.Proofs.Runs

/-!
# Dust

No address can spend a whole unit's worth of evm units, and no escrow move and
no sweep changes that. Whoever receives a remainder is swept. Whoever sends one
may not be: there the bound rests on the top-up, which converts one unit only,
and only where less than the remainder was there.
-/

namespace DualDenom

open DualDenom.Action Figures

/-- What may be spent of the evm denom is less than a unit, but for some addresses. -/
def Book.LowBut (c : Config) (A : Address → Prop) (b : Book) : Prop :=
  ∀ a, ¬A a → (b.spendable a c.evmDenom).val < c.multiplier.val

namespace Book

variable {c : Config} {b b' : Book} {A B : Address → Prop}

theorem LowBut.mono (h : b.LowBut c A) (hAB : ∀ a, A a → B a) : b.LowBut c B :=
  fun a ha => h a fun hA => ha (hAB a hA)

end Book

namespace Ledger.Mirrors

variable {L : Ledger σ} {book : σ → Book} {k : Keeper} {A : Address → Prop}

theorem sweepDust_low (hL : L.Mirrors book) (h : (L.sweepDust k.config hd).Gives s (.ok u) t)
    (hlow : (book s).LowBut k.config A) :
    (book t).LowBut k.config fun a => A a ∧ (book s).addressOf hd ≠ .ok a := by
  obtain ⟨y, hy⟩ := hL.sweepDust_resolves h
  have hswept := hL.sweepDust_swept k.evm_ne_cosmos hy h
  intro x hx
  by_cases hxy : x = y
  · subst hxy
    rw [hswept.rest]
    exact Nat.mod_lt _ (Nat.pos_of_ne_zero k.multiplier_ne_zero)
  · rw [hswept.exchanged.spendable_others hxy]
    exact hlow x fun hA => hx ⟨hA, fun h => hxy (Except.ok.inj (h.symm.trans hy))⟩

theorem sweeps_low {hs : List Holder} (hL : L.Mirrors book)
    (h : (hs.forM fun hd => do let _ ← L.sweepDust k.config hd).Gives s (.ok ()) t)
    (hlow : (book s).LowBut k.config A) :
    (book t).LowBut k.config fun a => A a ∧ ∀ hd ∈ hs, (book s).addressOf hd ≠ .ok a := by
  induction hs generalizing s A with
  | nil =>
    obtain ⟨-, rfl⟩ := gives_forM_nil.mp h
    exact hlow.mono fun a hA => ⟨hA, fun _ hd => absurd hd List.not_mem_nil⟩
  | cons hd hs ih =>
    obtain ⟨u, r, h₁, h⟩ := Ledger.sweeps_cons_ok.mp h
    obtain ⟨_, -, hp⟩ := hL.carries.sweepDust_posted h₁
    refine (ih h (hL.sweepDust_low h₁ hlow)).mono ?_
    rintro a ⟨⟨hA, hhd⟩, hhs⟩
    refine ⟨hA, fun hd' hmem => ?_⟩
    rcases List.mem_cons.mp hmem with rfl | hmem
    · exact hhd
    · rw [← hp.settings.addressOf hd']
      exact hhs hd' hmem

theorem topUp_units (hL : L.Mirrors book) (hq : q.val < k.config.multiplier.val)
    (h : (L.topUp k.config hd q).Gives s (.ok u) t) : u.val = 0 ∨
      u.val = 1 ∧ ∃ a, (book s).addressOf hd = .ok a ∧
        ((book s).spendable a k.config.evmDenom).val < q.val := by
  rcases topUp_ok.mp h with ⟨-, rfl, -⟩ | ⟨-, n, hn, ⟨-, rfl, -⟩ | ⟨hlt, hu, -⟩⟩
  · exact .inl rfl
  · exact .inl rfl
  · obtain ⟨⟨a, ha, rfl⟩, -⟩ := hL.spendableEvm_ok.mp hn
    exact .inr ⟨Config.unitsFor_small hu hq hlt, a, ha, hlt⟩

theorem sender_low (hL : L.Mirrors book) (hq : q.val < k.config.multiplier.val)
    (hx : (book s).addressOf hd = .ok x) (ht : (L.topUp k.config hd q).Gives s (.ok u) p)
    (hc : (book p).Posted ((Movement.transfer x y).coinFigures (k.config.evmCoin q)) b) (hxy : x ≠ y)
    (hlow : ((book s).spendable x k.config.evmDenom).val < k.config.multiplier.val) :
    (b.spendable x k.config.evmDenom).val < k.config.multiplier.val := by
  have hp := ((hL.carries.topUp_posted ht).posted hx).trans hc
  have hbal := hp.balance x k.config.evmDenom
  simp only [balance_add, balance_conversion, Movement.coinFigures, balance_neg, balance_inHand,
    Config.evmCoin, and_self, if_true, hxy, false_and, if_false, add_zero,
    k.config.rate_evm k.evm_ne_cosmos] at hbal
  rw [Book.spendable_val] at hlow ⊢
  rw [hp.settings.locked]
  rcases hL.topUp_units hq ht with hu | ⟨hu, a, ha, hlt⟩
  · rw [hu] at hbal
    omega
  · obtain rfl : x = a := Except.ok.inj (hx.symm.trans ha)
    rw [Book.spendable_val] at hlt
    rw [hu] at hbal
    omega

theorem remainder_low (hL : L.Mirrors book) (hq : q.val < k.config.multiplier.val)
    (hx : (book s).addressOf hd = .ok x) (ht : (L.topUp k.config hd q).Gives s (.ok u) p)
    (hc : (book p).Posted ((Movement.transfer x y).coinFigures (k.config.evmCoin q)) b)
    (hlow : (book s).LowBut k.config fun _ => False) : b.LowBut k.config (· = y) := by
  intro z hz
  have hlz := hlow z not_false
  by_cases hzx : z = x
  · subst hzx
    exact hL.sender_low hq hx ht hc hz hlz
  · have hp := ((hL.carries.topUp_posted ht).posted hx).trans hc
    rw [hp.spendable_eq (by simp [Movement.coinFigures, hz, hzx])]
    exact hlz

theorem move_low (hL : L.Mirrors book) (hcs : ∀ cs, (f cs).coins = cs)
    (hm : ∀ cs m, (book s).movement (f cs) = .ok m → m = .transfer x y ∧
      (book s).addressOf source = .ok x ∧ ∃ hd ∈ swept, (book s).addressOf hd = .ok y)
    (h : Gives (do let sp ← k.split cs; k.moveSplit L sp source swept f) s (.ok ()) t)
    (hlow : (book s).LowBut k.config fun _ => False) : (book t).LowBut k.config fun _ => False := by
  simp only [gives_bind_ok] at h
  obtain ⟨sp, s', hsp, h⟩ := h
  obtain ⟨rfl, -⟩ := Keeper.split_merge hsp
  obtain ⟨r, hw, h⟩ := Keeper.moveSplit_ok.mp h
  have hpw := hL.carries.callUnlessZero_posted hcs (fun cs m hcm => (hm cs m hcm).1) hw
  have hlow₁ : (book r).LowBut k.config fun _ => False := by
    intro a ha
    rw [hpw.spendable_eq]
    · exact hlow a ha
    · simp [Movement.coinFigures, Config.wholeCoin, Config.cosmosCoin, k.evm_ne_cosmos]
  rcases h with ⟨-, rfl⟩ | ⟨-, u, p, q, ht, hc, hs⟩
  · exact hlow₁
  · obtain ⟨_, -, hpt⟩ := hL.carries.topUp_posted ht
    obtain ⟨m', hm', hpc⟩ := hL.carries.call_ok hc
    have hsetp := hpw.settings.trans hpt.settings
    rw [Book.movement_congr hsetp] at hm'
    obtain ⟨rfl, hx, hd, hmem, hhd⟩ := hm _ m' hm'
    rw [hcs, Movement.figures_singleton] at hpc
    have hlow₂ := hL.remainder_low (Keeper.split_remainder hsp)
      ((hpw.settings.addressOf source).trans hx) ht hpc hlow₁
    refine (hL.sweeps_low hs hlow₂).mono ?_
    rintro a ⟨rfl, hne⟩
    exact hne hd hmem (((hsetp.trans hpc.settings).addressOf hd).trans hhd)

theorem accountToModule_low (hL : L.Mirrors book)
    (h : (k.accountToModule L a name cs).Gives s (.ok ()) t)
    (hlow : (book s).LowBut k.config fun _ => False) : (book t).LowBut k.config fun _ => False := by
  obtain ⟨e, he⟩ := exists_ok_unique ((book s).moduleAddress name)
  refine hL.move_low (x := a) (y := e) (fun _ => rfl) (fun cs m hm => ?_) h hlow
  obtain ⟨e', he', rfl⟩ := Book.movement_accountToModule.mp hm
  obtain rfl := he e' he'
  exact ⟨rfl, rfl, .escrow name, by simp, he'⟩

theorem moduleToAccount_low (hL : L.Mirrors book)
    (h : (k.moduleToAccount L name a cs).Gives s (.ok ()) t)
    (hlow : (book s).LowBut k.config fun _ => False) : (book t).LowBut k.config fun _ => False := by
  obtain ⟨e, he⟩ := exists_ok_unique ((book s).moduleAddress name)
  refine hL.move_low (x := e) (y := a) (fun _ => rfl) (fun cs m hm => ?_) h hlow
  obtain ⟨e', he', -, rfl⟩ := Book.movement_moduleToAccount.mp hm
  obtain rfl := he e' he'
  exact ⟨rfl, he', .account a, by simp, rfl⟩

end Ledger.Mirrors

def Operation.isEscrowMove : Operation → Bool
  | .keeper (.accountToModule ..) | .keeper (.moduleToAccount ..) | .keeper (.sweep _) => true
  | _ => false

/-- A turn in which the ledger lists what may be spent. -/
def Turn.plain (op : Operation) : Turn := ⟨Book.ledger.recorded.spendableCoins, op⟩

theorem Keeper.take_low {k : Keeper} {r : Recorded Book} (hop : op.isEscrowMove = true)
    (hlow : r.ledger.LowBut k.config fun _ => False) :
    (k.take (.plain op) r).state.ledger.LowBut k.config fun _ => False := by
  cases ha : (k.take (.plain op) r).answer with
  | error e =>
    rw [k.take_error ha]
    exact hlow
  | ok reply =>
    have h : (k.operate Book.ledger.recorded op).Gives r (.ok reply) (k.take (.plain op) r).state :=
      k.take_ok ha
    unfold Operation.isEscrowMove at hop
    split at hop
    · exact Book.mirrors_recorded.accountToModule_low (gives_thenDone_ok.mp h).1 hlow
    · exact Book.mirrors_recorded.moduleToAccount_low (gives_thenDone_ok.mp h).1 hlow
    · simp only [Keeper.operate, Keeper.perform, gives_bind_ok, gives_pure] at h
      obtain ⟨u, _, h, -, ht⟩ := h
      rw [ht]
      exact (Book.mirrors_recorded.sweepDust_low h hlow).mono fun a hA => hA.1
    · cases hop

/-- At every moment of a run of escrow moves and sweeps all dust is below a unit. -/
theorem Keeper.play_low (k : Keeper) {ops : List Operation} {r : Recorded Book}
    (hops : ∀ op ∈ ops, op.isEscrowMove = true)
    (h : ∀ a, (r.ledger.spendable a k.config.evmDenom).val < k.config.multiplier.val) :
    ∀ m ∈ (k.play (ops.map .plain) r).1, ∀ a,
      (m.state.ledger.spendable a k.config.evmDenom).val < k.config.multiplier.val := by
  have hstep : ∀ t ∈ ops.map Turn.plain, ∀ r : Recorded Book,
      (r.ledger.LowBut k.config fun _ => False) →
        (k.take t r).state.ledger.LowBut k.config fun _ => False := by
    rintro t ht r hr
    obtain ⟨op, hop, rfl⟩ := List.mem_map.mp ht
    exact take_low (hops op hop) hr
  intro m hm a
  exact k.play_keeps (P := fun b => b.LowBut k.config fun _ => False) hstep (fun a _ => h a) m hm a
    not_false

theorem play_low_small :
    let k := Keeper.standard
    let r := Recorded.start Book.small
    let coins : Coins := [⟨"aorai", ⟨1000000000011, by decide⟩⟩]
    let ops : List Operation := [.keeper (.accountToModule "alice" "fee" coins),
      .keeper (.moduleToAccount "fee" "alice" coins), .keeper (.sweep (.escrow "evm"))]
    (k.play (ops.map .plain) r).1.map (·.answer.toOption.isSome) = [true, true, true] ∧
      ∀ m ∈ (k.play (ops.map .plain) r).1, ∀ a,
        (m.state.ledger.spendable a k.config.evmDenom).val < k.config.multiplier.val := by
  intro k r coins ops
  have htotal : (r.ledger.sheet k.config.evmDenom).total < k.config.multiplier.val := by
    decide +kernel
  have hlow : ∀ a, (r.ledger.spendable a k.config.evmDenom).val < k.config.multiplier.val := fun a =>
    calc (r.ledger.spendable a k.config.evmDenom).val
      _ ≤ (r.ledger.balance a k.config.evmDenom).val := Sheet.spendable_le_balance ..
      _ ≤ (r.ledger.sheet k.config.evmDenom).total := Sheet.balance_le_total ..
      _ < k.config.multiplier.val := htotal
  exact ⟨by decide +kernel, k.play_low (by decide) hlow⟩

end DualDenom
