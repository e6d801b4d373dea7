import DualDenom.Proofs.ExactTransfer
import DualDenom.Proofs.Locks

/-!
# What a move shows of itself

What an address is said to have leaves out what is locked, and a lock may be
larger than the balance. Coins that come in fill its overhang first and are not
seen, and no overhang grows (`accountToModule_guards`). A move into an escrow
therefore shows at either end at most what moved; it shows all of it where no
lock hangs over a balance (`accountToModule_shows`), and need not where one does
(`move_not_shown`).
-/

namespace DualDenom

open DualDenom.Action Figures

namespace Book

def spendableWorth (b : Book) (c : Config) (a : Address) : Int :=
  c.worth fun d => (b.spendable a d).val

/-- No lock of the two denoms is larger than the balance. -/
def Covers (b : Book) (c : Config) (a : Address) : Prop :=
  b.locked a c.cosmosDenom ≤ b.balance a c.cosmosDenom ∧
    b.locked a c.evmDenom ≤ b.balance a c.evmDenom

variable {b b' : Book} {c : Config} {coin : Coin}

theorem spendableWorth_eq (b : Book) (c : Config) (a : Address) :
    b.spendableWorth c a = b.worth c a - (c.worth fun d => (b.locked a d).val) +
      c.worth fun d => b.overhang a d := by
  have hspendable : ∀ d, ((b.spendable a d).val : Int) =
      (b.balance a d).val - (b.locked a d).val + b.overhang a d := by
    intro d
    rw [spendable_val, overhang]
    omega
  simp only [spendableWorth, worth, Config.worth, hspendable]
  ring

theorem Covers.worth_overhang (h : b.Covers c a) : (c.worth fun d => b.overhang a d) = 0 := by
  have hcosmos : b.overhang a c.cosmosDenom = 0 := Nat.sub_eq_zero_of_le h.1
  have hevm : b.overhang a c.evmDenom = 0 := Nat.sub_eq_zero_of_le h.2
  simp [Config.worth, hcosmos, hevm]

theorem spendableWorth_nonneg (b : Book) (c : Config) (a : Address) : 0 ≤ b.spendableWorth c a :=
  c.worth_nonneg fun _ => Int.natCast_nonneg _

theorem spendableWorth_moved (hs : b.SameSettings b')
    (hle : ∀ d, b'.overhang a d ≤ b.overhang a d) (hn : b'.worth c a = b.worth c a + n) :
    b'.spendableWorth c a ≤ b.spendableWorth c a + n ∧
      (b.Covers c a → b'.spendableWorth c a = b.spendableWorth c a + n) := by
  have hlocked : (c.worth fun d => (b'.locked a d).val) = c.worth fun d => (b.locked a d).val := by
    simp only [hs.locked]
  have hdown : (c.worth fun d => b'.overhang a d) ≤ c.worth fun d => b.overhang a d :=
    c.worth_mono fun d => Int.ofNat_le.mpr (hle d)
  have hnonneg : 0 ≤ c.worth fun d => b'.overhang a d :=
    c.worth_nonneg fun _ => Int.natCast_nonneg _
  rw [spendableWorth_eq, spendableWorth_eq, hlocked, hn]
  refine ⟨by omega, fun hb => ?_⟩
  have hzero := hb.worth_overhang
  omega

end Book

namespace Keeper

variable {k : Keeper} {r r' : Recorded Book} {n v w : Amount}

def Shows (k : Keeper) (r : Recorded Book) (a : Address) (v : Amount) : Prop :=
  (k.balance Book.ledger.recorded a k.config.evmDenom).Gives r (.ok (k.config.evmCoin v)) r

theorem shows_iff : k.Shows r a v ↔ (v.val : Int) = r.ledger.spendableWorth k.config a := by
  rw [Shows, Book.mirrors_recorded.balance_ok]
  simp only [true_and, Book.spendableWorth, Config.worth]
  norm_cast

theorem exists_shows (h : r.ledger.spendableWorth k.config a < Amount.bound) :
    ∃ v, k.Shows r a v := by
  obtain ⟨v, hv⟩ := Amount.exists_val_eq (r.ledger.spendableWorth_nonneg k.config a) h
  exact ⟨v, shows_iff.mpr hv⟩

theorem accountToModule_guards
    (h : (k.accountToModule Book.ledger.recorded a name cs).Gives r (.ok ()) r') :
    r.ledger.Guards r'.ledger := by
  have hcall : ∀ cl, (Book.ledger.recorded.call cl).Takes (Book.guarding.of Recorded.ledger) :=
    fun cl => Book.mirrors_recorded.carries.call_takes (C := Book.guarding)
      (Book.submit_takes_guarding cl)
  exact (accountToModule_isProgram k a name cs).takes (fun cl _ => hcall cl) h

/-- At the account no less is seen to go than moved, and at the escrow no more to come; all
of it is seen where no lock is larger than the balance. -/
theorem accountToModule_shows (he : r.ledger.moduleAddress name = .ok e) (hne : a ≠ e)
    (hv : k.Shows r a v) (hw : k.Shows r e w)
    (h : (k.accountToModule Book.ledger.recorded a name [k.config.evmCoin n]).Gives r (.ok ()) r') :
    (∃ v', k.Shows r' a v' ∧ v'.val + n.val ≤ v.val ∧
      (r.ledger.Covers k.config a → v'.val + n.val = v.val)) ∧
    (w.val + n.val < Amount.bound → ∃ w', k.Shows r' e w' ∧ w'.val ≤ w.val + n.val ∧
      (r.ledger.Covers k.config e → w'.val = w.val + n.val)) := by
  obtain ⟨n', sp, g, hn', hm, hg, hp⟩ := Book.mirrors_recorded.carries.accountToModule_posted
    (fun e' he' => Except.ok.inj (he'.symm.trans he)) h
  obtain rfl : n' = n :=
    Except.ok.inj (hn'.symm.trans (Coins.evmAmount_singleton k.evm_wellFormed n))
  have htransfers := Book.transfers_of_posted hm hg hp
  have hover := (accountToModule_guards h).overhang
  rw [shows_iff] at hv hw
  constructor
  · obtain ⟨hle, heq⟩ := Book.spendableWorth_moved (n := -n'.val) htransfers.settings (hover a)
      (htransfers.paid hne)
    have hlt := v.isLt
    obtain ⟨v', hv'⟩ := exists_shows (k := k) (r := r') (a := a) (by omega)
    have hval := shows_iff.mp hv'
    exact ⟨v', hv', by omega, fun hcover => by have := heq hcover; omega⟩
  · intro hroom
    obtain ⟨hle, heq⟩ := Book.spendableWorth_moved (n := n'.val) htransfers.settings (hover e)
      (htransfers.received hne)
    obtain ⟨w', hw'⟩ := exists_shows (k := k) (r := r') (a := e) (by omega)
    have hval := shows_iff.mp hw'
    exact ⟨w', hw', by omega, fun hcover => by have := heq hcover; omega⟩

end Keeper

theorem accountToModule_shows_small :
    let k := Keeper.standard
    ∃ r r', r.ledger = (Book.small.lock "alice" ⟨"aorai", .clamp 2⟩).lock "fee_module_account"
        ⟨"orai", .clamp 1⟩ ∧
      (k.accountToModule Book.ledger.recorded "alice" "fee"
        [k.config.evmCoin (.clamp 1000000000011)]).Gives r (.ok ()) r' ∧
      k.Shows r "alice" (.clamp 5000000000001) ∧ k.Shows r' "alice" (.clamp 3999999999990) ∧
      k.Shows r "fee_module_account" (.clamp 1999999999990) ∧
      k.Shows r' "fee_module_account" (.clamp 3000000000001) := by
  intro k
  obtain ⟨r, r', hr, he, h, hv, hw, ha, hf⟩ : ∃ r r',
      r.ledger = (Book.small.lock "alice" ⟨"aorai", .clamp 2⟩).lock "fee_module_account"
        ⟨"orai", .clamp 1⟩ ∧ r.ledger.moduleAddress "fee" = .ok "fee_module_account" ∧
      (k.accountToModule Book.ledger.recorded "alice" "fee"
        [k.config.evmCoin (.clamp 1000000000011)]).Gives r (.ok ()) r' ∧
      k.Shows r "alice" (.clamp 5000000000001) ∧
      k.Shows r "fee_module_account" (.clamp 1999999999990) ∧
      r.ledger.Covers k.config "alice" ∧ r.ledger.Covers k.config "fee_module_account" :=
    ⟨.start _, _, rfl, by decide +kernel, ⟨by decide +kernel, rfl⟩,
      Book.mirrors_recorded.balance_ok.mpr ⟨rfl, by decide +kernel⟩,
      Book.mirrors_recorded.balance_ok.mpr ⟨rfl, by decide +kernel⟩,
      ⟨by decide +kernel, by decide +kernel⟩, by decide +kernel, by decide +kernel⟩
  obtain ⟨⟨v, hshow, -, hgone⟩, hcome⟩ := Keeper.accountToModule_shows he (by decide) hv hw h
  obtain ⟨w, hshow', -, hcame⟩ := hcome (by decide)
  obtain rfl : v = .clamp 3999999999990 :=
    Amount.ext (Nat.add_right_cancel ((hgone ha).trans (by decide)))
  obtain rfl : w = .clamp 3000000000001 := Amount.ext ((hcame hf).trans (by decide))
  exact ⟨r, r', hr, h, hv, hshow, hw, hshow'⟩

/-- Nothing of what comes in is seen where the balance stays under its lock. A top-up fills
such a lock too, and then more is seen to go than moved. What is too much for an amount is
not said at all. -/
theorem move_not_shown :
    let k := Keeper.standard
    let moves (n : Nat) (r r' : Recorded Book) : Prop := (k.accountToModule Book.ledger.recorded
      "alice" "fee" [k.config.evmCoin (.clamp n)]).Gives r (.ok ()) r'
    (∃ r r', r.ledger = Book.small.lock "fee_module_account" ⟨"orai", .clamp 9⟩ ∧
      moves 2000000000000 r r' ∧
      k.Shows r "alice" (.clamp 5000000000003) ∧ k.Shows r' "alice" (.clamp 3000000000003) ∧
      k.Shows r "fee_module_account" (.clamp 999999999990) ∧
      k.Shows r' "fee_module_account" (.clamp 999999999990)) ∧
    (∃ r r', r.ledger = Book.small.lock "alice" ⟨"aorai", .clamp 5⟩ ∧ moves 1 r r' ∧
      k.Shows r "alice" (.clamp 5000000000000) ∧ k.Shows r' "alice" (.clamp 4999999999997)) ∧
    ∃ r r', (Book.fund "fee_module_account"
        [k.config.cosmosCoin (.clamp 340282366920938463463374604)]).Gives Book.small (.ok ())
          r.ledger ∧ moves 2000000000000 r r' ∧
      k.Shows r "fee_module_account" (.clamp 340282366920938463463374606999999999990) ∧
      ∀ w, ¬k.Shows r' "fee_module_account" w := by
  intro k moves
  refine ⟨⟨.start _, _, rfl, ⟨by decide +kernel, rfl⟩,
      Book.mirrors_recorded.balance_ok.mpr ⟨rfl, by decide +kernel⟩,
      Book.mirrors_recorded.balance_ok.mpr ⟨rfl, by decide +kernel⟩,
      Book.mirrors_recorded.balance_ok.mpr ⟨rfl, by decide +kernel⟩,
      Book.mirrors_recorded.balance_ok.mpr ⟨rfl, by decide +kernel⟩⟩,
    ⟨.start _, _, rfl, ⟨by decide +kernel, rfl⟩,
      Book.mirrors_recorded.balance_ok.mpr ⟨rfl, by decide +kernel⟩,
      Book.mirrors_recorded.balance_ok.mpr ⟨rfl, by decide +kernel⟩⟩,
    .start _, _, ⟨by decide +kernel, rfl⟩, ⟨by decide +kernel, rfl⟩,
      Book.mirrors_recorded.balance_ok.mpr ⟨rfl, by decide +kernel⟩, fun w hw => ?_⟩
  obtain ⟨-, hw⟩ := Book.mirrors_recorded.balance_ok.mp hw
  have hlt := hw ▸ w.isLt
  revert hlt
  decide +kernel

end DualDenom
