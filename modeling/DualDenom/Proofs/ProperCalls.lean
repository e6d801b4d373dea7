import DualDenom.Proofs.Failures
import DualDenom.Proofs.KeeperLaws
import DualDenom.Proofs.Traces

/-!
# Proper calls

Every call of the bridge is for some coins of the two denoms, in the form that
ledgers check for, whatever the ledger answered before: a leg of zero takes no
call, units that are converted are worth something, and what accounts send each
other was looked through first. A book therefore finds no fault with the coins
of an operation (`operate_calls_properly`).
-/

namespace DualDenom

open DualDenom.Action

def LedgerError.blamesCoins : LedgerError → Bool
  | .invalidCoins _ => true
  | _ => false

theorem LedgerError.blamesCoins_of_isSetting {e : LedgerError} (h : e.isSetting = true) :
    e.blamesCoins = false := by
  cases e <;> first | rfl | cases h

theorem Keeper.native_wellFormed (k : Keeper) (hd : k.config.Native d) : d.wellFormed = true := by
  rcases hd with rfl | rfl
  · exact k.evm_wellFormed
  · exact k.cosmos_wellFormed

theorem Config.Fits.check {k : Keeper} (h : k.config.Fits cs) : cs.check = .ok () := by
  refine Coins.check_ok.mpr ⟨fun coin hmem => ⟨k.native_wellFormed (h.native coin hmem), ?_⟩, h.ascending⟩
  exact fun hz => k.multiplier_ne_zero (h.positive coin hmem hz)

namespace Book

variable {b : Book}

theorem answer_error {q : Question} (h : ledger.answer b q = .error e) : e.blamesCoins = false := by
  cases q with
  | spendableCoins a => cases h
  | spendableAmount a d => cases h.symm.trans (spendableAmount_eq b a d)
  | checkSendEnabled cs => exact LedgerError.blamesCoins_of_isSetting (checkSendEnabled_error h)
  | moduleAddress name => exact LedgerError.blamesCoins_of_isSetting (moduleAddress_error h)

theorem carryCoin_failsAs (m : Movement) (coin : Coin) :
    (m.carryCoin coin).FailsAs fun e _ => e.blamesCoins = false := by
  have hcredit : ∀ a, (credit a coin).FailsAs fun e _ => e.blamesCoins = false := by
    rintro a b e b' h
    obtain ⟨⟨o, rfl⟩, -⟩ := credit_error h
    rfl
  have hdebit : ∀ a, (debit a coin).FailsAs fun e _ => e.blamesCoins = false := by
    rintro a b e b' h
    rw [(debit_error h).1]
    rfl
  cases m with
  | transfer source target => exact (hdebit source).bind fun _ _ _ _ => hcredit target
  | create target =>
    refine (hcredit target).bind fun _ _ _ _ b e b' h => ?_
    obtain ⟨⟨o, rfl⟩, -⟩ := issue_error h
    rfl
  | destroy source =>
    refine (hdebit source).bind fun _ _ _ _ b e b' h => ?_
    obtain ⟨⟨o, rfl⟩, -⟩ := retire_error h
    rfl

theorem submit_failsAs (hcs : cl.coins.check = .ok ()) :
    (submit cl).FailsAs fun e _ => e.blamesCoins = false := by
  rw [submit_eq]
  refine FailsAs.bind (fun b e b' h => ?_) fun b m b' hm => ?_
  · exact LedgerError.blamesCoins_of_isSetting (movement_error (gives_query.mp h).1)
  · rw [Movement.carryOut_eq, checkCoins, hcs]
    exact failsAs_ok_bind (failsAs_forM _ fun coin _ => carryCoin_failsAs m coin)

end Book

/-- A program fails as it does by itself, as its questions do or as its calls do. -/
theorem IsProgram.failsAs {m : (σ : Type) → Ledger σ → Bridge σ α} (hm : IsProgram S m)
    {L : Ledger σ} {P : BridgeError → σ → Prop} (hown : ∀ e s, e.isLedgerFailure = false → P e s)
    (hask : ∀ q, S.asks q → (Ledger.ask (L.answer · q)).FailsAs P)
    (hcall : ∀ cl, S.calls cl → (L.call cl).FailsAs P) : (m σ L).FailsAs P := by
  obtain ⟨p, hp, hpm⟩ := hm
  rw [hpm]
  clear hpm
  induction p with
  | done x => exact fun s e t h => hown e t (hp e (gives_ofExcept.mp h).1)
  | report e next ih => exact failsAs_report.bind fun _ _ _ _ => ih hp
  | ask q next ih => exact (hask q hp.1).bind fun _ x _ _ => ih x (hp.2 x)
  | call cl next ih => exact (hcall cl hp.1).bind fun _ _ _ _ => ih hp.2

namespace Keeper

theorem operate_failsAs (k : Keeper) (op : Operation) :
    (k.operate Book.ledger op).FailsAs fun e _ => ∀ e₀, e = .ledger e₀ → e₀.blamesCoins = false := by
  refine (k.operate_isProgram op).failsAs ?own ?ask ?call
  case own =>
    rintro _ _ he e₀ rfl
    cases he
  case ask =>
    rintro q - b _ b' hask e₀ rfl
    obtain ⟨e₁, h, he, -⟩ := Ledger.ask_error.mp hask
    exact BridgeError.ledger.inj he ▸ Book.answer_error h
  case call =>
    rintro cl (hcl : k.config.Fits cl.coins) b _ b' hcall e₀ rfl
    obtain ⟨e₁, h, he⟩ := gives_mapError_error.mp hcall
    exact BridgeError.ledger.inj he ▸ Book.submit_failsAs hcl.check h

/-- Whatever the ledger, all calls are for coins of the two denoms that pass the check of coin
lists, and a book never says otherwise. -/
theorem operate_calls_properly (k : Keeper) (op : Operation) :
    (∀ (σ : Type) (L : Ledger σ) (s : σ), ∀ m ∈ k.callsMade L op s,
      m.call.coins ≠ [] ∧ m.call.coins.check = .ok () ∧
        ∀ coin ∈ m.call.coins, coin.denom = k.config.evmDenom ∨ coin.denom = k.config.cosmosDenom) ∧
    ∀ (r : Recorded Book) (d : CoinDefect),
      ((k.operate Book.ledger.recorded op).run r).answer ≠ .error (.ledger (.invalidCoins d)) := by
  constructor
  · intro σ L s m hm
    have hfits : k.config.Fits m.call.coins := k.callsMade_within L op s m hm
    exact ⟨hfits.nonempty, hfits.check, hfits.native⟩
  · intro r d hrun
    have hbook := (Book.ledger.recorded_shadows.isProgram (k.operate_isProgram op)).gives ⟨hrun, rfl⟩
    cases k.operate_failsAs op hbook _ rfl

end Keeper

theorem operate_calls_properly_small :
    let k := Keeper.standard
    let op (n : Nat) : Operation := .keeper (.accountToModule "alice" "fee" [⟨"aorai", .clamp n⟩])
    let made := k.callsMade Book.ledger (op 10) Book.small
    let r := Recorded.start Book.small
    made.length = 9 ∧
      (∀ m ∈ made, m.call.coins ≠ [] ∧ m.call.coins.check = .ok () ∧
        ∀ coin ∈ m.call.coins, coin.denom = "aorai" ∨ coin.denom = "orai") ∧
      ((k.operate Book.ledger.recorded (op 9000000000000)).run r).answer.isOk = false ∧
      ∀ d, ((k.operate Book.ledger.recorded (op 9000000000000)).run r).answer ≠
        .error (.ledger (.invalidCoins d)) := by
  intro k op made r
  exact ⟨by decide +kernel, (k.operate_calls_properly (op 10)).1 Book Book.ledger Book.small,
    by decide +kernel, (k.operate_calls_properly (op 9000000000000)).2 r⟩

end DualDenom
