import DualDenom.Proofs.KeeperLaws
import DualDenom.Proofs.Traces

/-!
# Contract violations

A request looks through its coins before it does anything else. Coins that the
bridge does not take are a contract violation there and then; after that
neither the arithmetic of conversions nor any answer of the ledger is one. So
the request alone decides whether it fails as a violation, and where it does no
call was made and the ledger is as it was (`perform_violates_iff`).
-/

namespace DualDenom

open DualDenom.Action

namespace Coins

variable {cs : Coins} {c : Config}

/-- There are coins, and they are not one coin of the denom. -/
def Misfit (cs : Coins) (d : Denom) : Prop :=
  cs.positive ≠ [] ∧ (cs.positive.check ≠ .ok () ∨ ∀ n, cs.positive ≠ [⟨d, n⟩])

def Immovable (cs : Coins) (c : Config) : Prop :=
  cs.positive ≠ [] ∧
    (cs.positive.check ≠ .ok () ∨ ∃ coin ∈ cs.positive, coin.denom ≠ c.evmDenom ∧
      coin.denom ≠ c.cosmosDenom)

end Coins

/-- The request is never taken, whatever the ledger. -/
def KeeperRequest.Violates (c : Config) : KeeperRequest → Prop
  | .mintCoins _ cs | .burnCoins _ cs | .accountToModule _ _ cs | .moduleToAccount _ _ cs =>
    cs.Misfit c.evmDenom
  | .sendCoins _ _ cs => cs.Immovable c
  | .balance _ d => d ≠ c.evmDenom
  | _ => False

theorem exists_error_iff {x : Except ε α} : (∃ e, x = .error e) ↔ ∀ a, x ≠ .ok a := by
  cases x <;> simp

namespace Coins

variable {cs : Coins} {c : Config}

theorem misfit_iff (hw : d.wellFormed = true) :
    (∃ e, cs.evmAmount d = .error e) ↔ cs.Misfit d := by
  simp only [exists_error_iff, ne_eq, evmAmount_ok, Misfit]
  constructor
  · intro h
    exact ⟨fun hp => h .zero (.inl ⟨hp, rfl⟩), .inr fun n hp => h n (.inr ⟨hp, hw⟩)⟩
  · rintro ⟨hne, hbad⟩ n (⟨hp, -⟩ | ⟨hp, -⟩)
    · exact hne hp
    · refine hbad.elim (fun hcheck => hcheck ?_) fun hsingle => hsingle n hp
      have hmem : ⟨d, n⟩ ∈ cs.positive := hp ▸ List.mem_singleton_self _
      have hn := amount_of_mem_positive hmem
      rw [hp]
      exact check_singleton.mpr ⟨hw, hn⟩

theorem immovable_iff : (∃ e, cs.movable c = .error e) ↔ cs.Immovable c := by
  simp only [exists_error_iff, ne_eq, Config.movable_ok, Immovable, Config.Native]
  constructor
  · intro h
    obtain ⟨hne, hbad⟩ := not_or.mp fun hok => h cs.positive ⟨rfl, hok⟩
    refine ⟨hne, or_iff_not_imp_left.mpr fun hcheck => ?_⟩
    by_contra hnone
    refine hbad ⟨not_not.mp hcheck, fun coin hmem => or_iff_not_imp_left.mpr fun he => ?_⟩
    by_contra hc
    exact hnone ⟨coin, hmem, he, hc⟩
  · rintro ⟨hne, hbad⟩ _ ⟨-, hp | ⟨hcheck, hnative⟩⟩
    · exact hne hp
    · rcases hbad with hbad | ⟨coin, hmem, he, hc⟩
      · exact hbad hcheck
      · exact (hnative coin hmem).elim he hc

end Coins

def Blameless (e : BridgeError) (_ : σ) : Prop := e.isContractViolation = false

theorem Action.failsAs_mapError {P : ε' → σ → Prop} {m : Action ε σ α} {f : ε → ε'}
    (h : ∀ e s, P (f e) s) : (m.mapError f).FailsAs P := by
  intro s e t hm
  obtain ⟨e₀, -, rfl⟩ := gives_mapError_error.mp hm
  exact h e₀ t

theorem Action.failsAs_ofExcept {P : ε' → σ → Prop} {x : Except ε α} {f : ε → ε'}
    (h : ∀ e s, P (f e) s) : (ofExcept (x.mapError f)).FailsAs P := by
  intro s e t hx
  obtain ⟨e₀, -, rfl⟩ := mapError_error.mp (gives_ofExcept.mp hx).1
  exact h e₀ t

theorem Config.unitsFor_blameless (c : Config) (n : Amount) :
    (ofExcept (c.unitsFor n) : Bridge σ Amount).FailsAs Blameless := by
  intro s e t h
  obtain ⟨h, -⟩ := gives_ofExcept.mp h
  simp only [unitsFor, bind_error, mapError_error] at h
  rcases h with ⟨_, -, rfl⟩ | ⟨_, -, ⟨_, -, rfl⟩ | ⟨_, -, _, -, rfl⟩⟩ <;> rfl

namespace Ledger

variable {L : Ledger σ} {c : Config}

theorem call_blameless (cl : Call) : (L.call cl).FailsAs Blameless := failsAs_mapError fun _ _ => rfl

theorem ask_blameless {f : σ → Except LedgerError α} : (ask f).FailsAs Blameless :=
  failsAs_mapError fun _ _ => rfl

theorem spendableEvm_blameless : (L.spendableEvm c hd).FailsAs Blameless :=
  ask_blameless.bind fun _ _ _ _ => ask_blameless

theorem convert_blameless : (L.convert c hd units d).FailsAs Blameless := by
  unfold convert
  split
  · exact failsAs_pure
  · exact (failsAs_ofExcept fun _ _ => rfl).bind fun _ _ _ _ =>
      (failsAs_forM _ fun cl _ => call_blameless cl).bind fun _ _ _ _ => failsAs_report

theorem topUp_blameless : (L.topUp c hd q).FailsAs Blameless := by
  unfold topUp
  split
  · exact failsAs_pure
  · refine spendableEvm_blameless.bind fun _ _ _ _ => ?_
    split
    · exact failsAs_pure
    · exact (c.unitsFor_blameless _).bind fun _ _ _ _ =>
        convert_blameless.bind fun _ _ _ _ => failsAs_pure

theorem sweepDust_blameless : (L.sweepDust c hd).FailsAs Blameless := by
  refine spendableEvm_blameless.bind fun _ _ _ _ =>
    (failsAs_ofExcept fun _ _ => rfl).bind fun _ _ _ _ => ?_
  split
  · exact failsAs_pure
  · exact convert_blameless.bind fun _ _ _ _ => failsAs_report.bind fun _ _ _ _ => failsAs_pure

end Ledger

namespace Keeper

variable {k : Keeper} {L : Ledger σ} {f : Coins → Call} {sp : Split}

theorem callUnlessZero_blameless : (callUnlessZero L coin f).FailsAs Blameless := by
  unfold callUnlessZero
  split
  · exact failsAs_pure
  · exact Ledger.call_blameless _

theorem moveSplit_blameless : (k.moveSplit L sp source swept f).FailsAs Blameless := by
  refine callUnlessZero_blameless.bind fun _ _ _ _ => ?_
  split
  · exact failsAs_pure
  · refine Ledger.topUp_blameless.bind fun _ _ _ _ => (Ledger.call_blameless _).bind fun _ _ _ _ => ?_
    exact failsAs_forM _ fun _ _ => Ledger.sweepDust_blameless.bind fun _ _ _ _ => failsAs_pure

theorem violation_iff {m : Bridge σ α} {g : α → Bridge σ β} {x : Except CoinSetDefect γ}
    (hm : ∀ {e t}, m.Gives s (.error e) t ↔ t = s ∧ ∃ d, x = .error d ∧ e = .invalidCoinSet d)
    (hg : ∀ a, (g a).FailsAs Blameless) :
    ((m >>= g).Gives s (.error e) t ∧ e.isContractViolation = true) ↔
      t = s ∧ ∃ d, x = .error d ∧ e = .invalidCoinSet d := by
  rw [gives_bind_error, hm]
  constructor
  · rintro ⟨h | ⟨a, r, -, h⟩, he⟩
    · exact h
    · cases he.symm.trans (hg a h)
  · rintro ⟨rfl, d, hd, rfl⟩
    exact ⟨.inl ⟨rfl, d, hd, rfl⟩, rfl⟩

end Keeper

def KeeperRequest.Faults (c : Config) (e : BridgeError) : KeeperRequest → Prop
  | .mintCoins _ cs | .burnCoins _ cs | .accountToModule _ _ cs | .moduleToAccount _ _ cs =>
    ∃ d, cs.evmAmount c.evmDenom = .error d ∧ e = .invalidCoinSet d
  | .sendCoins _ _ cs => ∃ d, cs.movable c = .error d ∧ e = .invalidCoinSet d
  | .balance _ d => d ≠ c.evmDenom ∧ e = .unsupportedDenom d c.evmDenom
  | _ => False

namespace Keeper

variable {k : Keeper} {L : Ledger σ} {q : KeeperRequest}

theorem faults_iff (k : Keeper) (q : KeeperRequest) :
    (∃ e, q.Faults k.config e) ↔ q.Violates k.config := by
  have hcoins : ∀ {α : Type} {x : Except CoinSetDefect α},
      (∃ e, ∃ d, x = .error d ∧ e = BridgeError.invalidCoinSet d) ↔ ∃ d, x = .error d := by
    intro α x
    rw [exists_comm]
    simp
  cases q with
  | mintCoins | burnCoins | accountToModule | moduleToAccount =>
    exact hcoins.trans (Coins.misfit_iff k.evm_wellFormed)
  | sendCoins => exact hcoins.trans Coins.immovable_iff
  | balance a d => simp [KeeperRequest.Faults, KeeperRequest.Violates]
  | _ => simp [KeeperRequest.Faults, KeeperRequest.Violates]

/-- A request fails as a violation for what it is, and then at once. -/
theorem perform_violation_iff :
    ((k.perform L q).Gives s (.error e) t ∧ e.isContractViolation = true) ↔
      t = s ∧ q.Faults k.config e := by
  have hnever : ∀ {m : Bridge _ Reply}, m.FailsAs Blameless →
      (m.Gives s (.error e) t ∧ e.isContractViolation = true ↔ t = s ∧ False) := fun hm =>
    ⟨fun ⟨h, he⟩ => (Bool.eq_false_iff.mp (hm h) he).elim, fun h => h.2.elim⟩
  cases q with
  | mintCoins name cs | burnCoins name cs =>
    simp only [perform, gives_thenDone_error]
    exact violation_iff split_error fun sp =>
      callUnlessZero_blameless.bind fun _ _ _ _ => callUnlessZero_blameless
  | accountToModule a name cs | moduleToAccount name a cs =>
    simp only [perform, gives_thenDone_error]
    exact violation_iff split_error fun sp => moveSplit_blameless
  | sendCoins source target cs =>
    simp only [perform, gives_thenDone_error]
    refine violation_iff coinSet_error fun moved => ?_
    split
    · exact failsAs_pure
    · exact Ledger.call_blameless _
  | balance a d =>
    by_cases hd : d = k.config.evmDenom
    · have hno : ¬(KeeperRequest.balance a d).Faults k.config e := fun h => h.1 hd
      rw [iff_false_intro hno]
      refine hnever (FailsAs.bind ?_ fun _ _ _ _ => failsAs_pure)
      rw [balance, if_pos hd]
      exact (Ledger.ask_blameless.bind fun _ _ _ _ => failsAs_pure).bind fun _ _ _ _ =>
        (failsAs_ofExcept fun _ _ => rfl).bind fun _ _ _ _ => failsAs_pure
    · simp only [perform, balance, if_neg hd, gives_bind_error, gives_fail, KeeperRequest.Faults]
      constructor
      · rintro ⟨⟨⟨⟩, rfl⟩ | ⟨_, _, ⟨⟨⟩, -⟩, -⟩, -⟩
        exact ⟨rfl, hd, rfl⟩
      · rintro ⟨rfl, -, rfl⟩
        exact ⟨.inl ⟨rfl, rfl⟩, rfl⟩
  | balanceParts a =>
    exact hnever ((Ledger.ask_blameless.bind fun _ _ _ _ => failsAs_pure).bind fun _ _ _ _ =>
      failsAs_pure)
  | spendableCoins a => exact hnever (Ledger.ask_blameless.bind fun _ _ _ _ => failsAs_pure)
  | checkSendEnabled cs => exact hnever (Ledger.ask_blameless.bind fun _ _ _ _ => failsAs_pure)
  | sweep hd => exact hnever (Ledger.sweepDust_blameless.bind fun _ _ _ _ => failsAs_pure)
  | config => exact hnever failsAs_pure

/-- A request fails as a contract violation just when its coins are none that it takes, whatever
the ledger; and then no call was made and the ledger is as it was. -/
theorem perform_violates_iff (k : Keeper) (L : Ledger σ) (q : KeeperRequest) (s : σ) :
    ((∃ e t, (k.perform L q).Gives s (.error e) t ∧ e.isContractViolation = true) ↔
      q.Violates k.config) ∧
    ∀ e t, (k.perform L q).Gives s (.error e) t → e.isContractViolation = true →
      t = s ∧ k.callsMade L (.keeper q) s = [] := by
  constructor
  · simp only [perform_violation_iff, exists_eq_left, ← k.faults_iff]
  · intro e t h he
    refine ⟨(perform_violation_iff.mp ⟨h, he⟩).1, ?_⟩
    have hrun := gives_run (k.perform L.traced q) ⟨s, []⟩
    obtain ⟨hx, -⟩ := ((L.traced_shadows.perform k q).gives hrun).unique h
    rw [hx] at hrun
    exact congrArg Traced.trace (perform_violation_iff.mp ⟨hrun, he⟩).1

end Keeper

/-- Coins in the wrong order are a violation. A coin of nothing is none, nor is a module that may
not mint. -/
theorem perform_violates_small :
    let k := Keeper.standard
    let L := Book.ledger
    let send : KeeperRequest := .sendCoins "alice" "bob" [⟨"orai", .clamp 1⟩, ⟨"aorai", .clamp 1⟩]
    let mint : KeeperRequest := .mintCoins "fee" [⟨"?", .zero⟩, ⟨"aorai", .clamp 1⟩]
    (∃ e t, (k.perform L send).Gives Book.small (.error e) t ∧ e.isContractViolation = true ∧
      t = Book.small ∧ k.callsMade L (.keeper send) Book.small = []) ∧
    ((k.perform L mint).run Book.small).answer.isOk = false ∧
    ¬∃ e t, (k.perform L mint).Gives Book.small (.error e) t ∧ e.isContractViolation = true := by
  intro k L send mint
  obtain ⟨hsend, hnothing⟩ := k.perform_violates_iff L send Book.small
  obtain ⟨e, t, h, he⟩ := hsend.mpr ⟨by decide, .inl (by decide)⟩
  refine ⟨⟨e, t, h, he, hnothing e t h he⟩, by decide +kernel, fun hmint => ?_⟩
  obtain ⟨-, hcheck | hsingle⟩ := (k.perform_violates_iff L mint Book.small).1.mp hmint
  · exact hcheck (by decide)
  · exact hsingle (.clamp 1) (by decide)

end DualDenom
