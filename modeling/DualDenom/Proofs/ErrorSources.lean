import DualDenom.Proofs.Audit
import DualDenom.Proofs.KeeperLaws
import DualDenom.Proofs.NoGain

/-!
# Where errors come from

The arithmetic of the bridge never fails in a request, whatever the ledger
answers, when the multiplier is at most `2 ^ 127`: a top-up is for less than a
unit and converts one, and a sweep converts what was an amount already. So a
request that changes a ledger fails at its coin list, before any call, or with
the last answer of the ledger (`perform_fails`).
-/

namespace DualDenom

open DualDenom.Action

theorem Config.ofDecimals_multiplier {c : Config} (h : ofDecimals e d name m n = .ok c) :
    c.multiplier.val ≤ 2 ^ 127 := by
  unfold ofDecimals at h
  split at h
  · cases h
  split at h
  · cases h
  rename_i a ha
  obtain rfl := Except.ok.inj h
  have hval : a.val = 10 ^ (m - n) := Amount.ofNat?_eq_some.mp ha
  have hlt := a.isLt
  have hexp : m - n ≤ 38 := by
    by_contra hgt
    have hpow : 10 ^ 39 ≤ 10 ^ (m - n) := Nat.pow_le_pow_right (by omega) (by omega)
    rw [← hval] at hpow
    exact absurd (hpow.trans_lt hlt) (by decide)
  calc a.val
    _ = 10 ^ (m - n) := hval
    _ ≤ 10 ^ 38 := Nat.pow_le_pow_right (by omega) hexp
    _ ≤ 2 ^ 127 := by decide

namespace Ledger

def Withholds (L : Ledger σ) (s : σ) (hd : Holder) (e : LedgerError) : Prop :=
  L.holderAddress s hd = .error e ∨
    ∃ a, L.holderAddress s hd = .ok a ∧ L.spendableCoins s a = .error e

def Refuses (L : Ledger σ) (hds : List Holder) (log : List Answered) (s : σ) (e : LedgerError) :
    Prop :=
  (∃ cl, log.getLast? = some ⟨cl, .error e⟩) ∨ ∃ hd ∈ hds, L.Withholds s hd e

/-- The error of the bridge is the one that the ledger answered last. -/
def Relays (L : Ledger σ) (hds : List Holder) (e : BridgeError) (r : Audited σ) : Prop :=
  ∃ e₀, e = .ledger e₀ ∧ L.Refuses hds r.log r.ledger e₀

variable {L : Ledger σ} {hds : List Holder} {c : Config} {hd : Holder} {units q : Amount}

theorem call_fails (cl : Call) : (L.audited.call cl).FailsAs (L.Relays hds) := by
  intro r e r' h
  obtain ⟨e₀, hsubmit, rfl⟩ := gives_mapError_error.mp h
  refine ⟨e₀, rfl, .inl ⟨cl, ?_⟩⟩
  rw [(audited_submit.mp hsubmit).2]
  exact List.getLast?_concat

theorem spendableEvm_fails (hmem : hd ∈ hds) :
    (L.audited.spendableEvm c hd).FailsAs (L.Relays hds) := by
  intro r e r' h
  have haddress := L.audited_shadows.holderAddress hd r
  rcases gives_bind_error.mp h with hwho | ⟨a, r₁, hwho, hwhat⟩
  · obtain ⟨e₀, he, rfl, rfl⟩ := ask_error.mp hwho
    exact ⟨e₀, rfl, .inr ⟨hd, hmem, .inl (haddress.symm.trans he)⟩⟩
  · obtain ⟨ha, rfl⟩ := ask_ok.mp hwho
    obtain ⟨e₀, he, rfl, rfl⟩ := ask_error.mp hwhat
    exact ⟨e₀, rfl, .inr ⟨hd, hmem, .inr ⟨a, haddress.symm.trans ha, map_error.mp he⟩⟩⟩

theorem convert_fails (d : Direction) (hlt : units.val * c.multiplier.val < Amount.bound) :
    (L.audited.convert c hd units d).FailsAs (L.Relays hds) := by
  have hevm : units.mul c.multiplier = .ok ⟨_, hlt⟩ := Amount.mul_eq_ok.mpr rfl
  unfold convert
  split
  · exact failsAs_pure
  · rw [hevm]
    exact failsAs_ok_bind <| (failsAs_forM _ fun cl _ => call_fails cl).bind fun _ _ _ _ =>
      failsAs_report

theorem topUp_fails (hm : c.multiplier.val ≤ 2 ^ 127) (hq : q.val < c.multiplier.val)
    (hmem : hd ∈ hds) : (L.audited.topUp c hd q).FailsAs (L.Relays hds) := by
  unfold topUp
  split
  · exact failsAs_pure
  refine (spendableEvm_fails hmem).bind fun r n _ _ => ?_
  split
  · exact failsAs_pure
  · rename_i hgt
    rw [Config.unitsFor_one hm hq (Nat.not_le.mp hgt)]
    refine failsAs_ok_bind ((convert_fails _ ?_).bind fun _ _ _ _ => failsAs_pure)
    rw [Amount.val_one, Nat.one_mul]
    exact c.multiplier.isLt

theorem sweepDust_fails (hm : c.multiplier.val ≠ 0) (hmem : hd ∈ hds) :
    (L.audited.sweepDust c hd).FailsAs (L.Relays hds) := by
  refine (spendableEvm_fails hmem).bind fun r n _ _ => ?_
  obtain ⟨units, hunits, hle⟩ := Config.unitsIn_succeeds hm n
  rw [hunits]
  refine failsAs_ok_bind ?_
  split
  · exact failsAs_pure
  · exact (convert_fails _ (hle.trans_lt n.isLt)).bind fun _ _ _ _ =>
      failsAs_report.bind fun _ _ _ _ => failsAs_pure

end Ledger

def KeeperRequest.holders : KeeperRequest → List Holder
  | .accountToModule sender name _ => [.account sender, .escrow name]
  | .moduleToAccount name recipient _ => [.escrow name, .account recipient]
  | .sweep hd => [hd]
  | _ => []

namespace Keeper

variable {k : Keeper} {L : Ledger σ} {hds swept : List Holder} {source : Holder} {f : Coins → Call}
  {sp : Split}

theorem callUnlessZero_fails (coin : Coin) :
    (callUnlessZero L.audited coin f).FailsAs (L.Relays hds) := by
  unfold callUnlessZero
  split
  · exact failsAs_pure
  · exact Ledger.call_fails _

theorem moveSplit_fails (hm : k.config.multiplier.val ≤ 2 ^ 127)
    (hrem : sp.remainder.val < k.config.multiplier.val) (hsource : source ∈ hds)
    (hswept : ∀ hd ∈ swept, hd ∈ hds) :
    (k.moveSplit L.audited sp source swept f).FailsAs (L.Relays hds) := by
  refine (callUnlessZero_fails _).bind fun _ _ _ _ => ?_
  split
  · exact failsAs_pure
  refine (Ledger.topUp_fails hm hrem hsource).bind fun _ _ _ _ => ?_
  refine (Ledger.call_fails _).bind fun _ _ _ _ => failsAs_forM _ fun hd hmem => ?_
  exact (Ledger.sweepDust_fails k.multiplier_ne_zero (hswept hd hmem)).bind fun _ _ _ _ => failsAs_pure

theorem afterSplit_fails {m : Split → Bridge (Audited σ) Unit}
    (hm : ∀ sp : Split, sp.remainder.val < k.config.multiplier.val → (m sp).FailsAs (L.Relays hds))
    (h : (k.split cs >>= m).thenDone.Gives r (.error e) t) :
    ((∃ d, e = .invalidCoinSet d) ∧ t = r) ∨ L.Relays hds e t := by
  rcases gives_bind_error.mp (gives_thenDone_error.mp h) with h | ⟨sp, r₁, hsp, h⟩
  · obtain ⟨rfl, d, -, rfl⟩ := split_error.mp h
    exact .inl ⟨⟨d, rfl⟩, rfl⟩
  · exact .inr (hm sp (split_remainder hsp) h)

theorem legs_fails (f : Coins → Call) (sp : Split) : FailsAs (do
    callUnlessZero L.audited (k.config.wholeCoin sp) f
    callUnlessZero L.audited (k.config.remainderCoin sp) f) (L.Relays hds) :=
  (callUnlessZero_fails _).bind fun _ _ _ _ => callUnlessZero_fails _

theorem perform_audited_fails (hm : k.config.multiplier.val ≤ 2 ^ 127) (hq : q.isQuestion = false)
    (h : (k.perform L.audited q).Gives r (.error e) t) :
    ((∃ d, e = .invalidCoinSet d) ∧ t = r) ∨ L.Relays q.holders e t := by
  cases q with
  | mintCoins name cs | burnCoins name cs => exact afterSplit_fails (fun sp _ => legs_fails _ sp) h
  | accountToModule a name cs =>
    refine afterSplit_fails (fun sp hrem => moveSplit_fails hm hrem ?_ ?_) h <;>
      simp [KeeperRequest.holders]
  | moduleToAccount name a cs =>
    refine afterSplit_fails (fun sp hrem => moveSplit_fails hm hrem ?_ ?_) h <;>
      simp [KeeperRequest.holders]
  | sendCoins source target cs =>
    rcases gives_bind_error.mp (gives_thenDone_error.mp h) with hmoved | ⟨moved, _, -, h⟩
    · obtain ⟨rfl, d, -, rfl⟩ := coinSet_error.mp hmoved
      exact .inl ⟨⟨d, rfl⟩, rfl⟩
    · refine .inr ?_
      split at h
      · exact failsAs_pure h
      · exact Ledger.call_fails _ h
  | sweep hd =>
    have hsweep := Ledger.sweepDust_fails (L := L) k.multiplier_ne_zero (List.mem_singleton_self hd)
    exact .inr ((hsweep.bind fun _ _ _ _ => failsAs_pure) h)
  | _ => cases hq

/-- No request that changes a ledger fails by the arithmetic of the bridge, whatever the ledger
answers: its coin list is refused before any call, or the ledger's last answer is the error. -/
theorem perform_fails (k : Keeper) {L : Ledger σ}
    (hm : k.config.multiplier.val ≤ 2 ^ 127 ∨
      ∃ m n, Config.ofDecimals k.config.evmDenom k.config.cosmosDenom k.config.conversionModule m n =
        .ok k.config)
    (hq : q.isQuestion = false) (h : (k.perform L q).Gives s (.error e) t) :
    e.isInvariantBreach = false ∧
      ((∃ d, e = .invalidCoinSet d) ∧ k.answeredCalls L q s = [] ∧ t = s ∨
        ∃ e₀, e = .ledger e₀ ∧ L.Refuses q.holders (k.answeredCalls L q s) t e₀) := by
  have hm : k.config.multiplier.val ≤ 2 ^ 127 :=
    hm.elim id fun ⟨_, _, h⟩ => Config.ofDecimals_multiplier h
  have hrun := gives_run (k.perform L.audited q) (.start s)
  obtain ⟨hx, ht⟩ := (L.audited_shadows.perform k q |>.gives hrun).unique h
  rw [hx] at hrun
  rcases perform_audited_fails hm hq hrun with ⟨⟨d, rfl⟩, hstart⟩ | ⟨e₀, rfl, hrefuses⟩
  · refine ⟨rfl, .inl ⟨⟨d, rfl⟩, ?_, ?_⟩⟩
    · rw [answeredCalls, hstart]
      rfl
    · rw [← ht, hstart]
      rfl
  · rw [ht] at hrefuses
    exact ⟨rfl, .inr ⟨e₀, rfl, hrefuses⟩⟩

end Keeper

theorem perform_fails_small :
    let k := Keeper.standard
    let L := Book.ledger.staged
    let w : Staged Book := ⟨Book.small, some ⟨3, "down"⟩, ∅⟩
    let q : KeeperRequest := .accountToModule "alice" "fee" [⟨"aorai", .clamp 10⟩]
    ∃ t, (k.perform L q).Gives w (.error (.ledger (.rejected "down"))) t ∧
      L.Refuses [.account "alice", .escrow "fee"] (k.answeredCalls L q w) t (.rejected "down") := by
  intro k L w q
  obtain ⟨t, hrun⟩ : ∃ t, (k.perform L q).Gives w (.error (.ledger (.rejected "down"))) t :=
    ⟨_, by decide +kernel, rfl⟩
  obtain ⟨-, ⟨⟨d, hd⟩, -⟩ | ⟨e₀, he, hrefuses⟩⟩ := k.perform_fails (.inr ⟨18, 6, rfl⟩) rfl hrun
  · cases hd
  · cases he
    exact ⟨t, hrun, hrefuses⟩

end DualDenom
