import DualDenom.Proofs.BookLaws

/-!
# What a call moves

Every call comes down to one of three movements between resolved addresses:
coins go from one address to another, are created or are destroyed. Which one
it is depends on the settings of the book only (`movement_congr`), and the
call is the movement once it is known (`submit_eq`). A movement posts the
figures of its coins; for one coin it is said when it succeeds, and with which
error it fails when the source has too little.
-/

namespace DualDenom

open DualDenom.Action Figures

inductive Movement
  | transfer (source target : Address)
  | create (target : Address)
  | destroy (source : Address)

namespace Movement

def carryOut : Movement → Coins → Book.Change Unit
  | .transfer source target, cs => Book.transfer source target cs
  | .create target, cs => Book.create target cs
  | .destroy source, cs => Book.destroy source cs

def carryCoin : Movement → Coin → Book.Change Unit
  | .transfer source target, c => do
    Book.debit source c
    Book.credit target c
  | .create target, c => do
    Book.credit target c
    Book.issue c
  | .destroy source, c => do
    Book.debit source c
    Book.retire c

def coinFigures : Movement → Coin → Figures
  | .transfer source target, c => -inHand source c + inHand target c
  | .create target, c => inHand target c + inIssue c
  | .destroy source, c => -inHand source c + -inIssue c

def figures (m : Movement) (cs : Coins) : Figures := (cs.map m.coinFigures).sum

@[simp] theorem figures_nil (m : Movement) : m.figures [] = 0 := rfl

@[simp] theorem figures_cons (m : Movement) (c : Coin) (cs : Coins) :
    m.figures (c :: cs) = m.coinFigures c + m.figures cs := List.sum_cons

theorem figures_singleton (m : Movement) (c : Coin) : m.figures [c] = m.coinFigures c := by
  rw [figures_cons, figures_nil, add_zero]

theorem coinFigures_of_isZero (m : Movement) (hc : c.amount.val = 0) : m.coinFigures c = 0 := by
  cases m <;> simp [coinFigures, inHand_of_isZero hc, inIssue_of_isZero hc]

def source? : Movement → Option Address
  | .transfer source _ => some source
  | .create _ => none
  | .destroy source => some source

def target? : Movement → Option Address
  | .transfer _ target => some target
  | .create target => some target
  | .destroy _ => none

theorem balance_coinFigures (m : Movement) (c : Coin) (a : Address) (d : Denom) :
    (m.coinFigures c).balance a d =
      (if m.target? = some a then (Coins.exact [c] d : Int) else 0) -
        if m.source? = some a then (Coins.exact [c] d : Int) else 0 := by
  by_cases hd : c.denom = d
  · cases m <;> simp [coinFigures, target?, source?, hd, @eq_comm _ a]
    omega
  · cases m <;> simp [coinFigures, target?, source?, hd, @eq_comm _ d]

theorem supply_coinFigures (m : Movement) (c : Coin) (d : Denom) :
    (m.coinFigures c).supply d =
      (if m.source? = none then (Coins.exact [c] d : Int) else 0) -
        if m.target? = none then (Coins.exact [c] d : Int) else 0 := by
  by_cases hd : c.denom = d
  · cases m <;> simp [coinFigures, target?, source?, hd]
  · cases m <;> simp [coinFigures, target?, source?, hd, @eq_comm _ d]

theorem balance_figures (m : Movement) (cs : Coins) (a : Address) (d : Denom) :
    (m.figures cs).balance a d =
      (if m.target? = some a then (cs.exact d : Int) else 0) -
        if m.source? = some a then (cs.exact d : Int) else 0 := by
  induction cs with
  | nil => simp
  | cons c cs ih =>
    rw [figures_cons, balance_add, ih, balance_coinFigures, Coins.exact_cons, Coins.exact_cons,
      Coins.exact_nil]
    split_ifs <;> omega

theorem supply_figures (m : Movement) (cs : Coins) (d : Denom) :
    (m.figures cs).supply d =
      (if m.source? = none then (cs.exact d : Int) else 0) -
        if m.target? = none then (cs.exact d : Int) else 0 := by
  induction cs with
  | nil => simp
  | cons c cs ih =>
    rw [figures_cons, supply_add, ih, supply_coinFigures, Coins.exact_cons, Coins.exact_cons,
      Coins.exact_nil]
    split_ifs <;> omega

theorem carryOut_eq (m : Movement) (cs : Coins) :
    m.carryOut cs = (do Book.checkCoins cs; cs.forM m.carryCoin) := by
  cases m <;> rfl

-- ---------------------------------------------------------------------------
-- Success
-- ---------------------------------------------------------------------------

variable {m m' : Movement} {b b' : Book}

theorem carryCoin_posted (h : (m.carryCoin c).Gives b (.ok ()) b') :
    b.Posted (m.coinFigures c) b' := by
  cases m <;> simp only [carryCoin, gives_bind_ok] at h <;> obtain ⟨_, _, h₁, h₂⟩ := h
  · exact (Book.debit_posted h₁).trans (Book.credit_posted h₂)
  · exact (Book.credit_posted h₁).trans (Book.issue_posted h₂)
  · exact (Book.debit_posted h₁).trans (Book.retire_posted h₂)

theorem forM_carryCoin_posted (h : (cs.forM m.carryCoin).Gives b (.ok ()) b') :
    b.Posted (m.figures cs) b' := by
  induction cs generalizing b with
  | nil =>
    obtain ⟨-, rfl⟩ := gives_forM_nil.mp h
    exact .refl b'
  | cons c cs ih =>
    obtain ⟨b₁, h₁, h₂⟩ := gives_forM_cons_ok.mp h
    rw [figures_cons]
    exact (carryCoin_posted h₁).trans (ih h₂)

theorem carryOut_posted (h : (m.carryOut cs).Gives b (.ok ()) b') : b.Posted (m.figures cs) b' := by
  rw [carryOut_eq] at h
  simp only [gives_bind_ok, Book.checkCoins, gives_ofExcept] at h
  obtain ⟨_, _, ⟨-, rfl⟩, h⟩ := h
  exact forM_carryCoin_posted h

theorem carryOut_singleton (hw : c.denom.wellFormed = true) (hz : c.amount.val ≠ 0) :
    (m.carryOut [c]).Gives b x b' ↔ (m.carryCoin c).Gives b x b' := by
  have hk : Coins.check [c] = .ok () := Coins.check_singleton.mpr ⟨hw, hz⟩
  have hrun : (m.carryOut [c]).run b = (m.carryCoin c).run b := by
    rw [carryOut_eq]
    show (Book.checkCoins [c] >>= fun _ => m.carryCoin c >>= fun _ => pure ()).run b = _
    have hck : Book.checkCoins [c] = pure () := by
      simp only [Book.checkCoins, hk]
      rfl
    rw [hck, pure_bind, bind_pure_unit]
  rw [Gives, hrun, Gives]

theorem carryCoin_fails (hm : m.source? = some a)
    (hlt : (b.spendable a c.denom).val < c.amount.val) :
    (m.carryCoin c).Gives b
      (.error (.insufficientFunds a c.denom (b.spendable a c.denom) c.amount)) b := by
  cases m <;> cases hm <;> exact gives_bind_error.mpr (.inl (Book.debit_fails hlt))

def Affords (b : Book) (c : Coin) (m : Movement) : Prop :=
  ∀ a, m.source? = some a → c.amount.val ≤ (b.spendable a c.denom).val

def Lands (b : Book) (c : Coin) : Movement → Prop
  | .transfer source target =>
    target = source ∨ (b.balance target c.denom).val + c.amount.val < Amount.bound
  | .create target => (b.balance target c.denom).val + c.amount.val < Amount.bound ∧
    (b.supply c.denom).val + c.amount.val < Amount.bound
  | .destroy _ => c.amount.val ≤ (b.supply c.denom).val

theorem Affords.of_source (h : m.Affords b c) (hs : m'.source? = m.source?) : m'.Affords b c :=
  fun a ha => h a (hs.symm.trans ha)

theorem carryCoin_affords (h : (m.carryCoin c).Gives b (.ok ()) b') : m.Affords b c := by
  intro a ha
  by_contra hlt
  cases (h.unique (carryCoin_fails ha (Nat.not_le.mp hlt))).1

theorem carryCoin_lands (h : (m.carryCoin c).Gives b (.ok ()) b') : m.Lands b c := by
  have hp := carryCoin_posted h
  have hsup := hp.supply c.denom
  cases m with
  | transfer source target =>
    by_cases hts : target = source
    · exact .inl hts
    · have hbal := hp.balance target c.denom
      have hlt := (b'.balance target c.denom).isLt
      simp only [coinFigures, balance_add, balance_neg, balance_inHand, hts, false_and, if_false,
        and_self, if_true, neg_zero, zero_add] at hbal
      exact .inr (by omega)
  | create target =>
    have hbal := hp.balance target c.denom
    have hlt := (b'.balance target c.denom).isLt
    have hlt' := (b'.supply c.denom).isLt
    simp only [coinFigures, balance_add, balance_inHand, balance_inIssue, supply_add, supply_inHand,
      supply_inIssue, and_self, if_true, add_zero, zero_add] at hbal hsup
    exact ⟨by omega, by omega⟩
  | destroy source =>
    simp only [coinFigures, supply_add, supply_neg, supply_inHand, supply_inIssue, if_true, neg_zero,
      zero_add] at hsup
    show c.amount.val ≤ (b.supply c.denom).val
    omega

/-- A coin is moved just when it is there and lands. -/
theorem carryCoin_iff :
    (∃ b', (m.carryCoin c).Gives b (.ok ()) b') ↔ m.Affords b c ∧ m.Lands b c := by
  refine ⟨fun ⟨b', h⟩ => ⟨carryCoin_affords h, carryCoin_lands h⟩, fun ⟨ha, hl⟩ => ?_⟩
  cases m with
  | transfer source target =>
    obtain ⟨b₁, h₁⟩ := Book.debit_succeeds (ha source rfl)
    have hbal := (Book.debit_posted h₁).balance target c.denom
    obtain ⟨b₂, h₂⟩ := Book.credit_succeeds (a := target) (b := b₁) (c := c) (by
      have hlt := (b.balance target c.denom).isLt
      rcases hl with rfl | hroom
      · simp only [balance_neg, balance_inHand, and_self, if_true] at hbal
        omega
      · simp only [balance_neg, balance_inHand] at hbal
        split at hbal <;> omega)
    exact ⟨b₂, gives_bind_ok.mpr ⟨(), b₁, h₁, h₂⟩⟩
  | create target =>
    obtain ⟨hroom, hsup⟩ := hl
    obtain ⟨b₁, h₁⟩ := Book.credit_succeeds (a := target) hroom
    obtain ⟨b₂, h₂⟩ := Book.issue_succeeds (b := b₁) (c := c) (by
      rwa [(Book.credit_posted h₁).supply_eq rfl])
    exact ⟨b₂, gives_bind_ok.mpr ⟨(), b₁, h₁, h₂⟩⟩
  | destroy source =>
    obtain ⟨b₁, h₁⟩ := Book.debit_succeeds (ha source rfl)
    obtain ⟨b₂, h₂⟩ := Book.retire_succeeds (b := b₁) (c := c) (by
      rwa [(Book.debit_posted h₁).supply_eq neg_zero])
    exact ⟨b₂, gives_bind_ok.mpr ⟨(), b₁, h₁, h₂⟩⟩

theorem transfer_succeeds (hs : c.amount.val ≤ (b.spendable source c.denom).val)
    (hroom : (b.sheet c.denom).total < Amount.bound) :
    ∃ b', ((transfer source target).carryCoin c).Gives b (.ok ()) b' := by
  refine carryCoin_iff.mpr ⟨fun a ha => Option.some.inj ha ▸ hs, or_iff_not_imp_left.mpr fun hts => ?_⟩
  calc (b.balance target c.denom).val + c.amount.val
    _ ≤ (b.balance target c.denom).val + (b.balance source c.denom).val :=
      Nat.add_le_add_left (hs.trans (Sheet.spendable_le_balance ..)) _
    _ ≤ (b.sheet c.denom).total := Sheet.balance_add_le_total _ hts
    _ < Amount.bound := hroom

theorem create_succeeds (hroom : (b.sheet c.denom).total + c.amount.val < Amount.bound)
    (hsup : (b.supply c.denom).val + c.amount.val < Amount.bound) :
    ∃ b', ((create target).carryCoin c).Gives b (.ok ()) b' :=
  carryCoin_iff.mpr ⟨nofun, (Nat.add_le_add_right (Sheet.balance_le_total ..) _).trans_lt hroom, hsup⟩

theorem destroy_succeeds (hs : c.amount.val ≤ (b.spendable source c.denom).val)
    (hsup : c.amount.val ≤ (b.supply c.denom).val) :
    ∃ b', ((destroy source).carryCoin c).Gives b (.ok ()) b' :=
  carryCoin_iff.mpr ⟨fun _ ha => Option.some.inj ha ▸ hs, hsup⟩

end Movement

-- ---------------------------------------------------------------------------
-- Calls
-- ---------------------------------------------------------------------------

namespace Book

/-- What a call comes down to on a book, or why it is refused before any coin is looked at. -/
def movement (b : Book) : Call → Except LedgerError Movement
  | .send source target cs => do
    b.checkSendEnabled cs
    pure (.transfer source target)
  | .accountToModule sender name _ => do
    pure (.transfer sender (← b.moduleAddress name))
  | .moduleToAccount name recipient _ => do
    let source ← b.moduleAddress name
    b.checkNotBlocked recipient
    pure (.transfer source recipient)
  | .moduleToModule sender recipient _ => do
    let source ← b.moduleAddress sender
    let target ← b.moduleAddress recipient
    pure (.transfer source target)
  | .mint name _ => do
    pure (.create (← b.addressWith name .minter))
  | .burn name _ => do
    pure (.destroy (← b.addressWith name .burner))

theorem submit_eq (call : Call) :
    submit call = (do
      let m ← Action.query (·.movement call)
      m.carryOut call.coins) := by
  cases call <;> simp only [submit, movement, query_bind, query_pure, bind_assoc, pure_bind] <;> rfl

theorem submit_of_movement {b : Book} (h : b.movement call = .ok m) :
    (submit call).Gives b x b' ↔ (m.carryOut call.coins).Gives b x b' := by
  have hrun : (submit call).run b = (m.carryOut call.coins).run b := by
    rw [submit_eq, run_bind, run_query, h]
    rfl
  rw [Gives, hrun, Gives]

theorem submit_ok {b : Book} : (submit call).Gives b (.ok ()) b' ↔
    ∃ m, b.movement call = .ok m ∧ (m.carryOut call.coins).Gives b (.ok ()) b' := by
  rw [submit_eq, gives_bind_ok]
  simp only [gives_query]
  constructor
  · rintro ⟨m, _, ⟨hm, rfl⟩, h⟩
    exact ⟨m, hm, h⟩
  · rintro ⟨m, hm, h⟩
    exact ⟨m, b, ⟨hm, rfl⟩, h⟩

theorem SameSettings.moduleAccount (h : SameSettings b b') (name : ModuleName) :
    b'.moduleAccount name = b.moduleAccount name := by simp only [Book.moduleAccount, h.modules]

theorem SameSettings.moduleAddress (h : SameSettings b b') (name : ModuleName) :
    b'.moduleAddress name = b.moduleAddress name := by
  simp only [Book.moduleAddress, h.moduleAccount]

theorem SameSettings.addressWith (h : SameSettings b b') (name : ModuleName) (p : Permission) :
    b'.addressWith name p = b.addressWith name p := by simp only [Book.addressWith, h.moduleAccount]

theorem movement_eq {b b' : Book} {call : Call}
    (hmodules : ∀ name, b'.moduleAccount name = b.moduleAccount name)
    (hblocked : ∀ a, b'.blocked.contains a = b.blocked.contains a)
    (hsend : b'.checkSendEnabled call.coins = b.checkSendEnabled call.coins) :
    b'.movement call = b.movement call := by
  cases call with
  | send source target cs => exact congrArg (· >>= fun _ => pure (Movement.transfer source target)) hsend
  | _ => simp only [movement, moduleAddress, addressWith, checkNotBlocked, hmodules, hblocked]

theorem movement_congr (h : SameSettings b b') (call : Call) : b'.movement call = b.movement call :=
  movement_eq h.moduleAccount (fun a => by rw [h.blocked]) (by simp only [checkSendEnabled, h.sendDisabled])

theorem moduleAddress_of_addressWith {b : Book} (h : b.addressWith name p = .ok e) :
    b.moduleAddress name = .ok e := by
  simp only [addressWith, bind_ok] at h
  obtain ⟨account, ha, h⟩ := h
  split at h
  · rw [moduleAddress, ha, ← pure_ok.mp h]
    rfl
  · exact (throw_ok.mp h).elim

-- ---------------------------------------------------------------------------
-- Holders
-- ---------------------------------------------------------------------------

def addressOf (b : Book) (h : Holder) : Except LedgerError Address := ledger.holderAddress b h

@[simp] theorem addressOf_account (b : Book) : b.addressOf (.account a) = .ok a := rfl

@[simp] theorem addressOf_escrow (b : Book) : b.addressOf (.escrow name) = b.moduleAddress name := rfl

theorem SameSettings.addressOf (h : SameSettings b b') (hd : Holder) :
    b'.addressOf hd = b.addressOf hd := by
  cases hd with
  | account a => rfl
  | escrow name => exact h.moduleAddress name

/-- A holder may receive from modules; only accounts can be blocked. -/
def Admits (b : Book) : Holder → Prop
  | .account a => b.blocked.contains a = false
  | .escrow _ => True

theorem SameSettings.admits (h : SameSettings b b') : b'.Admits hd ↔ b.Admits hd := by
  cases hd <;> simp [Admits, h.blocked]

theorem checkNotBlocked_ok {b : Book} : b.checkNotBlocked a = .ok u ↔ b.Admits (.account a) := by
  show _ ↔ b.blocked.contains a = false
  unfold checkNotBlocked
  cases b.blocked.contains a
  · simp [pure_ok]
  · simp [throw_ok]

theorem movement_accountToModule {b : Book} : b.movement (.accountToModule a name cs) = .ok m ↔
    ∃ t, b.moduleAddress name = .ok t ∧ m = .transfer a t := by
  simp only [movement, bind_ok, pure_ok, @eq_comm _ m]

theorem movement_moduleToAccount {b : Book} : b.movement (.moduleToAccount name a cs) = .ok m ↔
    ∃ t, b.moduleAddress name = .ok t ∧ b.Admits (.account a) ∧ m = .transfer t a := by
  simp only [movement, bind_ok, checkNotBlocked_ok, pure_ok, @eq_comm _ m, exists_const]

theorem movement_into {b : Book} (he : ∀ e', b.moduleAddress name = .ok e' → e' = e)
    (h : b.movement (.accountToModule a name cs) = .ok m) : m = .transfer a e := by
  obtain ⟨e', he', rfl⟩ := movement_accountToModule.mp h
  rw [he e' he']

theorem movement_outOf {b : Book} (he : ∀ e', b.moduleAddress name = .ok e' → e' = e)
    (h : b.movement (.moduleToAccount name a cs) = .ok m) : m = .transfer e a := by
  obtain ⟨e', he', -, rfl⟩ := movement_moduleToAccount.mp h
  rw [he e' he']

theorem movement_deposit {b : Book} : b.movement (Holder.deposit name cs hd) = .ok m ↔
    ∃ a e, b.addressOf hd = .ok a ∧ b.moduleAddress name = .ok e ∧ m = .transfer a e := by
  cases hd with
  | account a => simp [Holder.deposit, movement_accountToModule]
  | escrow n => simp only [Holder.deposit, movement, bind_ok, pure_ok, addressOf_escrow, @eq_comm _ m,
      exists_and_left]

theorem movement_withdraw {b : Book} : b.movement (Holder.withdraw name cs hd) = .ok m ↔
    ∃ a e, b.addressOf hd = .ok a ∧ b.moduleAddress name = .ok e ∧ b.Admits hd ∧
      m = .transfer e a := by
  cases hd with
  | account a => simp [Holder.withdraw, movement_moduleToAccount]
  | escrow n =>
    simp only [Holder.withdraw, movement, bind_ok, pure_ok, addressOf_escrow, @eq_comm _ m, Admits,
      true_and]
    constructor
    · rintro ⟨e, he, a, ha, h⟩
      exact ⟨a, e, ha, he, h⟩
    · rintro ⟨a, e, ha, he, h⟩
      exact ⟨e, he, a, ha, h⟩

theorem movement_mint {b : Book} : b.movement (.mint name cs) = .ok m ↔
    ∃ e, b.addressWith name .minter = .ok e ∧ m = .create e := by
  simp only [movement, bind_ok, pure_ok, @eq_comm _ m]

theorem movement_burn {b : Book} : b.movement (.burn name cs) = .ok m ↔
    ∃ e, b.addressWith name .burner = .ok e ∧ m = .destroy e := by
  simp only [movement, bind_ok, pure_ok, @eq_comm _ m]

end Book

end DualDenom
