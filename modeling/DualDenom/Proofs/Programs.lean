import DualDenom.Request
import DualDenom.Proofs.SplitLaws
import Mathlib.Tactic.Choose

/-!
# Operations as programs

An operation of the bridge reaches its ledger through questions and calls alone,
and what it does next is decided by what it was answered. `IsProgram` says so:
there is one tree of questions, calls and reports, the same for every ledger,
and on each ledger the operation is that tree carried out. All of the tree lies
within a scope: it asks for the addresses of modules and for amounts of the two
denoms, it calls with coins of the two denoms that every ledger takes, and no
error of its own is said to be the ledger's. What holds of every such tree by
induction holds of every operation (`perform_isProgram`).
-/

namespace DualDenom

open DualDenom.Action

-- ---------------------------------------------------------------------------
-- Questions
-- ---------------------------------------------------------------------------

inductive Question
  | spendableCoins (address : Address)
  | spendableAmount (address : Address) (denom : Denom)
  | checkSendEnabled (coins : Coins)
  | moduleAddress (name : ModuleName)

def Question.Answer : Question → Type
  | .spendableCoins _ => Coins
  | .spendableAmount .. => Amount
  | .checkSendEnabled _ => Unit
  | .moduleAddress _ => Address

def Ledger.answer (L : Ledger σ) (s : σ) : (q : Question) → Except LedgerError q.Answer
  | .spendableCoins a => L.spendableCoins s a
  | .spendableAmount a d => L.spendableAmount s a d
  | .checkSendEnabled cs => L.checkSendEnabled s cs
  | .moduleAddress name => L.moduleAddress s name

-- ---------------------------------------------------------------------------
-- Programs
-- ---------------------------------------------------------------------------

/-- What the bridge does next, for every answer that it may be given. -/
inductive Program (α : Type)
  | done (x : Except BridgeError α)
  | report (e : Event) (next : Program α)
  | ask (q : Question) (next : q.Answer → Program α)
  | call (cl : Call) (next : Program α)

structure Scope where
  asks : Question → Prop
  calls : Call → Prop

def Scope.passing (S : Scope) (q? : Option Question) : Scope :=
  { S with asks := fun q => S.asks q ∨ q? = some q }

theorem Scope.passing_asks (S : Scope) (q : Question) : (S.passing (some q)).asks q := .inr rfl

def Own (x : Except BridgeError α) : Prop := ∀ e, x = .error e → e.isLedgerFailure = false

theorem own_mapError {x : Except ε α} {f : ε → BridgeError}
    (hf : ∀ e, (f e).isLedgerFailure = false) : Own (x.mapError f) := by
  intro e h
  obtain ⟨e₀, -, rfl⟩ := mapError_error.mp h
  exact hf e₀

theorem Own.bind {x : Except BridgeError α} {f : α → Except BridgeError β} (hx : Own x)
    (hf : ∀ a, Own (f a)) : Own (x >>= f) := by
  intro e h
  rcases bind_error.mp h with h | ⟨a, -, h⟩
  · exact hx e h
  · exact hf a e h

namespace Program

variable {S : Scope}

def bind (p : Program α) (f : α → Program β) : Program β :=
  match p with
  | .done (.ok a) => f a
  | .done (.error e) => .done (.error e)
  | .report e next => .report e (next.bind f)
  | .ask q next => .ask q fun x => (next x).bind f
  | .call cl next => .call cl (next.bind f)

/-- Carries a program out. The first error of the ledger stops it. -/
def on (L : Ledger σ) : Program α → Bridge σ α
  | .done x => .ofExcept x
  | .report e next => do
    .report e
    next.on L
  | .ask q next => do
    let x ← Ledger.ask (L.answer · q)
    (next x).on L
  | .call cl next => do
    L.call cl
    next.on L

theorem on_bind (L : Ledger σ) (p : Program α) (f : α → Program β) :
    (p.bind f).on L = p.on L >>= fun a => (f a).on L := by
  induction p with
  | done x =>
    cases x with
    | ok a => exact (pure_bind a fun a => (f a).on L).symm
    | error e => rfl
  | report e next ih => simp only [bind, on, ih, bind_assoc]
  | ask q next ih => simp only [bind, on, ih, bind_assoc]
  | call cl next ih => simp only [bind, on, ih, bind_assoc]

/-- The program stays in a scope, whatever it is answered, and fails by itself with errors of
its own only. -/
def Within (S : Scope) : Program α → Prop
  | .done x => Own x
  | .report _ next => next.Within S
  | .ask q next => S.asks q ∧ ∀ x, (next x).Within S
  | .call cl next => S.calls cl ∧ next.Within S

theorem Within.bind {p : Program α} {f : α → Program β} (hp : p.Within S)
    (hf : ∀ a, (f a).Within S) : (p.bind f).Within S := by
  induction p with
  | done x =>
    cases x with
    | ok a => exact hf a
    | error e =>
      rintro _ ⟨⟩
      exact hp e rfl
  | report e next ih => exact ih hp
  | ask q next ih => exact ⟨hp.1, fun x => ih x (hp.2 x)⟩
  | call cl next ih => exact ⟨hp.1, ih hp.2⟩

theorem Within.passing {p : Program α} (hp : p.Within S) (q? : Option Question) :
    p.Within (S.passing q?) := by
  induction p with
  | done x => exact hp
  | report e next ih => exact ih hp
  | ask q next ih => exact ⟨.inl hp.1, fun x => ih x (hp.2 x)⟩
  | call cl next ih => exact ⟨hp.1, ih hp.2⟩

end Program

-- ---------------------------------------------------------------------------
-- One program on all ledgers
-- ---------------------------------------------------------------------------

/-- The action is one program of a scope, carried out on whatever ledger. -/
def IsProgram (S : Scope) (m : (σ : Type) → Ledger σ → Bridge σ α) : Prop :=
  ∃ p : Program α, p.Within S ∧ ∀ (σ : Type) (L : Ledger σ), m σ L = p.on L

section

variable {S : Scope}

theorem isProgram_ofExcept {x : Except BridgeError α} (hx : Own x) :
    IsProgram S fun _ _ => .ofExcept x := ⟨.done x, hx, fun _ _ => rfl⟩

theorem isProgram_pure (a : α) : IsProgram S fun _ _ => pure a :=
  ⟨.done (.ok a), nofun, fun _ _ => rfl⟩

theorem isProgram_fail (he : e.isLedgerFailure = false) :
    IsProgram S fun _ _ => (.fail e : Bridge _ α) :=
  ⟨.done (.error e), fun _ h => Except.error.inj h ▸ he, fun _ _ => rfl⟩

theorem isProgram_report (e : Event) : IsProgram S fun _ _ => .report e :=
  ⟨.report e (.done (.ok ())), nofun, fun _ _ => (bind_pure _).symm⟩

theorem isProgram_ask {q : Question} (h : S.asks q) :
    IsProgram S fun _ L => Ledger.ask (L.answer · q) :=
  ⟨.ask q fun x => .done (.ok x), ⟨h, nofun⟩, fun _ _ => (bind_pure _).symm⟩

theorem isProgram_call {cl : Call} (h : S.calls cl) : IsProgram S fun _ L => L.call cl :=
  ⟨.call cl (.done (.ok ())), ⟨h, nofun⟩, fun _ _ => (bind_pure _).symm⟩

theorem IsProgram.bind {m : (σ : Type) → Ledger σ → Bridge σ α}
    {f : α → (σ : Type) → Ledger σ → Bridge σ β} (hm : IsProgram S m)
    (hf : ∀ a, IsProgram S (f a)) : IsProgram S fun σ L => m σ L >>= fun a => f a σ L := by
  obtain ⟨p, hp, hpm⟩ := hm
  choose g hg hgf using hf
  exact ⟨p.bind g, hp.bind hg, fun σ L => by simp only [Program.on_bind, hpm, hgf]⟩

theorem isProgram_ofExcept_bind {x : Except BridgeError α}
    {f : α → (σ : Type) → Ledger σ → Bridge σ β} (hx : Own x)
    (hf : ∀ a, x = .ok a → IsProgram S (f a)) :
    IsProgram S fun σ L => .ofExcept x >>= fun a => f a σ L := by
  cases x with
  | ok a => exact hf a rfl
  | error e => exact isProgram_fail (hx e rfl)

theorem IsProgram.ite {m m' : (σ : Type) → Ledger σ → Bridge σ α} {P : Prop} [Decidable P]
    (h : P → IsProgram S m) (h' : ¬P → IsProgram S m') :
    IsProgram S fun σ L => if P then m σ L else m' σ L := by
  by_cases hP : P
  · simpa only [if_pos hP] using h hP
  · simpa only [if_neg hP] using h' hP

theorem isProgram_forM {f : β → (σ : Type) → Ledger σ → Bridge σ PUnit} {bs : List β}
    (h : ∀ b ∈ bs, IsProgram S (f b)) : IsProgram S fun σ L => bs.forM fun b => f b σ L := by
  induction bs with
  | nil => exact isProgram_pure _
  | cons b bs ih =>
    exact (h b List.mem_cons_self).bind fun _ => ih fun b' hb => h b' (List.mem_cons_of_mem _ hb)

theorem IsProgram.thenDone {m : (σ : Type) → Ledger σ → Bridge σ Unit} (hm : IsProgram S m) :
    IsProgram S fun σ L => (m σ L).thenDone := hm.bind fun _ => isProgram_pure _

theorem IsProgram.passing {m : (σ : Type) → Ledger σ → Bridge σ α} (hm : IsProgram S m)
    (q? : Option Question) : IsProgram (S.passing q?) m := by
  obtain ⟨p, hp, hpm⟩ := hm
  exact ⟨p, hp.passing q?, hpm⟩

end

-- ---------------------------------------------------------------------------
-- Coins that the bridge calls with
-- ---------------------------------------------------------------------------

namespace Config

variable {c : Config} {units evm : Amount}

def Native (c : Config) (d : Denom) : Prop := d = c.evmDenom ∨ d = c.cosmosDenom

structure Fits (c : Config) (cs : Coins) : Prop where
  nonempty : cs ≠ []
  native : ∀ coin ∈ cs, c.Native coin.denom
  /-- What units are worth at a multiplier of zero is nothing. -/
  positive : ∀ coin ∈ cs, coin.amount.val = 0 → c.multiplier.val = 0
  ascending : cs.orderDefect? = none

theorem fits_singleton (hd : c.Native coin.denom)
    (hz : coin.amount.val = 0 → c.multiplier.val = 0) : c.Fits [coin] where
  nonempty := List.cons_ne_nil _ _
  native _ hmem := List.mem_singleton.mp hmem ▸ hd
  positive _ hmem := List.mem_singleton.mp hmem ▸ hz
  ascending := rfl

theorem fits_exchange (hu : units.val ≠ 0) (he : evm.val = units.val * c.multiplier.val)
    (d : Direction) : c.Fits [c.sourceCoin units evm d] ∧ c.Fits [c.targetCoin units evm d] := by
  have hcosmos : c.Fits [c.cosmosCoin units] := fits_singleton (.inr rfl) fun hz => absurd hz hu
  have hevm : c.Fits [c.evmCoin evm] := by
    refine fits_singleton (.inl rfl) fun hz => ?_
    exact (Nat.mul_eq_zero.mp (he.symm.trans hz)).resolve_left hu
  cases d with
  | cosmosToEvm => exact ⟨hcosmos, hevm⟩
  | evmToCosmos => exact ⟨hevm, hcosmos⟩

theorem coins_of_mem_route (h : cl ∈ c.route hd units evm d) :
    cl.coins = [c.sourceCoin units evm d] ∨ cl.coins = [c.targetCoin units evm d] := by
  unfold route at h
  split at h
  · simp only [List.mem_cons, List.not_mem_nil, or_false] at h
    rcases h with rfl | rfl
    · exact .inl rfl
    · exact .inr rfl
  · simp only [List.cons_append, List.nil_append, List.mem_cons, List.not_mem_nil, or_false] at h
    rcases h with rfl | rfl | rfl | rfl
    · exact .inl (by cases hd <;> rfl)
    · exact .inl rfl
    · exact .inr rfl
    · exact .inr (by cases hd <;> rfl)

theorem fits_of_mem_route (hu : units.val ≠ 0) (he : evm.val = units.val * c.multiplier.val)
    (h : cl ∈ c.route hd units evm d) : c.Fits cl.coins := by
  obtain ⟨hsource, htarget⟩ := fits_exchange hu he d
  rcases coins_of_mem_route h with hcs | hcs
  · rwa [hcs]
  · rwa [hcs]

theorem movable_ok {cs moved : Coins} : cs.movable c = .ok moved ↔ moved = cs.positive ∧
    (cs.positive = [] ∨ cs.positive.check = .ok () ∧ ∀ coin ∈ cs.positive, c.Native coin.denom) := by
  unfold Coins.movable
  by_cases hp : cs.positive = []
  · simp only [hp, List.isEmpty_nil, if_true, pure_ok, true_or, and_true, @eq_comm _ moved]
  have hnative : (cs.positive.find? fun coin =>
        coin.denom ≠ c.evmDenom && coin.denom ≠ c.cosmosDenom) = none ↔
      ∀ coin ∈ cs.positive, c.Native coin.denom := by
    simp [Native, or_iff_not_imp_left]
  simp only [List.isEmpty_eq_false_iff.mpr hp, Bool.false_eq_true, if_false, bind_ok, mapError_ok, hp,
    false_or, ← hnative]
  constructor
  · rintro ⟨_, hcheck, h⟩
    split at h
    · exact (throw_ok.mp h).elim
    · rename_i hfind
      exact ⟨(pure_ok.mp h).symm, hcheck, hfind⟩
  · rintro ⟨rfl, hcheck, hfind⟩
    exact ⟨(), hcheck, by rw [hfind]; exact pure_ok.mpr rfl⟩

theorem fits_movable {cs moved : Coins} (h : cs.movable c = .ok moved) (hne : moved ≠ []) :
    c.Fits moved := by
  obtain ⟨rfl, hnil | ⟨hcheck, hnative⟩⟩ := movable_ok.mp h
  · exact absurd hnil hne
  · obtain ⟨hcoins, horder⟩ := Coins.check_ok.mp hcheck
    exact ⟨hne, hnative, fun coin hmem hz => absurd hz (hcoins coin hmem).2, horder⟩

def scope (c : Config) : Scope where
  asks
    | .moduleAddress _ => True
    | .spendableAmount _ d => c.Native d
    | _ => False
  calls cl := c.Fits cl.coins

theorem unitsFor_own (c : Config) (n : Amount) : Own (c.unitsFor n) :=
  (own_mapError fun _ => rfl).bind fun _ => (own_mapError fun _ => rfl).bind fun _ =>
    own_mapError fun _ => rfl

end Config

theorem Split.ofAmount_own (n m : Amount) : Own (Split.ofAmount n m) := by
  refine (own_mapError fun _ => rfl).bind fun _ => (own_mapError fun _ => rfl).bind fun _ =>
    (own_mapError fun _ => rfl).bind fun _ => ?_
  split
  · exact nofun
  · intro e h
    cases h
    rfl

-- ---------------------------------------------------------------------------
-- Conversions
-- ---------------------------------------------------------------------------

namespace Ledger

variable {c : Config}

theorem ask_map (f : σ → Except LedgerError α) (g : α → β) :
    ask (fun s => (f s).map g) = ask f >>= fun a => pure (g a) := by
  funext s
  show (ask fun s => (f s).map g).run s = (ask f >>= fun a => pure (g a)).run s
  simp only [ask, run_bind, run_mapError, run_query]
  cases f s <;> rfl

/-- Asked at once again, a ledger answers the same. -/
theorem ask_bind_ask (f : σ → Except LedgerError α) (g : α → α → Bridge σ β) :
    (ask f >>= fun a => ask f >>= g a) = ask f >>= fun a => g a a := by
  funext s
  show (ask f >>= fun a => ask f >>= g a).run s = (ask f >>= fun a => g a a).run s
  simp only [ask, run_bind, run_mapError, run_query]
  cases hs : f s with
  | error e => rfl
  | ok a =>
    simp only [Except.mapError, hs]
    rfl

theorem holderAddress_isProgram (c : Config) (hd : Holder) :
    IsProgram c.scope fun _ L => ask (L.holderAddress · hd) := by
  cases hd with
  | account a => exact isProgram_pure a
  | escrow name => exact isProgram_ask (q := .moduleAddress name) trivial

theorem spendableAmount_isProgram (a : Address) (hd : c.Native d) :
    IsProgram c.scope fun _ L => ask (L.spendableAmount · a d) :=
  isProgram_ask (q := .spendableAmount a d) hd

theorem spendableEvm_isProgram (c : Config) (hd : Holder) :
    IsProgram c.scope fun _ L => L.spendableEvm c hd :=
  (holderAddress_isProgram c hd).bind fun a => spendableAmount_isProgram a (.inl rfl)

theorem convert_isProgram (c : Config) (hd : Holder) (units : Amount) (d : Direction) :
    IsProgram c.scope fun _ L => L.convert c hd units d := by
  refine .ite (fun _ => isProgram_pure ()) fun hz => ?_
  refine isProgram_ofExcept_bind (own_mapError fun _ => rfl) fun evm he => ?_
  have hu : units.val ≠ 0 := fun hu => hz (Amount.isZero_iff.mpr hu)
  have he := Amount.mul_eq_ok.mp (mapError_ok.mp he)
  exact (isProgram_forM fun cl hmem => isProgram_call (Config.fits_of_mem_route hu he hmem)).bind
    fun _ => isProgram_report _

theorem topUp_isProgram (c : Config) (hd : Holder) (q : Amount) :
    IsProgram c.scope fun _ L => L.topUp c hd q :=
  .ite (fun _ => isProgram_pure _) fun _ => (spendableEvm_isProgram c hd).bind fun _ =>
    .ite (fun _ => isProgram_pure _) fun _ => (isProgram_ofExcept (c.unitsFor_own _)).bind fun _ =>
      (convert_isProgram ..).bind fun _ => isProgram_pure _

theorem sweepDust_isProgram (c : Config) (hd : Holder) :
    IsProgram c.scope fun _ L => L.sweepDust c hd :=
  (spendableEvm_isProgram c hd).bind fun _ =>
    (isProgram_ofExcept (own_mapError fun _ => rfl)).bind fun _ =>
      .ite (fun _ => isProgram_pure _) fun _ => (convert_isProgram ..).bind fun _ =>
        (isProgram_report _).bind fun _ => isProgram_pure _

theorem performConversion_isProgram (c : Config) (q : ConversionRequest) :
    IsProgram c.scope fun _ L => L.performConversion c q := by
  cases q with
  | convert hd units d => exact (convert_isProgram c hd units d).thenDone
  | topUp hd required => exact (topUp_isProgram c hd required).bind fun _ => isProgram_pure _
  | sweepDust hd => exact (sweepDust_isProgram c hd).bind fun _ => isProgram_pure _

end Ledger

-- ---------------------------------------------------------------------------
-- The keeper
-- ---------------------------------------------------------------------------

def KeeperRequest.passesOn : KeeperRequest → Option Question
  | .spendableCoins a => some (.spendableCoins a)
  | .checkSendEnabled cs => some (.checkSendEnabled cs)
  | _ => none

namespace Keeper

variable {k : Keeper} {f : Coins → Call}

theorem split_isProgram (k : Keeper) (cs : Coins) : IsProgram k.config.scope fun _ _ => k.split cs :=
  (isProgram_ofExcept (own_mapError fun _ => rfl)).bind fun _ =>
    (isProgram_ofExcept (Split.ofAmount_own _ _)).bind fun _ =>
      (isProgram_report _).bind fun _ => isProgram_pure _

theorem callUnlessZero_isProgram {c : Config} {coin : Coin} (hd : c.Native coin.denom)
    (hf : ∀ cs, (f cs).coins = cs) : IsProgram c.scope fun _ L => callUnlessZero L coin f := by
  refine .ite (fun _ => isProgram_pure ()) fun hz => isProgram_call ?_
  show c.Fits (f [coin]).coins
  rw [hf]
  exact Config.fits_singleton hd fun h => absurd (Amount.isZero_iff.mpr h) hz

theorem moveSplit_isProgram (k : Keeper) (sp : Split) (source : Holder) (swept : List Holder)
    (hf : ∀ cs, (f cs).coins = cs) :
    IsProgram k.config.scope fun _ L => k.moveSplit L sp source swept f := by
  refine (callUnlessZero_isProgram (.inr rfl) hf).bind fun _ => ?_
  refine .ite (fun _ => isProgram_pure ()) fun hz => ?_
  have hfits : k.config.Fits (f [k.config.remainderCoin sp]).coins := by
    rw [hf]
    exact Config.fits_singleton (.inl rfl) fun h => absurd (Amount.isZero_iff.mpr h) hz
  refine (Ledger.topUp_isProgram ..).bind fun _ => (isProgram_call hfits).bind fun _ => ?_
  exact isProgram_forM fun hd _ => (Ledger.sweepDust_isProgram _ hd).bind fun _ => isProgram_pure _

theorem accountToModule_isProgram (k : Keeper) (a : Address) (name : ModuleName) (cs : Coins) :
    IsProgram k.config.scope fun _ L => k.accountToModule L a name cs :=
  (split_isProgram k cs).bind fun _ => moveSplit_isProgram k _ _ _ fun _ => rfl

theorem moduleToAccount_isProgram (k : Keeper) (name : ModuleName) (a : Address) (cs : Coins) :
    IsProgram k.config.scope fun _ L => k.moduleToAccount L name a cs :=
  (split_isProgram k cs).bind fun _ => moveSplit_isProgram k _ _ _ fun _ => rfl

theorem legs_isProgram (k : Keeper) (cs : Coins) (hf : ∀ cs, (f cs).coins = cs) :
    IsProgram k.config.scope fun σ L => (do
      let sp ← k.split cs
      callUnlessZero L (k.config.wholeCoin sp) f
      callUnlessZero L (k.config.remainderCoin sp) f : Bridge σ Unit) :=
  (split_isProgram k cs).bind fun _ => (callUnlessZero_isProgram (.inr rfl) hf).bind fun _ =>
    callUnlessZero_isProgram (.inl rfl) hf

theorem sendCoins_isProgram (k : Keeper) (source target : Address) (cs : Coins) :
    IsProgram k.config.scope fun _ L => k.sendCoins L source target cs := by
  refine isProgram_ofExcept_bind (own_mapError fun _ => rfl) fun moved hmoved => ?_
  refine .ite (fun _ => isProgram_pure ()) fun hne => isProgram_call ?_
  exact Config.fits_movable (mapError_ok.mp hmoved) fun h => hne (List.isEmpty_iff.mpr h)

/-- Of a whole listing only two amounts are looked at. -/
theorem balanceParts_isProgram (k : Keeper) (a : Address) :
    IsProgram k.config.scope fun _ L => k.balanceParts L a := by
  have hparts : ∀ (σ : Type) (L : Ledger σ), k.balanceParts L a = (do
      let cosmos ← Ledger.ask (L.spendableAmount · a k.config.cosmosDenom)
      let evm ← Ledger.ask (L.spendableAmount · a k.config.evmDenom)
      pure ⟨cosmos, evm⟩) := by
    intro σ L
    simp only [Ledger.spendableAmount, Ledger.ask_map, bind_assoc, pure_bind, Ledger.ask_bind_ask]
    rfl
  simp only [hparts]
  exact (Ledger.spendableAmount_isProgram a (.inr rfl)).bind fun _ =>
    (Ledger.spendableAmount_isProgram a (.inl rfl)).bind fun _ => isProgram_pure _

theorem balance_isProgram (k : Keeper) (a : Address) (d : Denom) :
    IsProgram k.config.scope fun _ L => k.balance L a d :=
  .ite (fun _ => (balanceParts_isProgram k a).bind fun _ =>
    (isProgram_ofExcept (own_mapError fun _ => rfl)).bind fun _ => isProgram_pure _)
    fun _ => isProgram_fail rfl

/-- A request of the keeper is one program on all ledgers, and looks at nothing but the two
denoms unless its question is the ledger's own. -/
theorem perform_isProgram (k : Keeper) (q : KeeperRequest) :
    IsProgram (k.config.scope.passing q.passesOn) fun _ L => k.perform L q := by
  cases q with
  | balance a d =>
    exact .passing ((balance_isProgram k a d).bind fun _ => isProgram_pure _) _
  | balanceParts a =>
    exact .passing ((balanceParts_isProgram k a).bind fun _ => isProgram_pure _) _
  | spendableCoins a =>
    exact (isProgram_ask (Scope.passing_asks _ (.spendableCoins a))).bind fun _ => isProgram_pure _
  | checkSendEnabled cs =>
    exact (isProgram_ask (Scope.passing_asks _ (.checkSendEnabled cs))).thenDone
  | mintCoins name cs | burnCoins name cs =>
    exact .passing (legs_isProgram k cs fun _ => rfl).thenDone _
  | accountToModule a name cs => exact .passing (accountToModule_isProgram k a name cs).thenDone _
  | moduleToAccount name a cs => exact .passing (moduleToAccount_isProgram k name a cs).thenDone _
  | sendCoins source target cs => exact .passing (sendCoins_isProgram k source target cs).thenDone _
  | sweep hd =>
    exact .passing ((Ledger.sweepDust_isProgram _ hd).bind fun _ => isProgram_pure _) _
  | config => exact isProgram_pure _

end Keeper

end DualDenom
