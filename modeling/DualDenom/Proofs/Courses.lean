import DualDenom.Proofs.Carrying
import DualDenom.Proofs.Programs
import DualDenom.Proofs.SplitLaws

/-!
# Courses of actions

A course says what may become of a state under an action that succeeds or
fails: from where, with which error if any, to where. An action that was stopped
keeps what it did before, so courses join: a success goes before anything. What
every call of a ledger does every operation of the bridge does (`perform_takes`),
and what every coin does every call of a book does (`submit_takes`).
-/

namespace DualDenom

open DualDenom.Action

structure Course (ε σ : Type) where
  Goes : σ → Option ε → σ → Prop
  /-- Nothing changes, whether an error is answered or not. -/
  stays : ∀ {s e}, Goes s e s
  follows : ∀ {s t e u}, Goes s none t → Goes t e u → Goes s e u

def failure? : Except ε α → Option ε
  | .ok _ => none
  | .error e => some e

@[simp] theorem failure?_ok : failure? (.ok a : Except ε α) = none := rfl

@[simp] theorem failure?_error : failure? (.error e : Except ε α) = some e := rfl

namespace Course

def onSuccess (R : σ → σ → Prop) (hrefl : ∀ s, R s s)
    (htrans : ∀ s t u, R s t → R t u → R s u) : Course ε σ where
  Goes s e t := e = none → R s t
  stays {s _} _ := hrefl s
  follows h h' he := htrans _ _ _ (h rfl) (h' he)

def always (R : σ → σ → Prop) (hrefl : ∀ s, R s s)
    (htrans : ∀ s t u, R s t → R t u → R s u) : Course ε σ where
  Goes s _ t := R s t
  stays {s _} := hrefl s
  follows h h' := htrans _ _ _ h h'

def keeping (P : σ → Prop) : Course ε σ :=
  .always (fun s t => P s → P t) (fun _ => id) fun _ _ _ h h' => h' ∘ h

def before (C : Course ε' σ) (f : ε → ε') : Course ε σ where
  Goes s e t := C.Goes s (e.map f) t
  stays := C.stays
  follows h h' := C.follows h h'

def of (C : Course ε σ) (view : τ → σ) : Course ε τ where
  Goes s e t := C.Goes (view s) e (view t)
  stays := C.stays
  follows h h' := C.follows h h'

end Course

-- ---------------------------------------------------------------------------
-- Actions
-- ---------------------------------------------------------------------------

namespace Action

variable {C : Course ε σ}

/-- Whatever the action comes to, the course allows it. -/
def Takes (m : Action ε σ α) (C : Course ε σ) : Prop :=
  ∀ ⦃s x t⦄, m.Gives s x t → C.Goes s (failure? x) t

theorem takes_pure : (pure a : Action ε σ α).Takes C := by
  intro s x t h
  obtain ⟨rfl, rfl⟩ := gives_pure.mp h
  exact C.stays

theorem takes_query {f : σ → Except ε α} : (query f).Takes C := by
  intro s x t h
  obtain ⟨-, rfl⟩ := gives_query.mp h
  exact C.stays

theorem takes_ofExcept {x : Except ε α} : (ofExcept x : Action ε σ α).Takes C := takes_query

theorem takes_fail : (fail e : Action ε σ α).Takes C := by
  intro s x t h
  obtain ⟨-, rfl⟩ := gives_fail.mp h
  exact C.stays

theorem takes_report : (report e : Action ε σ Unit).Takes C := by
  intro s x t h
  obtain ⟨-, rfl⟩ := gives_report.mp h
  exact C.stays

theorem Takes.bind {m : Action ε σ α} {f : α → Action ε σ β} (hm : m.Takes C)
    (hf : ∀ a, (f a).Takes C) : (m >>= f).Takes C := by
  intro s x u h
  cases x with
  | ok b =>
    obtain ⟨a, t, ha, hb⟩ := gives_bind_ok.mp h
    exact C.follows (hm ha) (hf a hb)
  | error e =>
    rcases gives_bind_error.mp h with h | ⟨a, t, ha, hb⟩
    · exact hm h
    · exact C.follows (hm ha) (hf a hb)

theorem gives_bind_takes {m : Action ε σ α} {f : α → Action ε σ β} (hf : ∀ a, (f a).Takes C)
    (h : (m >>= f).Gives s x u) : ∃ y t, m.Gives s y t ∧ (∀ b, x = .ok b → ∃ a, y = .ok a) ∧
      ∃ e, C.Goes t e u := by
  rcases gives_bind.mp h with ⟨e, he, rfl⟩ | ⟨a, t, ha, hb⟩
  · exact ⟨_, u, he, nofun, none, C.stays⟩
  · exact ⟨_, t, ha, fun _ _ => ⟨a, rfl⟩, _, hf a hb⟩

theorem takes_mapError {C : Course ε' σ} {f : ε → ε'} {m : Action ε σ α} :
    (m.mapError f).Takes C ↔ m.Takes (C.before f) := by
  constructor
  · intro h s x t hx
    cases x with
    | ok a => exact h (gives_mapError_ok.mpr hx)
    | error e => exact h (gives_mapError_error.mpr ⟨e, hx, rfl⟩)
  · intro h s x t hx
    cases x with
    | ok a => exact h (gives_mapError_ok.mp hx)
    | error e =>
      obtain ⟨e₀, hx₀, rfl⟩ := gives_mapError_error.mp hx
      exact h hx₀

theorem takes_onSuccess {R : σ → σ → Prop} {hrefl : ∀ s, R s s}
    {htrans : ∀ s t u, R s t → R t u → R s u} {f : ε → ε'} {m : Action ε σ α}
    (h : ∀ ⦃s a t⦄, m.Gives s (.ok a) t → R s t) :
    m.Takes ((Course.onSuccess R hrefl htrans).before f) := by
  intro s x t hx he
  cases x with
  | ok a => exact h hx
  | error e => cases he

/-- What is computed on the way is known from there on. -/
theorem takes_ofExcept_bind {x : Except ε α} {f : α → Action ε σ β}
    (h : ∀ a, x = .ok a → (f a).Takes C) : (ofExcept x >>= f).Takes C := by
  cases x with
  | ok a => exact h a rfl
  | error e => exact takes_fail

theorem Takes.mono {C' : Course ε σ} {m : Action ε σ α} (hm : m.Takes C)
    (h : ∀ {s e t}, C.Goes s e t → C'.Goes s e t) : m.Takes C' := fun _ _ _ hx => h (hm hx)

theorem takes_forM {bs : List β} {f : β → Action ε σ PUnit} (h : ∀ b ∈ bs, (f b).Takes C) :
    (bs.forM f).Takes C := by
  induction bs with
  | nil => exact takes_pure
  | cons b bs ih =>
    exact (h b List.mem_cons_self).bind fun _ => ih fun b' hb => h b' (List.mem_cons_of_mem _ hb)

theorem takes_forM_append {bs bs' : List β} {f : β → Action ε σ PUnit} (h : (bs.forM f).Takes C)
    (h' : (bs'.forM f).Takes C) : ((bs ++ bs').forM f).Takes C := by
  have happend : (bs ++ bs').forM f = (bs.forM f >>= fun _ => bs'.forM f) := List.forM_append
  rw [happend]
  exact h.bind fun _ => h'

theorem thenDone_state (m : Action ε σ Unit) (s : σ) :
    (m.thenDone.run s).state = (m.run s).state := by
  rw [thenDone, run_bind]
  rcases m.run s with ⟨_ | _, _, _⟩ <;> rfl

theorem Takes.thenDone {m : Action ε σ Unit} (hm : m.Takes C) : m.thenDone.Takes C :=
  hm.bind fun _ => takes_pure

end Action

-- ---------------------------------------------------------------------------
-- The bridge
-- ---------------------------------------------------------------------------

/-- What every call of a scope does, every program of the scope does. -/
theorem Program.Within.on_takes {p : Program α} (hp : p.Within S) {L : Ledger σ}
    {C : Course BridgeError σ} (hL : ∀ call, S.calls call → (L.call call).Takes C) :
    (p.on L).Takes C := by
  induction p with
  | done x => exact takes_ofExcept
  | report e next ih => exact takes_report.bind fun _ => ih hp
  | ask q next ih => exact (takes_mapError.mpr takes_query).bind fun x => ih x (hp.2 x)
  | call cl next ih => exact (hL cl hp.1).bind fun _ => ih hp.2

theorem IsProgram.takes {m : (σ : Type) → Ledger σ → Bridge σ α} (hm : IsProgram S m)
    {L : Ledger σ} {C : Course BridgeError σ}
    (hL : ∀ call, S.calls call → (L.call call).Takes C) : (m σ L).Takes C := by
  obtain ⟨p, hp, hpm⟩ := hm
  rw [hpm]
  exact hp.on_takes hL

namespace Ledger

variable {L : Ledger σ} {C : Course BridgeError σ} {c : Config}

theorem ask_takes {f : σ → Except LedgerError α} : (ask f).Takes C :=
  takes_mapError.mpr takes_query

theorem spendableEvm_takes : (L.spendableEvm c hd).Takes C := ask_takes.bind fun _ => ask_takes

theorem convert_takes (h : ∀ evm : Amount, units.val ≠ 0 → evm.val = units.val * c.multiplier.val →
    ((c.route hd units evm d).forM L.call).Takes C) : (L.convert c hd units d).Takes C := by
  unfold convert
  split
  · exact takes_pure
  · rename_i hz
    refine takes_ofExcept_bind fun evm he => ?_
    have hroute := h evm (fun hu => hz (Amount.isZero_iff.mpr hu))
      (Amount.mul_eq_ok.mp (mapError_ok.mp he))
    exact hroute.bind fun _ => takes_report

theorem topUp_takes (h : ∀ units, (L.convert c hd units .cosmosToEvm).Takes C) :
    (L.topUp c hd q).Takes C := by
  unfold topUp
  split
  · exact takes_pure
  · refine spendableEvm_takes.bind fun _ => ?_
    split
    · exact takes_pure
    · exact takes_ofExcept.bind fun units => (h units).bind fun _ => takes_pure

theorem sweepDust_takes (h : ∀ units, (L.convert c hd units .evmToCosmos).Takes C) :
    (L.sweepDust c hd).Takes C := by
  refine spendableEvm_takes.bind fun _ => takes_ofExcept.bind fun units => ?_
  split
  · exact takes_pure
  · exact (h units).bind fun _ => takes_report.bind fun _ => takes_pure

theorem performConversion_takes (hL : ∀ call, (L.call call).Takes C) (q : ConversionRequest) :
    (L.performConversion c q).Takes C :=
  (performConversion_isProgram c q).takes fun call _ => hL call

theorem perform_takes {C : Course LedgerError σ} (hL : ∀ call, (L.submit call).Takes C)
    (q : LedgerRequest) : (L.perform q).Takes C := by
  cases q with
  | call call => exact (hL call).thenDone
  | checkSendEnabled cs => exact takes_query.thenDone
  | _ => exact takes_query.bind fun _ => takes_pure

end Ledger

namespace Keeper

variable {k : Keeper} {L : Ledger σ} {C : Course BridgeError σ} {f : Coins → Call}

theorem split_takes {C : Course BridgeError σ} : (k.split cs : Bridge σ Split).Takes C :=
  takes_ofExcept.bind fun _ => takes_ofExcept.bind fun _ => takes_report.bind fun _ => takes_pure

theorem callUnlessZero_takes (h : ∀ cs, (L.call (f cs)).Takes C) :
    (callUnlessZero L coin f).Takes C := by
  unfold callUnlessZero
  split
  · exact takes_pure
  · exact h _

theorem legs_takes (h : ∀ cs, (L.call (f cs)).Takes C) :
    (do let sp ← k.split cs
        callUnlessZero L (k.config.wholeCoin sp) f
        callUnlessZero L (k.config.remainderCoin sp) f : Bridge σ Unit).Takes C :=
  split_takes.bind fun _ => (callUnlessZero_takes h).bind fun _ => callUnlessZero_takes h

theorem moveSplit_takes (hconv : ∀ hd units d, (L.convert k.config hd units d).Takes C)
    (h : ∀ cs, (L.call (f cs)).Takes C) : (k.moveSplit L sp source swept f).Takes C := by
  refine (callUnlessZero_takes h).bind fun _ => ?_
  split
  · exact takes_pure
  · refine (L.topUp_takes (hconv _ · _)).bind fun _ => (h _).bind fun _ => takes_forM fun hd _ => ?_
    exact (L.sweepDust_takes (hconv _ · _)).bind fun _ => takes_pure

theorem accountToModule_takes (hconv : ∀ hd units d, (L.convert k.config hd units d).Takes C)
    (h : ∀ cs, (L.call (.accountToModule a name cs)).Takes C) :
    (k.accountToModule L a name cs).Takes C :=
  split_takes.bind fun _ => moveSplit_takes hconv h

theorem moduleToAccount_takes (hconv : ∀ hd units d, (L.convert k.config hd units d).Takes C)
    (h : ∀ cs, (L.call (.moduleToAccount name a cs)).Takes C) :
    (k.moduleToAccount L name a cs).Takes C :=
  split_takes.bind fun _ => moveSplit_takes hconv h

theorem sendCoins_takes (h : ∀ cs, (L.call (.send source target cs)).Takes C) :
    (k.sendCoins L source target cs).Takes C := by
  refine takes_ofExcept.bind fun moved => ?_
  split
  · exact takes_pure
  · exact h _

theorem balance_takes : (k.balance L a d).Takes C := by
  unfold balance
  split
  · exact (Ledger.ask_takes.bind fun _ => takes_pure).bind fun _ =>
      takes_ofExcept.bind fun _ => takes_pure
  · exact takes_fail

end Keeper

/-- The calls that a request makes besides those of conversions. -/
inductive KeeperRequest.Makes : KeeperRequest → Call → Prop
  | mint : Makes (.mintCoins name cs) (.mint name cs')
  | burn : Makes (.burnCoins name cs) (.burn name cs')
  | accountToModule : Makes (.accountToModule a name cs) (.accountToModule a name cs')
  | moduleToAccount : Makes (.moduleToAccount name a cs) (.moduleToAccount name a cs')
  | send : Makes (.sendCoins source target cs) (.send source target cs')

def KeeperRequest.isQuestion : KeeperRequest → Bool
  | .balance .. | .balanceParts _ | .spendableCoins _ | .checkSendEnabled _ | .config => true
  | _ => false

namespace Keeper

variable {k : Keeper} {L : Ledger σ} {C : Course BridgeError σ}

theorem question_takes (hq : q.isQuestion = true) : (k.perform L q).Takes C := by
  cases q with
  | balance a d => exact balance_takes.bind fun _ => takes_pure
  | balanceParts a => exact (Ledger.ask_takes.bind fun _ => takes_pure).bind fun _ => takes_pure
  | spendableCoins a => exact Ledger.ask_takes.bind fun _ => takes_pure
  | checkSendEnabled cs => exact Ledger.ask_takes.thenDone
  | config => exact takes_pure
  | _ => cases hq

/-- What conversions do and the request's own calls do, the request does. -/
theorem perform_takes (hconv : ∀ hd units d, (L.convert k.config hd units d).Takes C)
    (hown : ∀ call, q.Makes call → (L.call call).Takes C) : (k.perform L q).Takes C := by
  cases q with
  | mintCoins name cs => exact (legs_takes fun _ => hown _ .mint).thenDone
  | burnCoins name cs => exact (legs_takes fun _ => hown _ .burn).thenDone
  | accountToModule a name cs =>
    exact (accountToModule_takes hconv fun _ => hown _ .accountToModule).thenDone
  | moduleToAccount name a cs =>
    exact (moduleToAccount_takes hconv fun _ => hown _ .moduleToAccount).thenDone
  | sendCoins source target cs => exact (sendCoins_takes fun _ => hown _ .send).thenDone
  | sweep hd => exact (Ledger.sweepDust_takes (hconv _ · _)).bind fun _ => takes_pure
  | _ => exact question_takes rfl

theorem perform_takes_of_calls (hL : ∀ call, (L.call call).Takes C) (q : KeeperRequest) :
    (k.perform L q).Takes C := (k.perform_isProgram q).takes fun call _ => hL call

end Keeper

-- ---------------------------------------------------------------------------
-- Books
-- ---------------------------------------------------------------------------

namespace Movement

def creates : Movement → Bool
  | .create _ => true
  | _ => false

theorem carryCoin_takes (m : Movement) {c : Coin} {C : Course LedgerError Book}
    (hdebit : ∀ a, (Book.debit a c).Takes C) (hcredit : ∀ a, (Book.credit a c).Takes C)
    (hissue : (Book.issue c).Takes C) (hretire : (Book.retire c).Takes C) :
    (m.carryCoin c).Takes C := by
  cases m with
  | transfer x y => exact (hdebit x).bind fun _ => hcredit y
  | create x => exact (hcredit x).bind fun _ => hissue
  | destroy x => exact (hdebit x).bind fun _ => hretire

theorem carryOut_takes_checked {m : Movement} {C : Course LedgerError Book}
    (h : cs.check = .ok () → ∀ c ∈ cs, (m.carryCoin c).Takes C) : (m.carryOut cs).Takes C := by
  rw [carryOut_eq]
  cases hcs : Coins.check cs with
  | ok u => exact takes_ofExcept.bind fun _ => takes_forM (h hcs)
  | error e =>
    rw [Book.checkCoins, hcs]
    exact takes_fail

theorem carryOut_takes {m : Movement} {C : Course LedgerError Book}
    (h : ∀ c ∈ cs, (m.carryCoin c).Takes C) : (m.carryOut cs).Takes C :=
  carryOut_takes_checked fun _ => h

end Movement

namespace Book

variable {b : Book} {C : Course LedgerError Book}

theorem creates_of_movement (h : b.movement call = .ok m) : m.creates = call.isMint := by
  cases call <;> simp only [movement, bind_ok, pure_ok] at h
  case moduleToAccount | moduleToModule =>
    obtain ⟨_, -, _, -, rfl⟩ := h
    rfl
  all_goals
    obtain ⟨_, -, rfl⟩ := h
    rfl

theorem movement_transfers (h : b.movement call = .ok m) (hmint : call.isMint = false)
    (hburn : call.isBurn = false) : ∃ x y, m = .transfer x y := by
  cases call <;> simp only [movement, bind_ok, pure_ok] at h
  case mint => cases hmint
  case burn => cases hburn
  case moduleToAccount | moduleToModule =>
    obtain ⟨_, -, _, -, rfl⟩ := h
    exact ⟨_, _, rfl⟩
  all_goals
    obtain ⟨_, -, rfl⟩ := h
    exact ⟨_, _, rfl⟩

theorem submit_takes_checked (h : call.coins.check = .ok () → ∀ (b : Book) m,
    b.movement call = .ok m → ∀ c ∈ call.coins, (m.carryCoin c).Takes C) : (submit call).Takes C := by
  rw [submit_eq]
  intro s x t hx
  rcases gives_bind.mp hx with ⟨e, hq, rfl⟩ | ⟨m, r, hq, hc⟩
  · obtain ⟨-, rfl⟩ := gives_query.mp hq
    exact C.stays
  · obtain ⟨hm, rfl⟩ := gives_query.mp hq
    exact Movement.carryOut_takes_checked (fun hcs => h hcs r m hm) hc

theorem submit_takes (h : ∀ (b : Book) m, b.movement call = .ok m → ∀ c ∈ call.coins,
    (m.carryCoin c).Takes C) : (submit call).Takes C := submit_takes_checked fun _ => h

end Book

theorem Ledger.Carries.call_takes {L : Ledger σ} {book : σ → Book} {C : Course BridgeError Book}
    (hL : L.Carries book) {cl : Call} (h : (Book.submit cl).Takes (C.before .ledger)) :
    (L.call cl).Takes (C.of book) := by
  refine takes_mapError.mpr fun s x t hx => ?_
  rcases hL.submit hx with hx | ⟨-, ht⟩
  · exact h hx
  · show C.Goes (book s) _ (book t)
    rw [ht]
    exact C.stays

end DualDenom
