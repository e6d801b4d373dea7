import DualDenom.Ledger.Staged
import DualDenom.Proofs.Carrying
import DualDenom.Proofs.Programs

/-!
# Audited ledgers

An audited ledger notes each call together with what was answered to it, the
oldest first. That is all it adds: an operation on it answers, reports and
leaves the same as on the ledger itself (`Shadows.on`), so that its log
tells which calls the operation makes. Staging and auditing a ledger that
carries a book leaves one that does.
-/

namespace DualDenom

open DualDenom.Action

structure Answered where
  call : Call
  answer : Except LedgerError Unit

structure Audited (σ : Type) where
  ledger : σ
  log : List Answered

namespace Audited

def start (s : σ) : Audited σ := ⟨s, []⟩

def note (call : Call) (out : Outcome LedgerError σ Unit) (r : Audited σ) : Audited σ where
  ledger := out.state
  log := r.log ++ [⟨call, out.answer⟩]

end Audited

def Ledger.audited (L : Ledger σ) : Ledger (Audited σ) where
  spendableCoins r := L.spendableCoins r.ledger
  checkSendEnabled r := L.checkSendEnabled r.ledger
  moduleAddress r := L.moduleAddress r.ledger
  submit call := fun r =>
    let out := (L.submit call).run r.ledger
    { out with state := r.note call out }

namespace Ledger

variable {L : Ledger σ} {book : σ → Book} {cl : Call}

theorem audited_submit {r r' : Audited σ} : (L.audited.submit cl).Gives r x r' ↔
    (L.submit cl).Gives r.ledger x r'.ledger ∧ r'.log = r.log ++ [⟨cl, x⟩] := by
  constructor
  · rintro ⟨rfl, rfl⟩
    exact ⟨gives_run .., rfl⟩
  · rintro ⟨⟨rfl, hr⟩, hlog⟩
    cases r'
    subst hr hlog
    exact ⟨rfl, rfl⟩

theorem staged_submit {t t' : Staged σ} (h : (L.staged.submit cl).Gives t x t') :
    (L.submit cl).Gives t.ledger x t'.ledger ∨
      (∃ reason, x = .error (.rejected reason)) ∧ t'.ledger = t.ledger := by
  obtain ⟨rfl, rfl⟩ := h
  have hledger : t.admit?.2.ledger = t.ledger := by
    unfold Staged.admit?
    split
    · rfl
    · split <;> rfl
  simp only [staged, run]
  split
  · rename_i reason u hu
    rw [hu] at hledger
    exact .inr ⟨⟨reason, rfl⟩, hledger⟩
  · rename_i u hu
    rw [hu] at hledger
    rw [← hledger]
    exact .inl (gives_run ..)

theorem Carries.staged (hL : L.Carries book) : L.staged.Carries fun t => book t.ledger where
  submit h := by
    rcases staged_submit h with h | ⟨⟨reason, rfl⟩, ht⟩
    · exact hL.submit h
    · exact .inr ⟨⟨_, rfl⟩, congrArg book ht⟩

theorem Carries.audited (hL : L.Carries book) : L.audited.Carries fun r => book r.ledger where
  submit h := hL.submit (audited_submit.mp h).1

end Ledger

def Outcome.seen (view : τ → σ) (out : Outcome ε τ α) : Outcome ε σ α where
  answer := out.answer
  state := view out.state
  events := out.events

namespace Action

variable {view : τ → σ}

/-- Seen through `view` the one action is the other. -/
structure Shadows (view : τ → σ) (m' : Action ε τ α) (m : Action ε σ α) : Prop where
  run : ∀ r, (m'.run r).seen view = m.run (view r)

theorem Shadows.gives {m' : Action ε τ α} {m : Action ε σ α} (h : Shadows view m' m)
    (hm : m'.Gives r x r') : m.Gives (view r) x (view r') := by
  obtain ⟨rfl, rfl⟩ := hm
  rw [Gives, ← h.run r]
  exact ⟨rfl, rfl⟩

theorem Shadows.lift {m' : Action ε τ α} {m : Action ε σ α} (h : Shadows view m' m)
    (hm : m.Gives (view r) x t) : ∃ r', m'.Gives r x r' ∧ view r' = t := by
  have hrun := gives_run m' r
  obtain ⟨rfl, rfl⟩ := hm.unique (h.gives hrun)
  exact ⟨_, hrun, rfl⟩

theorem shadows_pure : Shadows view (pure a : Action ε τ α) (pure a) := ⟨fun _ => rfl⟩

theorem shadows_query {f' : τ → Except ε α} {f : σ → Except ε α} (h : ∀ r, f' r = f (view r)) :
    Shadows view (query f') (query f) where
  run r := by simp only [run_query, Outcome.seen, h]

theorem shadows_ofExcept {x : Except ε α} : Shadows view (ofExcept x : Action ε τ α) (ofExcept x) :=
  ⟨fun _ => rfl⟩

theorem shadows_report : Shadows view (report e : Action ε τ Unit) (report e) := ⟨fun _ => rfl⟩

theorem Shadows.bind {m' : Action ε τ α} {m : Action ε σ α} {f' : α → Action ε τ β}
    {f : α → Action ε σ β} (hm : Shadows view m' m) (hf : ∀ a, Shadows view (f' a) (f a)) :
    Shadows view (m' >>= f') (m >>= f) where
  run r := by
    rw [run_bind, run_bind, ← hm.run r]
    rcases m'.run r with ⟨x, t, es⟩
    cases x with
    | error e => rfl
    | ok a =>
      simp only [Outcome.seen]
      rw [← (hf a).run t]
      rfl

theorem Shadows.mapError {m' : Action ε τ α} {m : Action ε σ α} (hm : Shadows view m' m)
    (f : ε → ε') : Shadows view (m'.mapError f) (m.mapError f) where
  run r := by
    rw [run_mapError, run_mapError, ← hm.run r]
    rfl

theorem Shadows.thenDone {m' : Action ε τ Unit} {m : Action ε σ Unit} (hm : Shadows view m' m) :
    Shadows view m'.thenDone m.thenDone := hm.bind fun _ => shadows_pure

end Action

structure Ledger.Shadows (L' : Ledger τ) (L : Ledger σ) (view : τ → σ) : Prop where
  spendableCoins : ∀ r a, L'.spendableCoins r a = L.spendableCoins (view r) a
  checkSendEnabled : ∀ r cs, L'.checkSendEnabled r cs = L.checkSendEnabled (view r) cs
  moduleAddress : ∀ r name, L'.moduleAddress r name = L.moduleAddress (view r) name
  submit : ∀ cl, Action.Shadows view (L'.submit cl) (L.submit cl)

theorem Ledger.audited_shadows (L : Ledger σ) : L.audited.Shadows L (·.ledger) :=
  ⟨fun _ _ => rfl, fun _ _ => rfl, fun _ _ => rfl, fun _ => ⟨fun _ => rfl⟩⟩

theorem Ledger.recorded_shadows (L : Ledger σ) : L.recorded.Shadows L (·.ledger) :=
  ⟨fun _ _ => rfl, fun _ _ => rfl, fun _ _ => rfl, fun _ => ⟨fun _ => rfl⟩⟩

namespace Ledger.Shadows

variable {L' : Ledger τ} {L : Ledger σ} {view : τ → σ}

theorem call (hL : L'.Shadows L view) (cl : Call) : Action.Shadows view (L'.call cl) (L.call cl) :=
  (hL.submit cl).mapError _

theorem ask {f' : τ → Except LedgerError α} {f : σ → Except LedgerError α}
    (h : ∀ r, f' r = f (view r)) : Action.Shadows view (Ledger.ask f') (Ledger.ask f) :=
  (shadows_query h).mapError _

theorem holderAddress (hL : L'.Shadows L view) (hd : Holder) (r : τ) :
    L'.holderAddress r hd = L.holderAddress (view r) hd := by
  cases hd with
  | account a => rfl
  | escrow name => exact hL.moduleAddress r name

theorem spendableAmount (hL : L'.Shadows L view) (a : Address) (d : Denom) (r : τ) :
    L'.spendableAmount r a d = L.spendableAmount (view r) a d := by
  rw [Ledger.spendableAmount, hL.spendableCoins, Ledger.spendableAmount]

theorem answer (hL : L'.Shadows L view) (r : τ) (q : Question) :
    L'.answer r q = L.answer (view r) q := by
  cases q with
  | spendableCoins a => exact hL.spendableCoins r a
  | spendableAmount a d => exact hL.spendableAmount a d r
  | checkSendEnabled cs => exact hL.checkSendEnabled r cs
  | moduleAddress name => exact hL.moduleAddress r name

theorem on (hL : L'.Shadows L view) (p : Program α) : Action.Shadows view (p.on L') (p.on L) := by
  induction p with
  | done x => exact shadows_ofExcept
  | report e next ih => exact shadows_report.bind fun _ => ih
  | ask q next ih => exact (ask (f := (L.answer · q)) (hL.answer · q)).bind ih
  | call cl next ih => exact (hL.call cl).bind fun _ => ih

theorem isProgram (hL : L'.Shadows L view) {m : (σ : Type) → Ledger σ → Bridge σ α}
    (hm : IsProgram S m) : Action.Shadows view (m τ L') (m σ L) := by
  obtain ⟨p, -, hp⟩ := hm
  rw [hp, hp]
  exact hL.on p

theorem perform (hL : L'.Shadows L view) (k : Keeper) (q : KeeperRequest) :
    Action.Shadows view (k.perform L' q) (k.perform L q) := hL.isProgram (k.perform_isProgram q)

theorem performConversion (hL : L'.Shadows L view) (c : Config) (q : ConversionRequest) :
    Action.Shadows view (L'.performConversion c q) (L.performConversion c q) :=
  hL.isProgram (Ledger.performConversion_isProgram c q)

theorem performDirect (hL : L'.Shadows L view) (q : LedgerRequest) :
    Action.Shadows view (L'.perform q) (L.perform q) := by
  cases q with
  | holderAddress hd =>
    exact (shadows_query (f := (L.holderAddress · hd)) (hL.holderAddress hd)).bind fun _ =>
      shadows_pure
  | spendableCoins a => exact (shadows_query (hL.spendableCoins · a)).bind fun _ => shadows_pure
  | spendableAmount a d =>
    exact (shadows_query (f := (L.spendableAmount · a d)) (hL.spendableAmount a d)).bind fun _ =>
      shadows_pure
  | checkSendEnabled cs => exact (shadows_query (hL.checkSendEnabled · cs)).thenDone
  | moduleAddress name => exact (shadows_query (hL.moduleAddress · name)).bind fun _ => shadows_pure
  | call cl => exact (hL.submit cl).thenDone

end Ledger.Shadows

end DualDenom
