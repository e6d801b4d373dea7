import DualDenom.Proofs.Backing
import DualDenom.Proofs.Failures
import DualDenom.Proofs.KeeperLaws
import DualDenom.Proofs.SessionBooks

/-!
# Balances and supply

A book is in balance when all addresses together have what was issued, of every
denom. Balances and supply are written one after the other, so a change that
overflows between the two puts a book out of balance. In a book in balance only
coins that are made can overflow (`Balanced.submit_overflowed`). So in a session
where all coins that were made fitted, the book and its copies are in balance
after every step, nothing is ever rolled back for that, and no transfer and no
burn overflows (`play_balanced`).
-/

namespace DualDenom

open DualDenom.Action Figures

def LedgerError.isOverflow : LedgerError → Bool
  | .overflow _ => true
  | _ => false

theorem LedgerError.isOverflow_of_isSetting {e : LedgerError} (h : e.isSetting = true) :
    e.isOverflow = false := by
  cases e <;> first | rfl | cases h

def overflowed (x : Except LedgerError α) : Bool := (failure? x).any LedgerError.isOverflow

-- ---------------------------------------------------------------------------
-- One coin
-- ---------------------------------------------------------------------------

namespace Book

variable {b b' : Book} {m : Movement} {cl : Call} {cs : Coins}

def Balanced (b : Book) : Prop := ∀ d, (b.sheet d).total = (b.supply d).val

theorem balanced_iff : b.Balanced ↔ ∀ d, ∑ᶠ a, (b.balance a d).val = (b.supply d).val := by
  simp only [finsum_balance, Balanced]

theorem Balanced.posted (hb : b.Balanced) (hp : b.Posted f b') (hf : ∀ d, f.held d = f.supply d) :
    b'.Balanced := by
  intro d
  have hheld := hp.held d
  have hsup := hp.supply d
  have htotal := hb d
  rw [hf d] at hheld
  omega

def balancing : Course LedgerError Book where
  Goes b e b' := e.any LedgerError.isOverflow = false → b.Balanced → b'.Balanced
  stays _ hb := hb
  follows h h' he hb := h' he (h rfl hb)

theorem carryCoin_takes_balancing (m : Movement) (c : Coin) : (m.carryCoin c).Takes balancing := by
  intro b x b' h ho hb
  cases x with
  | ok u => exact hb.posted (Movement.carryCoin_posted h) (m.held_coinFigures c)
  | error e =>
    rcases Movement.carryCoin_error h with rfl | ⟨-, o, rfl⟩
    · exact hb
    · cases ho

theorem submit_takes_balancing (cl : Call) : (submit cl).Takes balancing :=
  submit_takes fun _ m _ c _ => carryCoin_takes_balancing m c

theorem fund_takes_balancing (a : Address) (cs : Coins) : (fund a cs).Takes balancing :=
  Movement.carryOut_takes (m := .create a) fun c _ => carryCoin_takes_balancing _ c

-- ---------------------------------------------------------------------------
-- No overflow but of coins that are made
-- ---------------------------------------------------------------------------

theorem Balanced.carryCoin_succeeds (hb : b.Balanced) (hm : m.source? = some a)
    (hs : c.amount.val ≤ (b.spendable a c.denom).val) :
    ∃ b', (m.carryCoin c).Gives b (.ok ()) b' := by
  have htotal := hb c.denom
  cases m <;> cases hm
  · exact Movement.transfer_succeeds hs (htotal ▸ (b.supply c.denom).isLt)
  · have hsp : (b.spendable a c.denom).val ≤ (b.balance a c.denom).val := Nat.sub_le ..
    have hbal : (b.balance a c.denom).val ≤ (b.sheet c.denom).total := Sheet.balance_le_total ..
    exact Movement.destroy_succeeds hs (by omega)

theorem Balanced.carryCoin_error (hb : b.Balanced) (hm : m.source? = some a)
    (h : (m.carryCoin c).Gives b (.error e) b') : e.isOverflow = false := by
  by_cases hs : c.amount.val ≤ (b.spendable a c.denom).val
  · obtain ⟨b₁, h₁⟩ := hb.carryCoin_succeeds hm hs
    cases (h.unique h₁).1
  · cases (h.unique (Movement.carryCoin_fails hm (Nat.not_le.mp hs))).1
    rfl

theorem Balanced.forM_error (hb : b.Balanced) (hm : m.source? = some a)
    (h : (cs.forM m.carryCoin).Gives b (.error e) b') : e.isOverflow = false := by
  obtain ⟨before, c, after, r, rfl, hbefore, hc⟩ := gives_forM_error.mp h
  have hr := hb.posted (Movement.forM_carryCoin_posted hbefore) (m.held_figures before)
  exact hr.carryCoin_error hm hc

theorem Balanced.submit_overflowed (hb : b.Balanced) (hmint : cl.isMint = false)
    (h : (submit cl).Gives b x b') : overflowed x = false := by
  cases x with
  | ok u => rfl
  | error e =>
    rw [submit_eq] at h
    rcases gives_bind_error.mp h with hq | ⟨m, r, hq, hc⟩
    · exact LedgerError.isOverflow_of_isSetting (movement_error (gives_query.mp hq).1)
    obtain ⟨hm, rfl⟩ := gives_query.mp hq
    obtain ⟨a, ha⟩ : ∃ a, m.source? = some a := by
      have hcreates := creates_of_movement hm
      rw [hmint] at hcreates
      cases m with
      | transfer x y => exact ⟨x, rfl⟩
      | create x => cases hcreates
      | destroy x => exact ⟨x, rfl⟩
    rw [Movement.carryOut_eq] at hc
    rcases gives_bind_error.mp hc with hk | ⟨_, _, hk, hcs⟩
    · obtain ⟨_, -, rfl⟩ := mapError_error.mp (gives_ofExcept.mp hk).1
      rfl
    · obtain ⟨-, rfl⟩ := gives_ofExcept.mp hk
      exact hb.forM_error ha hcs

-- ---------------------------------------------------------------------------
-- Administration
-- ---------------------------------------------------------------------------

theorem balanced_empty : empty.Balanced := fun _ => rfl

theorem Balanced.setSheet (hb : b.Balanced) {s : Sheet} (hs : s.total = s.supply.val) (d : Denom) :
    (b.setSheet d s).Balanced := by
  intro e
  rw [supply, sheet_setSheet]
  split
  · exact hs
  · exact hb e

theorem Balanced.lock (hb : b.Balanced) (a : Address) (c : Coin) : (b.lock a c).Balanced :=
  hb.setSheet (s := (b.sheet c.denom).lock a c.amount) (hb c.denom) c.denom

theorem Balanced.disableSend (hb : b.Balanced) (d : Denom) : (b.disableSend d).Balanced :=
  hb.setSheet (s := (b.sheet d).disableSend) (hb d) d

theorem balanced_administered : Administered Balanced where
  addModule _ _ hb := hb
  lock a c hb := hb.lock a c
  block _ hb := hb
  disableSend d hb := hb.disableSend d

end Book

-- ---------------------------------------------------------------------------
-- Dealings
-- ---------------------------------------------------------------------------

inductive Dealing
  | call (entry : Answered)
  | fund (address : Address) (coins : Coins) (answer : Except LedgerError Unit)

namespace Dealing

def answer : Dealing → Except LedgerError Unit
  | .call entry => entry.answer
  | .fund _ _ answer => answer

def creates : Dealing → Bool
  | .call entry => entry.call.isMint
  | .fund .. => true

def overflows (e : Dealing) : Bool := overflowed e.answer

variable {P Q R : Prop} {es es' : List Dealing}

/-- As far as coins that were made fitted, nothing overflowed and `P` leads to `Q`. -/
def Lead (P : Prop) (es : List Dealing) (Q : Prop) : Prop :=
  (∀ e ∈ es, e.creates = true → e.overflows = false) → P → Q ∧ ∀ e ∈ es, e.overflows = false

theorem lead_nil (h : P → Q) : Lead P [] Q := fun _ hp => ⟨h hp, nofun⟩

theorem Lead.append (h : Lead P es Q) (h' : Lead Q es' R) : Lead P (es ++ es') R := by
  intro hes hp
  obtain ⟨hq, hno⟩ := h (fun e he => hes e (List.mem_append_left _ he)) hp
  obtain ⟨hr, hno'⟩ := h' (fun e he => hes e (List.mem_append_right _ he)) hq
  exact ⟨hr, fun e he => (List.mem_append.mp he).elim (hno e) (hno' e)⟩

theorem lead_singleton {e : Dealing} (hcreates : e.creates = false → P → e.overflows = false)
    (h : e.overflows = false → P → Q) : Lead P [e] Q := by
  intro hes hp
  have he : e.overflows = false := by
    cases hc : e.creates
    · exact hcreates hc hp
    · exact hes e List.mem_cons_self hc
  exact ⟨h he hp, fun e' he' => by rwa [List.mem_singleton.mp he']⟩

end Dealing

open Dealing (Lead lead_nil lead_singleton)

/-- The calls on record since then lead from balance to balance. -/
def auditing : Course ε (Audited World) := .always
  (fun r r' => ∃ es, r'.log = r.log ++ es ∧
    Lead r.ledger.ledger.ledger.Balanced (es.map .call) r'.ledger.ledger.ledger.Balanced)
  (fun r => ⟨[], (List.append_nil _).symm, lead_nil id⟩)
  (by
    rintro r₁ r₂ r₃ ⟨es, hlog, h⟩ ⟨es', hlog', h'⟩
    refine ⟨es ++ es', by rw [hlog', hlog, List.append_assoc], ?_⟩
    rw [List.map_append]
    exact h.append h')

theorem submit_takes_auditing (cl : Call) :
    (worldLedger.audited.submit cl).Takes (auditing (ε := LedgerError)) := by
  intro r x r' h
  obtain ⟨hcl, hlog⟩ := Ledger.audited_submit.mp h
  refine ⟨[⟨cl, x⟩], hlog, ?_⟩
  rcases Ledger.staged_submit hcl with hcl | ⟨⟨reason, rfl⟩, ht⟩
  · have hb := Book.mirrors_recorded.submit hcl
    exact lead_singleton (fun hm hbal => hbal.submit_overflowed hm hb)
      fun ho hbal => Book.submit_takes_balancing cl hb ho hbal
  · rw [ht]
    exact lead_singleton (fun _ _ => rfl) fun _ hbal => hbal

theorem call_takes_auditing (cl : Call) :
    (worldLedger.audited.call cl).Takes (auditing (ε := BridgeError)) :=
  takes_mapError.mpr fun _ _ _ h => submit_takes_auditing cl h

namespace Session

-- ---------------------------------------------------------------------------
-- One request
-- ---------------------------------------------------------------------------

def callsOf (s : Session) (m : Action ε (Audited World) Reply) : List Dealing :=
  (m.run (.start s.world)).state.log.map .call

def dealings (k : Keeper) (s : Session) : Request → List Dealing
  | .keeper q => s.callsOf (k.perform worldLedger.audited q)
  | .conversion c q => s.callsOf (worldLedger.audited.performConversion (c.getD k.config) q)
  | .ledger q => s.callsOf (worldLedger.audited.perform q)
  | .book (.fund a cs) => [.fund a cs ((Book.fund a cs).run s.book).answer]
  | _ => []

variable {s s' : Session} {k : Keeper}

theorem onWorld_leads {m' : Action ε (Audited World) Reply} {m : Action ε World Reply}
    (hm : Shadows (·.ledger) m' m) (h : m'.Takes auditing) :
    Lead (s.Throughout Book.Balanced) (s.callsOf m')
      ((s.setWorld (m.run s.world).state).Throughout Book.Balanced) := by
  obtain ⟨es, hlog, hes⟩ := h (gives_run m' (.start s.world))
  have hstate : (m.run s.world).state = (m'.run (.start s.world)).state.ledger :=
    (hm.gives (gives_run m' (.start s.world))).2
  rw [callsOf, hlog, hstate]
  intro hno hs
  obtain ⟨hb, ho⟩ := hes hno hs.book
  exact ⟨⟨hb, hs.slots⟩, ho⟩

theorem performBook_leads (q : BookRequest) :
    Lead (s.Throughout Book.Balanced) (s.dealings k (.book q))
      (((performBook k q).run s).state.Throughout Book.Balanced) := by
  cases q with
  | fund a cs =>
    rw [fund_state]
    exact lead_singleton nofun fun ho hs =>
      hs.setBook (Book.fund_takes_balancing a cs (gives_run ..) ho hs.book)
  | _ => exact lead_nil fun hs => performBook_throughout Book.balanced_administered hs nofun

theorem perform_leads (q : Request) :
    Lead (s.Throughout Book.Balanced) (s.dealings k q)
      (((perform k q).run s).state.Throughout Book.Balanced) := by
  have hL := worldLedger.audited_shadows
  cases q with
  | keeper q =>
    exact onWorld_leads (hL.perform k q) (Keeper.perform_takes_of_calls call_takes_auditing q)
  | conversion c q =>
    exact onWorld_leads (hL.performConversion _ q)
      (Ledger.performConversion_takes call_takes_auditing q)
  | ledger q =>
    exact onWorld_leads (hL.performDirect q) (Ledger.perform_takes submit_takes_auditing q)
  | book q => exact performBook_leads q
  | stage q => cases q <;> exact lead_nil fun hs => ⟨hs.book, hs.slots⟩

-- ---------------------------------------------------------------------------
-- Runs
-- ---------------------------------------------------------------------------

def history (w : Watch) : List Step → Session → List Dealing
  | [], _ => []
  | step :: rest, s => s.dealings s.keeper step.request ++ history w rest (s.take w step).2

theorem take_leads (w : Watch) (s : Session) (step : Step) :
    Lead (s.Throughout Book.Balanced) (s.dealings s.keeper step.request)
      ((s.take w step).2.Throughout Book.Balanced) := by
  intro hno hs
  obtain ⟨ho, hes⟩ := perform_leads (k := s.keeper) step.request hno hs
  exact ⟨hs.settle ho step, hes⟩

theorem play_leads (w : Watch) (steps : List Step) (s : Session) :
    Lead (s.Throughout Book.Balanced) (history w steps s)
      (∀ pre, pre <+: steps → (play w pre s).2.Throughout Book.Balanced) := by
  induction steps generalizing s with
  | nil =>
    refine lead_nil fun hs pre hpre => ?_
    rw [List.prefix_nil.mp hpre]
    exact hs
  | cons step rest ih =>
    intro hno hs
    obtain ⟨hrun, ho⟩ := (take_leads w s step).append (ih _) hno hs
    refine ⟨fun pre hpre => ?_, ho⟩
    cases pre with
    | nil => exact hs
    | cons first pre =>
      obtain ⟨rfl, hrest⟩ := List.cons_prefix_cons.mp hpre
      exact hrun pre hrest

/-- Where no coins that were made overflowed, all addresses together have what was issued at
every moment of a run, and nothing overflowed. -/
theorem play_balanced (k : Keeper) (modules : List (ModuleName × List Permission)) (w : Watch)
    (steps : List Step)
    (h : ∀ e ∈ history w steps (start k modules), e.creates = true → e.overflows = false) :
    (∀ pre, pre <+: steps → ∀ d, ∑ᶠ a, ((play w pre (start k modules)).2.book.balance a d).val =
      ((play w pre (start k modules)).2.book.supply d).val) ∧
    ∀ e ∈ history w steps (start k modules), e.overflows = false := by
  obtain ⟨hrun, ho⟩ := play_leads w steps (start k modules) h
    (start_throughout Book.balanced_administered Book.balanced_empty k modules)
  exact ⟨fun pre hpre => Book.balanced_iff.mp (hrun pre hpre).book, ho⟩

def smallSteps : List Step :=
  let evm (n : Nat) : Coins := [Config.standard.evmCoin (.clamp n)]
  [⟨.book (.fund "alice" [⟨"orai", .clamp 7⟩]), false⟩,
    ⟨.book (.lock "alice" ⟨"orai", .clamp 1⟩), false⟩,
    ⟨.keeper (.accountToModule "alice" "fee" (evm 2500000000007)), false⟩,
    ⟨.book (.snapshot "before"), false⟩,
    ⟨.keeper (.burnCoins "evm" (evm 1000000000001)), false⟩,
    ⟨.stage (.refuse ⟨3, "down"⟩), false⟩,
    ⟨.conversion none (.convert (.account "alice") .one .cosmosToEvm), false⟩,
    ⟨.ledger (.call (.send "alice" "bob" [⟨"aorai", .one⟩, ⟨"orai", .clamp 9⟩])), false⟩,
    ⟨.keeper (.mintCoins "evm" (evm 3000000000002)), true⟩,
    ⟨.book (.restore "before"), false⟩]

theorem play_balanced_small :
    let s := start Keeper.standard [("evm", [.minter, .burner]), ("fee", [])]
    (history ⟨[], []⟩ smallSteps s).length = 14 ∧
      (∀ d, ∑ᶠ a, ((play ⟨[], []⟩ smallSteps s).2.book.balance a d).val =
        ((play ⟨[], []⟩ smallSteps s).2.book.supply d).val) ∧
      ∀ e ∈ history ⟨[], []⟩ smallSteps s, e.overflows = false := by
  intro s
  have h : ∀ e ∈ history ⟨[], []⟩ smallSteps s, e.creates = true → e.overflows = false := by
    have hall :
        ((history ⟨[], []⟩ smallSteps s).all fun e => !e.creates || !e.overflows) = true := by
      decide +kernel
    intro e he hc
    simpa [hc] using List.all_eq_true.mp hall e he
  obtain ⟨hrun, ho⟩ := play_balanced Keeper.standard _ ⟨[], []⟩ smallSteps h
  exact ⟨by decide +kernel, hrun _ List.prefix_rfl, ho⟩

end Session

end DualDenom
