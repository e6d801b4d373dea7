import DualDenom.Proofs.Audit
import DualDenom.Proofs.Courses
import DualDenom.Proofs.Failures
import DualDenom.Proofs.KeeperLaws
import Mathlib.Data.List.Find

/-!
# Foreign denoms

Books that differ in other denoms than the two of the bridge are the same to it.
An operation asks for amounts of the two and calls with coins of the two, and on
books that agree on those every question and every call comes to the same
(`submit_respects`). So do the operations, failed ones included, and what a book
keeps of another denom stays as it was (`perform_foreign`).
-/

namespace DualDenom

open DualDenom.Action

-- ---------------------------------------------------------------------------
-- Two runs of an action
-- ---------------------------------------------------------------------------

namespace Action

variable {R : σ → σ → Prop}

/-- From related states the action answers the same, reports the same and leaves related
states. -/
def Respects (m : Action ε σ α) (R : σ → σ → Prop) : Prop :=
  ∀ ⦃s t⦄, R s t → (m.run s).answer = (m.run t).answer ∧ (m.run s).events = (m.run t).events ∧
    R (m.run s).state (m.run t).state

theorem respects_pure : (pure a : Action ε σ α).Respects R := fun _ _ h => ⟨rfl, rfl, h⟩

theorem respects_ofExcept {x : Except ε α} : (ofExcept x : Action ε σ α).Respects R :=
  fun _ _ h => ⟨rfl, rfl, h⟩

theorem respects_report : (report e : Action ε σ Unit).Respects R := fun _ _ h => ⟨rfl, rfl, h⟩

theorem respects_query {f : σ → Except ε α} (hf : ∀ ⦃s t⦄, R s t → f s = f t) :
    (query f).Respects R := fun _ _ h => ⟨hf h, rfl, h⟩

theorem Respects.mapError {m : Action ε σ α} (hm : m.Respects R) (f : ε → ε') :
    (m.mapError f).Respects R := by
  intro s t h
  obtain ⟨hanswer, hevents, hstate⟩ := hm h
  exact ⟨congrArg (Except.mapError f) hanswer, hevents, hstate⟩

theorem Respects.bind {m : Action ε σ α} {f : α → Action ε σ β} (hm : m.Respects R)
    (hf : ∀ a, (f a).Respects R) : (m >>= f).Respects R := by
  intro s t h
  have hst := hm h
  rw [run_bind, run_bind]
  revert hst
  rcases m.run s with ⟨x, s', es⟩
  rcases m.run t with ⟨y, t', fs⟩
  rintro ⟨rfl : x = y, rfl : es = fs, hstate⟩
  cases x with
  | error e => exact ⟨rfl, rfl, hstate⟩
  | ok a =>
    obtain ⟨hanswer, hevents, hstate⟩ := hf a hstate
    exact ⟨hanswer, congrArg (es ++ ·) hevents, hstate⟩

theorem respects_forM {f : β → Action ε σ PUnit} {bs : List β} (h : ∀ b ∈ bs, (f b).Respects R) :
    (bs.forM f).Respects R := by
  induction bs with
  | nil => exact respects_pure
  | cons b bs ih =>
    exact (h b List.mem_cons_self).bind fun _ => ih fun b' hb => h b' (List.mem_cons_of_mem _ hb)

end Action

theorem IsProgram.respects {m : (σ : Type) → Ledger σ → Bridge σ α} (hm : IsProgram S m)
    {L : Ledger σ} {R : σ → σ → Prop}
    (hask : ∀ q, S.asks q → ∀ ⦃s t⦄, R s t → L.answer s q = L.answer t q)
    (hcall : ∀ cl, S.calls cl → (L.submit cl).Respects R) : (m σ L).Respects R := by
  obtain ⟨p, hp, hpm⟩ := hm
  rw [hpm]
  clear hpm
  induction p with
  | done x => exact respects_ofExcept
  | report e next ih => exact respects_report.bind fun _ => ih hp
  | ask q next ih => exact ((respects_query (hask q hp.1)).mapError _).bind fun x => ih x (hp.2 x)
  | call cl next ih => exact ((hcall cl hp.1).mapError _).bind fun _ => ih hp.2

-- ---------------------------------------------------------------------------
-- Sheets
-- ---------------------------------------------------------------------------

namespace Sheet

structure Alike (s t : Sheet) : Prop where
  balance : ∀ a, t.balance a = s.balance a
  locked : ∀ a, t.locked a = s.locked a
  supply : t.supply = s.supply
  sendDisabled : t.sendDisabled = s.sendDisabled

variable {s t : Sheet}

theorem Alike.refl (s : Sheet) : s.Alike s := ⟨fun _ => rfl, fun _ => rfl, rfl, rfl⟩

theorem Alike.spendable (h : s.Alike t) (a : Address) : t.spendable a = s.spendable a := by
  rw [Sheet.spendable, Sheet.spendable, h.balance, h.locked]

theorem Alike.writes {s' t' : Sheet} {n : Amount} (h : s.Alike t) (hs : s.Writes a n s')
    (ht : t.Writes a n t') : s'.Alike t' where
  balance x := by rw [hs.balance, ht.balance, h.balance]
  locked x := by rw [hs.locked, ht.locked, h.locked]
  supply := by rw [hs.supply, ht.supply, h.supply]
  sendDisabled := by rw [hs.sendDisabled, ht.sendDisabled, h.sendDisabled]

theorem Alike.setSupply (h : s.Alike t) (n : Amount) :
    Alike { s with supply := n } { t with supply := n } where
  balance := h.balance
  locked := h.locked
  supply := rfl
  sendDisabled := h.sendDisabled

/-- Sheets that are alike are turned into such, or refused for the same reason. -/
def Uniform (f : Sheet → Except LedgerError Sheet) : Prop :=
  ∀ ⦃s t⦄, s.Alike t →
    (∃ e, f s = .error e ∧ f t = .error e) ∨ ∃ s' t', f s = .ok s' ∧ f t = .ok t' ∧ s'.Alike t'

theorem uniform_overflow {x : Sheet → Except Overflow Amount} {f : Sheet → Amount → Sheet}
    (hx : ∀ ⦃s t⦄, s.Alike t → x t = x s) (hf : ∀ ⦃s t⦄, s.Alike t → ∀ n, (f s n).Alike (f t n)) :
    Uniform fun s => ((x s).map (f s)).mapError .overflow := by
  intro s t h
  beta_reduce
  rw [hx h]
  cases x s with
  | error o => exact .inl ⟨_, rfl, rfl⟩
  | ok n => exact .inr ⟨_, _, rfl, rfl, hf h n⟩

theorem uniform_credit (a : Address) (n : Amount) :
    Uniform fun s => (s.credit a n).mapError .overflow :=
  uniform_overflow (fun s t h => by rw [h.balance]) fun s t h m =>
    h.writes (s.writes_setBalance a m) (t.writes_setBalance a m)

theorem uniform_debit (a : Address) (d : Denom) (n : Amount) : Uniform fun s =>
    match s.debit? a n with
    | some t => .ok t
    | none => .error (.insufficientFunds a d (s.spendable a) n) := by
  intro s t h
  simp only [debit?, h.spendable, h.balance]
  by_cases hle : n ≤ s.spendable a
  · simp only [if_pos hle]
    exact .inr ⟨_, _, rfl, rfl, h.writes (s.writes_leaveBalance a _) (t.writes_leaveBalance a _)⟩
  · simp only [if_neg hle]
    exact .inl ⟨_, rfl, rfl⟩

theorem uniform_issue (n : Amount) : Uniform fun s => (s.issue n).mapError .overflow :=
  uniform_overflow (fun s t h => by rw [h.supply]) fun s t h m => h.setSupply m

theorem uniform_retire (n : Amount) : Uniform fun s => (s.retire n).mapError .overflow :=
  uniform_overflow (fun s t h => by rw [h.supply]) fun s t h m => h.setSupply m

end Sheet

-- ---------------------------------------------------------------------------
-- Books
-- ---------------------------------------------------------------------------

namespace Book

/-- The books agree on their modules, on who is blocked and on all that they say of some
denoms. -/
structure AgreesOn (D : Denom → Prop) (b b' : Book) : Prop where
  moduleAccount : ∀ name, b'.moduleAccount name = b.moduleAccount name
  blocked : ∀ a, b'.blocked.contains a = b.blocked.contains a
  sheet : ∀ d, D d → (b.sheet d).Alike (b'.sheet d)

variable {D : Denom → Prop} {b b' : Book} {c : Coin} {cl : Call}

theorem AgreesOn.setSheet (h : b.AgreesOn D b') {s t : Sheet} (hst : s.Alike t) (d : Denom) :
    (b.setSheet d s).AgreesOn D (b'.setSheet d t) where
  moduleAccount := h.moduleAccount
  blocked := h.blocked
  sheet e he := by
    rw [sheet_setSheet, sheet_setSheet]
    split_ifs
    · exact hst
    · exact h.sheet e he

theorem agreesOn_setSheet (b : Book) (s : Sheet) (hd : ¬D d) : b.AgreesOn D (b.setSheet d s) where
  moduleAccount _ := rfl
  blocked _ := rfl
  sheet e he := by
    have hne : e ≠ d := fun h => hd (h ▸ he)
    rw [sheet_setSheet, if_neg hne]
    exact .refl _

theorem AgreesOn.checkSendEnabled (h : b.AgreesOn D b') {cs : Coins}
    (hcs : ∀ coin ∈ cs, D coin.denom) : b'.checkSendEnabled cs = b.checkSendEnabled cs := by
  have hfind : (cs.find? fun c => (b'.sheet c.denom).sendDisabled) =
      cs.find? fun c => (b.sheet c.denom).sendDisabled :=
    List.find?_congr fun coin hmem => (h.sheet _ (hcs coin hmem)).sendDisabled
  rw [Book.checkSendEnabled, Book.checkSendEnabled, hfind]

theorem onSheet_respects (hd : D d) {f : Sheet → Except LedgerError Sheet}
    (hf : Sheet.Uniform f) : (onSheet d f).Respects (AgreesOn D) := by
  intro b b' h
  rcases hf (h.sheet d hd) with ⟨e, hs, ht⟩ | ⟨s, t, hs, ht, hst⟩
  · have hrun : ∀ b : Book, f (b.sheet d) = .error e → (onSheet d f).run b = ⟨.error e, b, []⟩ := by
      intro b hb
      simp only [run, onSheet, update, hb, Except.map]
    rw [hrun b hs, hrun b' ht]
    exact ⟨rfl, rfl, h⟩
  · have hrun : ∀ (b : Book) (s : Sheet), f (b.sheet d) = .ok s →
        (onSheet d f).run b = ⟨.ok (), b.setSheet d s, []⟩ := by
      intro b s hb
      simp only [run, onSheet, update, hb, Except.map]
    rw [hrun b s hs, hrun b' t ht]
    exact ⟨rfl, rfl, h.setSheet hst d⟩

theorem carryCoin_respects (m : Movement) (hc : D c.denom) :
    (m.carryCoin c).Respects (AgreesOn D) := by
  have hcredit : ∀ a, (credit a c).Respects (AgreesOn D) := fun a =>
    onSheet_respects hc (Sheet.uniform_credit a c.amount)
  have hdebit : ∀ a, (debit a c).Respects (AgreesOn D) := fun a =>
    onSheet_respects hc (Sheet.uniform_debit a c.denom c.amount)
  cases m with
  | transfer x y => exact (hdebit x).bind fun _ => hcredit y
  | create x => exact (hcredit x).bind fun _ => onSheet_respects hc (Sheet.uniform_issue c.amount)
  | destroy x => exact (hdebit x).bind fun _ => onSheet_respects hc (Sheet.uniform_retire c.amount)

theorem submit_respects (hcs : ∀ coin ∈ cl.coins, D coin.denom) :
    (submit cl).Respects (AgreesOn D) := by
  rw [submit_eq]
  refine Respects.bind (respects_query fun b b' h => ?_) fun m => ?_
  · exact (movement_eq h.moduleAccount h.blocked (h.checkSendEnabled hcs)).symm
  · rw [Movement.carryOut_eq]
    exact respects_ofExcept.bind fun _ =>
      respects_forM fun coin hmem => carryCoin_respects m (hcs coin hmem)

theorem AgreesOn.answer {k : Keeper} {q : Question} (h : b.AgreesOn k.config.Native b')
    (hq : k.config.scope.asks q) : ledger.answer b q = ledger.answer b' q := by
  cases q with
  | moduleAddress name => exact congrArg (Except.map _) (h.moduleAccount name).symm
  | spendableAmount a d =>
    exact (spendableAmount_eq b a d).trans (congrArg Except.ok ((h.sheet d hq).spendable a).symm)
      |>.trans (spendableAmount_eq b' a d).symm
  | spendableCoins a => cases hq
  | checkSendEnabled cs => cases hq

-- ---------------------------------------------------------------------------
-- Other sheets
-- ---------------------------------------------------------------------------

def sparing (D : Denom → Prop) : Course ε Book := .always
  (fun b b' => ∀ d, ¬D d → b'.sheet d = b.sheet d) (fun _ _ _ => rfl)
  fun _ _ _ h h' d hd => (h' d hd).trans (h d hd)

theorem onSheet_takes_sparing (hd : D d) (f : Sheet → Except LedgerError Sheet) :
    (onSheet d f).Takes (sparing D) := by
  intro b x b' h e he
  cases x with
  | ok u =>
    obtain ⟨s, -, rfl⟩ := onSheet_ok.mp h
    have hne : e ≠ d := fun h => he (h ▸ hd)
    rw [sheet_setSheet, if_neg hne]
  | error e => rw [(onSheet_error.mp h).2]

theorem submit_takes_sparing (hcs : ∀ coin ∈ cl.coins, D coin.denom) :
    (submit cl).Takes (sparing D) := by
  refine submit_takes fun _ m _ coin hmem => ?_
  have hcoin : ∀ f, (onSheet coin.denom f).Takes (sparing D) := onSheet_takes_sparing (hcs coin hmem)
  cases m <;> exact (hcoin _).bind fun _ => hcoin _

end Book

-- ---------------------------------------------------------------------------
-- Requests
-- ---------------------------------------------------------------------------

def Recorded.Abreast (D : Denom → Prop) (before before' : List Call) (r r' : Recorded Book) : Prop :=
  r.ledger.AgreesOn D r'.ledger ∧ ∃ calls, r.calls = before ++ calls ∧ r'.calls = before' ++ calls

theorem Recorded.submit_respects {D : Denom → Prop} (before before' : List Call)
    (hcs : ∀ coin ∈ cl.coins, D coin.denom) :
    (Book.ledger.recorded.submit cl).Respects (Abreast D before before') := by
  rintro r r' ⟨h, calls, hr, hr'⟩
  obtain ⟨hanswer, hevents, hstate⟩ := Book.submit_respects hcs h
  refine ⟨hanswer, hevents, hstate, calls ++ [cl], ?_, ?_⟩
  · exact (congrArg (· ++ [cl]) hr).trans (List.append_assoc ..)
  · exact (congrArg (· ++ [cl]) hr').trans (List.append_assoc ..)

namespace Keeper

/-- On books that agree on the two denoms a request that looks for itself comes to the same by
the same calls, whatever it comes to, and either book keeps what it says of other denoms. -/
theorem perform_foreign (k : Keeper) {q : KeeperRequest} {r r' : Recorded Book}
    (hq : q.passesOn = none)
    (h : r.ledger.AgreesOn k.config.Native r'.ledger) :
    let out := (k.perform Book.ledger.recorded q).run r
    let out' := (k.perform Book.ledger.recorded q).run r'
    out.answer = out'.answer ∧ out.events = out'.events ∧
    (∃ calls, out.state.calls = r.calls ++ calls ∧ out'.state.calls = r'.calls ++ calls) ∧
    out.state.ledger.AgreesOn k.config.Native out'.state.ledger ∧
    ∀ d, ¬k.config.Native d →
      out.state.ledger.sheet d = r.ledger.sheet d ∧ out'.state.ledger.sheet d = r'.ledger.sheet d := by
  intro out out'
  have hprogram := k.perform_isProgram q
  have hsame := hprogram.respects (L := Book.ledger.recorded)
    (R := Recorded.Abreast k.config.Native r.calls r'.calls)
    (by
      rintro x (hx | hx) s t hst
      · rw [Book.ledger.recorded_shadows.answer, Book.ledger.recorded_shadows.answer]
        exact hst.1.answer hx
      · rw [hq] at hx
        cases hx)
    fun cl hcl => Recorded.submit_respects _ _ hcl.native
  obtain ⟨hanswer, hevents, hagree, hcalls⟩ :=
    hsame (s := r) (t := r') ⟨h, [], (List.append_nil _).symm, (List.append_nil _).symm⟩
  have hspared : (k.perform Book.ledger.recorded q).Takes
      ((Book.sparing k.config.Native).of Recorded.ledger) :=
    hprogram.takes fun cl hcl => Book.mirrors_recorded.carries.call_takes
      (C := Book.sparing k.config.Native) (Book.submit_takes_sparing hcl.native)
  refine ⟨hanswer, hevents, hcalls, hagree, fun d hd => ?_⟩
  exact ⟨hspared (gives_run _ r) d hd, hspared (gives_run _ r') d hd⟩

end Keeper

theorem perform_foreign_small :
    let k := Keeper.standard
    let q : KeeperRequest := .accountToModule "alice" "fee" [⟨"aorai", .clamp 10⟩]
    let atoms := ((Sheet.empty.setBalance "alice" (.clamp 9)).lock "alice" (.clamp 4)).disableSend
    ∃ r : Recorded Book, r.ledger = Book.small ∧
      let out := (k.perform Book.ledger.recorded q).run r
      let out' := (k.perform Book.ledger.recorded q).run
        { r with ledger := r.ledger.setSheet "uatom" atoms }
      out.answer = .ok .done ∧ out.state.calls.length = 9 ∧ out'.answer = out.answer ∧
        out'.state.calls = out.state.calls ∧ out'.state.ledger.sheet "uatom" = atoms := by
  intro k q atoms
  have huatom : ¬k.config.Native "uatom" := by
    unfold Config.Native
    decide
  -- The two runs are compared from any record, so that only the first is evaluated.
  obtain ⟨r, hr, hdone, hcount⟩ : ∃ r : Recorded Book, r.ledger = Book.small ∧
      ((k.perform Book.ledger.recorded q).run r).answer = .ok .done ∧
      ((k.perform Book.ledger.recorded q).run r).state.calls.length = 9 :=
    ⟨.start _, rfl, by decide +kernel, by decide +kernel⟩
  have hagree : r.ledger.AgreesOn k.config.Native
      ({ r with ledger := r.ledger.setSheet "uatom" atoms } : Recorded Book).ledger :=
    r.ledger.agreesOn_setSheet atoms huatom
  obtain ⟨hanswer, -, ⟨calls, hcalls, hcalls'⟩, -, hrest⟩ := k.perform_foreign (q := q) rfl hagree
  refine ⟨r, hr, hdone, hcount, hanswer.symm, hcalls'.trans hcalls.symm, ?_⟩
  rw [(hrest "uatom" huatom).2, Book.sheet_setSheet, if_pos rfl]

end DualDenom
