import DualDenom.Proofs.Audit
import DualDenom.Proofs.Courses
import DualDenom.Proofs.Runs

/-!
# Traces

A traced ledger keeps its calls together with the states that they met. The
trace of an operation lists all that the operation did to the ledger, in order
(`callsMade_lead`), and all of it lies in the scope of the operation
(`callsMade_within`). What every call does to a state has been done at every
point of the trace (`Leads.always`).
-/

namespace DualDenom

open DualDenom.Action

structure Made (σ : Type) where
  call : Call
  before : σ

structure Traced (σ : Type) where
  ledger : σ
  trace : List (Made σ)

def Traced.calls (r : Traced σ) : List Call := r.trace.map (·.call)

def Traced.note (call : Call) (s : σ) (r : Traced σ) : Traced σ :=
  ⟨s, r.trace ++ [⟨call, r.ledger⟩]⟩

/-- A traced ledger notes each call with the state that it meets, the oldest first. -/
def Ledger.traced (L : Ledger σ) : Ledger (Traced σ) where
  spendableCoins r := L.spendableCoins r.ledger
  checkSendEnabled r := L.checkSendEnabled r.ledger
  moduleAddress r := L.moduleAddress r.ledger
  submit call := fun r =>
    let out := (L.submit call).run r.ledger
    { out with state := r.note call out.state }

theorem Ledger.traced_shadows (L : Ledger σ) : L.traced.Shadows L (·.ledger) :=
  ⟨fun _ _ => rfl, fun _ _ => rfl, fun _ _ => rfl, fun _ => ⟨fun _ => rfl⟩⟩

/-- The calls, one after the other and nothing else, lead from `s` to `t`. -/
def Ledger.Leads (L : Ledger σ) : σ → List (Made σ) → σ → Prop
  | s, [], t => t = s
  | s, m :: rest, t => m.before = s ∧ ∃ x u, (L.submit m.call).Gives s x u ∧ L.Leads u rest t

namespace Ledger

variable {L : Ledger σ}

theorem Leads.append (h : L.Leads s ms t) (h' : L.Leads t ms' u) : L.Leads s (ms ++ ms') u := by
  induction ms generalizing s with
  | nil => exact (show t = s from h) ▸ h'
  | cons m ms ih =>
    obtain ⟨hm, x, v, hv, hrest⟩ := h
    exact ⟨hm, x, v, hv, ih hrest⟩

theorem Leads.always {R : σ → σ → Prop} (hrefl : ∀ s, R s s)
    (htrans : ∀ s t u, R s t → R t u → R s u)
    (hL : ∀ cl ⦃s x t⦄, (L.submit cl).Gives s x t → R s t) (h : L.Leads s ms t) :
    R s t ∧ ∀ m ∈ ms, R s m.before := by
  induction ms generalizing s with
  | nil => exact ⟨(show t = s from h) ▸ hrefl s, fun _ hm => absurd hm List.not_mem_nil⟩
  | cons m ms ih =>
    obtain ⟨rfl, x, u, hu, hrest⟩ := h
    obtain ⟨ht, hms⟩ := ih hrest
    have hfirst := hL m.call hu
    refine ⟨htrans _ _ _ hfirst ht, fun m' hm' => ?_⟩
    rcases List.mem_cons.mp hm' with rfl | hm'
    · exact hrefl _
    · exact htrans _ _ _ hfirst (hms m' hm')

def tracing (L : Ledger σ) : Course ε (Traced σ) := .always
  (fun r r' => ∃ later, r'.trace = r.trace ++ later ∧ L.Leads r.ledger later r'.ledger)
  (fun r => ⟨[], (List.append_nil _).symm, rfl⟩)
  (by
    rintro r r₁ r' ⟨later, htrace, h⟩ ⟨later', htrace', h'⟩
    exact ⟨later ++ later', by rw [htrace', htrace, List.append_assoc], h.append h'⟩)

theorem traced_submit_takes (L : Ledger σ) (cl : Call) :
    (L.traced.submit cl).Takes (L.tracing (ε := LedgerError)) := by
  rintro r x r' ⟨-, rfl⟩
  exact ⟨[⟨cl, r.ledger⟩], rfl, rfl, _, _, gives_run (L.submit cl) r.ledger, rfl⟩

theorem traced_takes (L : Ledger σ) (cl : Call) :
    (L.traced.call cl).Takes (L.tracing (ε := BridgeError)) :=
  takes_mapError.mpr fun _ _ _ h => L.traced_submit_takes cl h

def making (P : Call → Prop) : Course ε (List Call) := .always
  (fun calls calls' => ∃ later, calls' = calls ++ later ∧ ∀ cl ∈ later, P cl)
  (fun calls => ⟨[], (List.append_nil _).symm, nofun⟩)
  (by
    rintro calls _ _ ⟨later, rfl, h⟩ ⟨later', rfl, h'⟩
    refine ⟨later ++ later', List.append_assoc .., fun cl hcl => ?_⟩
    exact (List.mem_append.mp hcl).elim (h cl) (h' cl))

theorem recorded_takes_making {P : Call → Prop} (L : Ledger σ) (h : P cl) :
    (L.recorded.call cl).Takes ((making P).of Recorded.calls) := by
  rintro r x r' ⟨-, rfl⟩
  refine ⟨[cl], rfl, fun cl' hcl' => ?_⟩
  rwa [List.mem_singleton.mp hcl']

theorem traced_takes_making {P : Call → Prop} (L : Ledger σ) (h : P cl) :
    (L.traced.call cl).Takes ((making P).of Traced.calls) := by
  rintro r x r' ⟨-, rfl⟩
  refine ⟨[cl], List.map_append, fun cl' hcl' => ?_⟩
  rwa [List.mem_singleton.mp hcl']

end Ledger

def Operation.passesOn : Operation → Option Question
  | .keeper q => q.passesOn
  | .conversion _ => none

namespace Keeper

theorem operate_isProgram (k : Keeper) (op : Operation) :
    IsProgram (k.config.scope.passing op.passesOn) fun _ L => k.operate L op := by
  cases op with
  | keeper q => exact k.perform_isProgram q
  | conversion q => exact (Ledger.performConversion_isProgram k.config q).passing none

def callsMade (k : Keeper) (L : Ledger σ) (op : Operation) (s : σ) : List (Made σ) :=
  ((k.operate L.traced op).run ⟨s, []⟩).state.trace

theorem callsMade_lead (k : Keeper) (L : Ledger σ) (op : Operation) (s : σ) :
    L.Leads s (k.callsMade L op s) ((k.operate L op).run s).state := by
  have hrun := gives_run (k.operate L.traced op) ⟨s, []⟩
  obtain ⟨-, hstate⟩ := (L.traced_shadows.isProgram (k.operate_isProgram op)).gives hrun
  obtain ⟨later, hlater, h⟩ := (k.operate_isProgram op).takes (fun cl _ => L.traced_takes cl) hrun
  rw [callsMade, hlater, hstate]
  exact h

theorem callsMade_within (k : Keeper) (L : Ledger σ) (op : Operation) (s : σ) :
    ∀ m ∈ k.callsMade L op s, k.config.scope.calls m.call := by
  obtain ⟨later, hlater, h⟩ := (k.operate_isProgram op).takes
    (fun cl hcl => L.traced_takes_making hcl) (gives_run (k.operate L.traced op) ⟨s, []⟩)
  have hcalls : (k.callsMade L op s).map (·.call) = later := hlater
  exact fun m hm => h m.call (hcalls ▸ List.mem_map_of_mem hm)

end Keeper

end DualDenom
