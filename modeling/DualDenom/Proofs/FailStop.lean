import DualDenom.Proofs.KeeperLaws
import DualDenom.Proofs.Traces

/-!
# Stopping at a refused call

A ledger that refuses one call stops the operation that made it: the error is
answered as it is, and what the calls before it did is what there is
(`operate_stops`). No call is made again, undone or made later. An operation
that never comes to the refused call does not notice.
-/

namespace DualDenom

open DualDenom.Action

def Traced.stage (i : Nat) (reason : String) (r : Traced σ) : Staged (Recorded σ) where
  ledger := ⟨r.ledger, r.trace.map (·.call)⟩
  refusal := some ⟨i + 1 - r.trace.length, reason⟩
  spendable := ∅

namespace Ledger

variable {L : Ledger σ} {r : Traced σ} {i : Nat} {reason : String}

theorem staged_spendableCoins (L : Ledger σ) (i : Nat) (reason : String) (r : Traced σ)
    (a : Address) :
    L.recorded.staged.spendableCoins (r.stage i reason) a = L.traced.spendableCoins r a := by
  have hnone : (r.stage i reason).spendable[a]? = none := Std.TreeMap.getElem?_emptyc
  simp only [staged, hnone]
  rfl

theorem staged_answer (L : Ledger σ) (i : Nat) (reason : String) (r : Traced σ) (q : Question) :
    L.recorded.staged.answer (r.stage i reason) q = L.traced.answer r q := by
  cases q with
  | spendableCoins a => exact staged_spendableCoins L i reason r a
  | spendableAmount a d => exact congrArg (Except.map _) (staged_spendableCoins L i reason r a)
  | checkSendEnabled cs => rfl
  | moduleAddress name => rfl

theorem staged_call_refused (cl : Call) (h : r.trace.length = i) :
    (L.recorded.staged.call cl).Gives (r.stage i reason) (.error (.ledger (.rejected reason)))
      { r.stage i reason with refusal := none } := by
  have hadmit : (r.stage i reason).admit? =
      (some reason, { r.stage i reason with refusal := none }) := by
    simp [Staged.admit?, Traced.stage, h]
  refine gives_mapError_error.mpr ⟨.rejected reason, ?_, rfl⟩
  simp [Gives, run, staged, hadmit, fail]

theorem staged_call_admitted (cl : Call) (h : r.trace.length < i) :
    (L.recorded.staged.call cl).Gives (r.stage i reason) ((L.traced.call cl).run r).answer
      (((L.traced.call cl).run r).state.stage i reason) := by
  have hadmit : (r.stage i reason).admit? =
      (none, { r.stage i reason with refusal := some ⟨i - r.trace.length, reason⟩ }) := by
    have hgt : ¬i + 1 - r.trace.length ≤ 1 := by omega
    have hnext : i + 1 - r.trace.length - 1 = i - r.trace.length := by omega
    simp [Staged.admit?, Traced.stage, hgt, hnext]
  have hsubmit : (L.recorded.staged.submit cl).run (r.stage i reason) =
      (Staged.inside (L.recorded.submit cl)).run
        { r.stage i reason with refusal := some ⟨i - r.trace.length, reason⟩ } := by
    simp only [staged, run, hadmit]
  have hstage : (r.note cl ((L.submit cl).run r.ledger).state).stage i reason =
      { ledger := ⟨((L.submit cl).run r.ledger).state, r.trace.map (·.call) ++ [cl]⟩
        refusal := some ⟨i - r.trace.length, reason⟩
        spendable := ∅ } := by
    simp [Traced.stage, Traced.note]
  rw [Gives, call, run_mapError, hsubmit]
  exact ⟨rfl, hstage.symm⟩

end Ledger

/-- When the calm action comes to call `i`, the refused one ends there. Else both come to the
same. -/
def StopsAt (i : Nat) (reason : String) (calm : Bridge (Traced σ) α)
    (refused : Bridge (Staged (Recorded σ)) α) : Prop :=
  ∀ ⦃r x r'⦄, r.trace.length ≤ i → calm.Gives r x r' →
    (∀ m, r'.trace[i]? = some m →
      ∃ t, refused.Gives (r.stage i reason) (.error (.ledger (.rejected reason))) t ∧
        t.ledger = ⟨m.before, (r'.trace.take i).map (·.call)⟩) ∧
    (r'.trace.length ≤ i → refused.Gives (r.stage i reason) x (r'.stage i reason))

namespace StopsAt

variable {L : Ledger σ} {i : Nat} {reason : String}

theorem of_still {calm : Bridge (Traced σ) α} {refused : Bridge (Staged (Recorded σ)) α}
    (h : ∀ ⦃r x r'⦄, calm.Gives r x r' →
      r' = r ∧ refused.Gives (r.stage i reason) x (r.stage i reason)) :
    StopsAt i reason calm refused := by
  intro r x r' hle hcalm
  obtain ⟨rfl, hrefused⟩ := h hcalm
  refine ⟨fun m hm => ?_, fun _ => hrefused⟩
  have := (List.getElem?_eq_some_iff.mp hm).1
  omega

theorem call (L : Ledger σ) (cl : Call) :
    StopsAt i reason (L.traced.call cl) (L.recorded.staged.call cl) := by
  intro r x r' hle hcalm
  have htrace : r'.trace = r.trace ++ [⟨cl, r.ledger⟩] := by
    obtain ⟨-, rfl⟩ := hcalm
    rfl
  rcases hle.eq_or_lt with rfl | hlt
  · refine ⟨fun m hm => ⟨_, Ledger.staged_call_refused cl rfl, ?_⟩, fun hshort => ?_⟩
    · rw [htrace, List.getElem?_concat_length] at hm
      obtain rfl := Option.some.inj hm
      rw [htrace, List.take_left' rfl]
      rfl
    · rw [htrace, List.length_append, List.length_singleton] at hshort
      omega
  · refine ⟨fun m hm => ?_, fun _ => ?_⟩
    · have := (List.getElem?_eq_some_iff.mp hm).1
      rw [htrace, List.length_append, List.length_singleton] at this
      omega
    · obtain ⟨rfl, rfl⟩ := hcalm
      exact Ledger.staged_call_admitted cl hlt

theorem bind {calm : Bridge (Traced σ) α} {refused : Bridge (Staged (Recorded σ)) α}
    {f : α → Bridge (Traced σ) β} {f' : α → Bridge (Staged (Recorded σ)) β}
    (hm : StopsAt i reason calm refused) (hf : ∀ a, StopsAt i reason (f a) (f' a))
    (hgrow : ∀ a, (f a).Takes L.tracing) :
    StopsAt i reason (calm >>= f) (refused >>= f') := by
  intro r x r' hle hcalm
  rcases gives_bind.mp hcalm with ⟨e, he, rfl⟩ | ⟨a, r₁, ha, hx⟩
  · obtain ⟨hreached, hmissed⟩ := hm hle he
    refine ⟨fun m hmade => ?_, fun hshort => gives_bind_error.mpr (.inl (hmissed hshort))⟩
    obtain ⟨t, ht, hledger⟩ := hreached m hmade
    exact ⟨t, gives_bind_error.mpr (.inl ht), hledger⟩
  · obtain ⟨hreached, hmissed⟩ := hm hle ha
    by_cases hshort₁ : r₁.trace.length ≤ i
    · obtain ⟨hreached', hmissed'⟩ := hf a hshort₁ hx
      have ha' := hmissed hshort₁
      refine ⟨fun m hmade => ?_, fun hshort => gives_bind.mpr (.inr ⟨a, _, ha', hmissed' hshort⟩)⟩
      obtain ⟨t, ht, hledger⟩ := hreached' m hmade
      exact ⟨t, gives_bind_error.mpr (.inr ⟨a, _, ha', ht⟩), hledger⟩
    · -- Call `i` was made by the first of the two, and the rest only adds to the trace.
      obtain ⟨later, hlater, -⟩ := hgrow a hx
      have hlt : i < r₁.trace.length := Nat.not_le.mp hshort₁
      refine ⟨fun m hmade => ?_, fun hshort => ?_⟩
      · rw [hlater, List.getElem?_append_left hlt] at hmade
        obtain ⟨t, ht, hledger⟩ := hreached m hmade
        refine ⟨t, gives_bind_error.mpr (.inl ht), ?_⟩
        rw [hledger, hlater, List.take_append_of_le_length hlt.le]
      · have := congrArg List.length hlater
        rw [List.length_append] at this
        omega

theorem on (L : Ledger σ) {p : Program α} (hp : p.Within S) :
    StopsAt i reason (p.on L.traced) (p.on L.recorded.staged) := by
  have hgrow : ∀ {p : Program α}, p.Within S → (p.on L.traced).Takes L.tracing :=
    fun hp => hp.on_takes fun cl _ => L.traced_takes cl
  induction p with
  | done x =>
    refine of_still fun r y r' h => ?_
    obtain ⟨rfl, rfl⟩ := gives_ofExcept.mp h
    exact ⟨rfl, gives_ofExcept.mpr ⟨rfl, rfl⟩⟩
  | report e next ih =>
    refine bind (of_still fun r y r' h => ?_) (fun _ => ih hp) fun _ => hgrow (p := next) hp
    obtain ⟨rfl, rfl⟩ := gives_report.mp h
    exact ⟨rfl, gives_report.mpr ⟨rfl, rfl⟩⟩
  | ask q next ih =>
    refine bind (of_still fun r y r' h => ?_) (fun x => ih x (hp.2 x)) fun x => hgrow (hp.2 x)
    obtain ⟨rfl, rfl⟩ := h
    have hsame := congrArg (Except.mapError BridgeError.ledger) (L.staged_answer i reason r q)
    exact ⟨rfl, hsame, rfl⟩
  | call cl next ih => exact bind (call L cl) (fun _ => ih hp.2) fun _ => hgrow hp.2

theorem isProgram {m : (σ : Type) → Ledger σ → Bridge σ α} (hm : IsProgram S m) (L : Ledger σ)
    (i : Nat) (reason : String) : StopsAt i reason (m _ L.traced) (m _ L.recorded.staged) := by
  obtain ⟨p, hp, hpm⟩ := hm
  rw [hpm, hpm]
  exact on L hp

end StopsAt

namespace Keeper

/-- A ledger that refuses call `i` of an operation stops it there, with its own reason and with
what the calls before did. One that would refuse a call that is not made changes nothing. -/
theorem operate_stops (k : Keeper) (L : Ledger σ) (op : Operation) (s : σ) (i : Nat)
    (reason : String) :
    let calm := (k.operate L op).run s
    let made := k.callsMade L op s
    let refused := (k.operate L.recorded.staged op).run ⟨.start s, some ⟨i + 1, reason⟩, ∅⟩
    L.Leads s made calm.state ∧
    (∀ m, made[i]? = some m → refused.answer = .error (.ledger (.rejected reason)) ∧
      refused.state.ledger = ⟨m.before, (made.take i).map (·.call)⟩) ∧
    (made.length ≤ i → refused.answer = calm.answer ∧
      refused.state.ledger = ⟨calm.state, made.map (·.call)⟩) := by
  intro calm made refused
  have hcalm := gives_run (k.operate L.traced op) ⟨s, []⟩
  obtain ⟨hanswer, hstate⟩ := (L.traced_shadows.isProgram (k.operate_isProgram op)).gives hcalm
  have hstops := StopsAt.isProgram (k.operate_isProgram op) L i reason
  obtain ⟨hreached, hmissed⟩ := hstops (r := ⟨s, []⟩) (Nat.zero_le i) hcalm
  refine ⟨k.callsMade_lead L op s, ?_, ?_⟩
  · intro m hm
    obtain ⟨t, ⟨hx, rfl⟩, hledger⟩ := hreached m hm
    exact ⟨hx, hledger⟩
  · intro hshort
    obtain ⟨hx, ht⟩ := hmissed hshort
    refine ⟨hx.trans hanswer.symm, ?_⟩
    rw [hstate]
    exact congrArg Staged.ledger ht

end Keeper

theorem operate_stops_small :
    let k := Keeper.standard
    let op : Operation := .keeper (.accountToModule "alice" "fee" [⟨"aorai", .clamp 10⟩])
    let made := k.callsMade Book.ledger op Book.small
    let w : Staged (Recorded Book) := ⟨.start Book.small, some ⟨7, "down"⟩, ∅⟩
    made.length = 9 ∧ ∃ m, made[6]? = some m ∧
      ((k.operate Book.ledger.recorded.staged op).run w).answer =
        .error (.ledger (.rejected "down")) ∧
      ((k.operate Book.ledger.recorded.staged op).run w).state.ledger =
        ⟨m.before, (made.take 6).map (·.call)⟩ := by
  intro k op made w
  have hlength : made.length = 9 := by decide +kernel
  obtain ⟨m, hm⟩ : ∃ m, made[6]? = some m := ⟨_, List.getElem?_eq_getElem (by omega)⟩
  have hstops := k.operate_stops Book.ledger op Book.small 6 "down"
  exact ⟨hlength, m, hm, hstops.2.1 m hm⟩

end DualDenom
