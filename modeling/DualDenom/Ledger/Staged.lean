import DualDenom.Ledger
import Std.Data.TreeMap

/-!
# Staged ledgers

A staged ledger answers as the ledger behind it, but for what was arranged:
one call to come may be refused, and the spendable coins of an address may be
given out as any list or error. A refused call does not reach the ledger
behind. What that ledger itself allows when coins move is not arranged.
-/

namespace DualDenom

/-- The call at which `countdown` has come down to one is refused; zero counts as one. -/
structure Refusal where
  countdown : Nat
  reason : String
  deriving DecidableEq

structure Staged (σ : Type) where
  ledger : σ
  refusal : Option Refusal
  spendable : Std.TreeMap Address (Except LedgerError Coins)

namespace Staged

variable {σ : Type}

def start (s : σ) : Staged σ := ⟨s, none, ∅⟩

def inside {ε α : Type} (m : Action ε σ α) : Action ε (Staged σ) α :=
  m.within (·.ledger) fun s t => { t with ledger := s }

/-- Counts one call: it is refused when its turn has come, and the refusal is used up. -/
def admit? (t : Staged σ) : Option String × Staged σ :=
  match t.refusal with
  | none => (none, t)
  | some r =>
    if r.countdown ≤ 1 then (some r.reason, { t with refusal := none })
    else (none, { t with refusal := some { r with countdown := r.countdown - 1 } })

end Staged

def Ledger.staged {σ : Type} (L : Ledger σ) : Ledger (Staged σ) where
  spendableCoins t a := match t.spendable[a]? with
    | some answer => answer
    | none => L.spendableCoins t.ledger a
  checkSendEnabled t := L.checkSendEnabled t.ledger
  moduleAddress t := L.moduleAddress t.ledger
  submit c := fun t => match t.admit? with
    | (some reason, u) => (Action.fail (.rejected reason)).run u
    | (none, u) => (Staged.inside (L.submit c)).run u

end DualDenom
