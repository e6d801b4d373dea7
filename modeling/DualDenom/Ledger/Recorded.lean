import DualDenom.Ledger

/-!
# Recorded ledgers

A recorded ledger keeps the calls that were made of it, the oldest first. A
call is written down before the ledger sees it, so refused calls are among
them.
-/

namespace DualDenom

structure Recorded (σ : Type) where
  ledger : σ
  calls : List Call

namespace Recorded

variable {σ : Type}

def start (s : σ) : Recorded σ := ⟨s, []⟩

def note (c : Call) (r : Recorded σ) : Recorded σ := { r with calls := r.calls ++ [c] }

def inside {ε α : Type} (m : Action ε σ α) : Action ε (Recorded σ) α :=
  m.within (·.ledger) fun s r => { r with ledger := s }

def summary (r : Recorded σ) : String :=
  s!"MockBank \x7b calls: {r.calls.length}, .. \x7d"

end Recorded

def Ledger.recorded {σ : Type} (L : Ledger σ) : Ledger (Recorded σ) where
  spendableCoins r := L.spendableCoins r.ledger
  checkSendEnabled r := L.checkSendEnabled r.ledger
  moduleAddress r := L.moduleAddress r.ledger
  submit c := do
    Action.modify (Recorded.note c)
    Recorded.inside (L.submit c)

end DualDenom
