import DualDenom.Account
import DualDenom.Amount
import Std.Data.TreeMap

/-!
# The sheet of one denom

A sheet holds all that a ledger knows of one denom: what each address has, how
much of that is locked, how much there is in all, and whether the denom may be
sent. An address may spend what it has beyond what is locked.
-/

namespace DualDenom

open Std (TreeMap)

structure Sheet where
  balances : TreeMap Address Amount
  locks : TreeMap Address Amount
  supply : Amount
  sendDisabled : Bool

namespace Sheet

def empty : Sheet := ⟨∅, ∅, .zero, false⟩

instance : Inhabited Sheet := ⟨empty⟩

def balance (s : Sheet) (a : Address) : Amount := s.balances.getD a .zero

/-- May exceed the balance. -/
def locked (s : Sheet) (a : Address) : Amount := s.locks.getD a .zero

def spendable (s : Sheet) (a : Address) : Amount := (s.balance a).subSat (s.locked a)

/-- What all addresses have together, as a number of any size. -/
def total (s : Sheet) : Nat := s.balances.foldl (fun sum _ n => sum + n.val) 0

/-- Stores a balance, even one of zero. -/
def setBalance (s : Sheet) (a : Address) (n : Amount) : Sheet :=
  { s with balances := s.balances.insert a n }

/-- Stores what is left of a balance, unless nothing is. -/
def leaveBalance (s : Sheet) (a : Address) (n : Amount) : Sheet :=
  if n.isZero then { s with balances := s.balances.erase a } else s.setBalance a n

def credit (s : Sheet) (a : Address) (n : Amount) : Except Overflow Sheet :=
  ((s.balance a).add n).map (s.setBalance a)

def debit? (s : Sheet) (a : Address) (n : Amount) : Option Sheet :=
  if n ≤ s.spendable a then some (s.leaveBalance a ((s.balance a).subSat n)) else none

def issue (s : Sheet) (n : Amount) : Except Overflow Sheet :=
  (s.supply.add n).map fun total => { s with supply := total }

def retire (s : Sheet) (n : Amount) : Except Overflow Sheet :=
  (s.supply.sub n).map fun total => { s with supply := total }

/-- Sets the locked amount; nothing is added to it. -/
def lock (s : Sheet) (a : Address) (n : Amount) : Sheet := { s with locks := s.locks.insert a n }

def disableSend (s : Sheet) : Sheet := { s with sendDisabled := true }

end Sheet

end DualDenom
