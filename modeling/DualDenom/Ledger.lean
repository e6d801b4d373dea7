import DualDenom.Action
import DualDenom.Error

/-!
# Ledgers

A ledger holds balances of many denoms, resolves modules to their accounts and
carries out calls. The bridge sees it only through `Ledger`: three questions,
which leave the state alone, and `submit`, through which every change goes.
What a ledger answers is up to it.
-/

namespace DualDenom

inductive Call
  | send (source target : Address) (coins : Coins)
  | accountToModule (sender : Address) (name : ModuleName) (coins : Coins)
  | moduleToAccount (name : ModuleName) (recipient : Address) (coins : Coins)
  | moduleToModule (sender recipient : ModuleName) (coins : Coins)
  | mint (name : ModuleName) (coins : Coins)
  | burn (name : ModuleName) (coins : Coins)
  deriving DecidableEq

namespace Call

def coins : Call → Coins
  | .send _ _ cs | .accountToModule _ _ cs | .moduleToAccount _ _ cs | .moduleToModule _ _ cs
  | .mint _ cs | .burn _ cs => cs

def isMint : Call → Bool
  | .mint .. => true
  | _ => false

def isBurn : Call → Bool
  | .burn .. => true
  | _ => false

end Call

structure Ledger (σ : Type) where
  /-- What an address holds and may spend. -/
  spendableCoins : σ → Address → Except LedgerError Coins
  /-- Fails when one of the denoms cannot be sent. -/
  checkSendEnabled : σ → Coins → Except LedgerError Unit
  moduleAddress : σ → ModuleName → Except LedgerError Address
  submit : Call → Action LedgerError σ Unit

abbrev Bridge (σ : Type) := Action BridgeError σ

namespace Ledger

variable {σ : Type}

def spendableAmount (L : Ledger σ) (s : σ) (a : Address) (d : Denom) : Except LedgerError Amount :=
  (L.spendableCoins s a).map (·.amountOf d)

def holderAddress (L : Ledger σ) (s : σ) : Holder → Except LedgerError Address
  | .account address => .ok address
  | .escrow name => L.moduleAddress s name

def call (L : Ledger σ) (c : Call) : Bridge σ Unit := (L.submit c).mapError .ledger

def ask {α : Type} (f : σ → Except LedgerError α) : Bridge σ α :=
  (Action.query f).mapError .ledger

end Ledger

def Holder.deposit (escrow : ModuleName) (coins : Coins) : Holder → Call
  | .account address => .accountToModule address escrow coins
  | .escrow name => .moduleToModule name escrow coins

def Holder.withdraw (escrow : ModuleName) (coins : Coins) : Holder → Call
  | .account address => .moduleToAccount escrow address coins
  | .escrow name => .moduleToModule escrow name coins

end DualDenom
