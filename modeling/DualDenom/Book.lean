import DualDenom.Book.Sheet
import DualDenom.Ledger

/-!
# The book, a ledger in memory

A book has a sheet for each denom, the accounts of modules and the addresses
that may not receive from modules. `Book.ledger` is the ledger that it is. Coins
are moved one after the other: a call that fails at one coin has moved the
coins before it.
-/

namespace DualDenom

open Std (TreeMap)

structure Book where
  sheets : TreeMap Denom Sheet
  modules : TreeMap ModuleName ModuleAccount
  blocked : TreeMap Address Unit

namespace Book

def empty : Book := ⟨∅, ∅, ∅⟩

instance : Inhabited Book := ⟨empty⟩

def sheet (b : Book) (d : Denom) : Sheet := b.sheets.getD d .empty

def setSheet (d : Denom) (s : Sheet) (b : Book) : Book := { b with sheets := b.sheets.insert d s }

def balance (b : Book) (a : Address) (d : Denom) : Amount := (b.sheet d).balance a

def locked (b : Book) (a : Address) (d : Denom) : Amount := (b.sheet d).locked a

def spendable (b : Book) (a : Address) (d : Denom) : Amount := (b.sheet d).spendable a

def supply (b : Book) (d : Denom) : Amount := (b.sheet d).supply

def moduleAccount (b : Book) (name : ModuleName) : Except LedgerError ModuleAccount :=
  match b.modules[name]? with
  | some account => .ok account
  | none => .error (.unknownModule name)

def moduleAddress (b : Book) (name : ModuleName) : Except LedgerError Address :=
  (b.moduleAccount name).map (·.address)

/-- The address of a module that holds `p`. -/
def addressWith (b : Book) (name : ModuleName) (p : Permission) : Except LedgerError Address := do
  let account ← b.moduleAccount name
  if p ∈ account.permissions then pure account.address
  else throw (.missingPermission name p.text)

def checkNotBlocked (b : Book) (a : Address) : Except LedgerError Unit :=
  if b.blocked.contains a then throw (.blockedAddress a) else pure ()

def spendableCoins (b : Book) (a : Address) : Coins :=
  Coins.positive (b.sheets.toList.map fun (d, s) => ⟨d, s.spendable a⟩)

def checkSendEnabled (b : Book) (cs : Coins) : Except LedgerError Unit :=
  match cs.find? fun c => (b.sheet c.denom).sendDisabled with
  | some c => .error (.sendDisabled c.denom)
  | none => .ok ()

abbrev Change := Action LedgerError Book

def onSheet (d : Denom) (f : Sheet → Except LedgerError Sheet) : Change Unit :=
  .update fun b => (f (b.sheet d)).map (b.setSheet d ·)

def credit (a : Address) (c : Coin) : Change Unit :=
  onSheet c.denom fun s => (s.credit a c.amount).mapError .overflow

def debit (a : Address) (c : Coin) : Change Unit :=
  onSheet c.denom fun s => match s.debit? a c.amount with
    | some t => .ok t
    | none => .error (.insufficientFunds a c.denom (s.spendable a) c.amount)

def issue (c : Coin) : Change Unit :=
  onSheet c.denom fun s => (s.issue c.amount).mapError .overflow

def retire (c : Coin) : Change Unit :=
  onSheet c.denom fun s => (s.retire c.amount).mapError .overflow

def checkCoins (cs : Coins) : Change Unit := .ofExcept (cs.check.mapError .invalidCoins)

def transfer (source target : Address) (cs : Coins) : Change Unit := do
  checkCoins cs
  cs.forM fun c => do
    debit source c
    credit target c

def create (a : Address) (cs : Coins) : Change Unit := do
  checkCoins cs
  cs.forM fun c => do
    credit a c
    issue c

def destroy (a : Address) (cs : Coins) : Change Unit := do
  checkCoins cs
  cs.forM fun c => do
    debit a c
    retire c

def submit : Call → Change Unit
  | .send source target cs => do
    Action.query (·.checkSendEnabled cs)
    transfer source target cs
  | .accountToModule sender name cs => do
    let target ← .query (·.moduleAddress name)
    transfer sender target cs
  | .moduleToAccount name recipient cs => do
    let source ← .query (·.moduleAddress name)
    Action.query (·.checkNotBlocked recipient)
    transfer source recipient cs
  | .moduleToModule sender recipient cs => do
    let source ← .query (·.moduleAddress sender)
    let target ← .query (·.moduleAddress recipient)
    transfer source target cs
  | .mint name cs => do
    let a ← .query (·.addressWith name .minter)
    create a cs
  | .burn name cs => do
    let a ← .query (·.addressWith name .burner)
    destroy a cs

def ledger : Ledger Book where
  spendableCoins b a := .ok (b.spendableCoins a)
  checkSendEnabled := checkSendEnabled
  moduleAddress := moduleAddress
  submit := submit

/-- Registers a module. A module of the same name is replaced. -/
def addModule (name : ModuleName) (permissions : List Permission) (b : Book) : Book :=
  { b with modules := b.modules.insert name (.named name permissions) }

def fund (a : Address) (cs : Coins) : Change Unit := create a cs

def lock (a : Address) (c : Coin) (b : Book) : Book :=
  b.setSheet c.denom ((b.sheet c.denom).lock a c.amount)

def block (a : Address) (b : Book) : Book := { b with blocked := b.blocked.insert a () }

def disableSend (d : Denom) (b : Book) : Book := b.setSheet d (b.sheet d).disableSend

def value (b : Book) (c : Config) (a : Address) : Except Overflow Amount := do
  (← (b.balance a c.cosmosDenom).mul c.multiplier).add (b.balance a c.evmDenom)

/-- What the addresses have together; an address that is listed twice counts twice. -/
def totalValue (b : Book) (c : Config) (as : List Address) : Except Overflow Amount :=
  as.foldlM (fun sum a => do sum.add (← b.value c a)) .zero

def supplyValue (b : Book) (c : Config) : Except Overflow Amount := do
  (← (b.supply c.cosmosDenom).mul c.multiplier).add (b.supply c.evmDenom)

end Book

end DualDenom
