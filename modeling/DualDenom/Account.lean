/-!
# Accounts

Balances belong to addresses. A module account is an address that belongs to a
named module, which may hold permissions to mint and to burn.
-/

namespace DualDenom

abbrev Address := String

abbrev ModuleName := String

inductive Permission
  | minter
  | burner
  deriving DecidableEq

def Permission.text : Permission → String
  | .minter => "minter"
  | .burner => "burner"

def Permission.ofText? (s : String) : Option Permission :=
  if s = "minter" then some .minter
  else if s = "burner" then some .burner
  else none

theorem Permission.ofText?_text (p : Permission) : ofText? p.text = some p := by
  cases p <;> decide

structure ModuleAccount where
  name : ModuleName
  address : Address
  permissions : List Permission
  deriving DecidableEq

def ModuleAccount.named (name : ModuleName) (permissions : List Permission) : ModuleAccount where
  name
  address := name ++ "_module_account"
  permissions

inductive Holder
  | account (address : Address)
  | escrow (name : ModuleName)
  deriving DecidableEq

namespace Holder

def text : Holder → String
  | .account address => address
  | .escrow name => s!"module:{name}"

/-- Holds of the module itself, not of an account at the module's address. -/
def isModule (h : Holder) (name : ModuleName) : Bool := h = .escrow name

end Holder

end DualDenom
