import DualDenom.Config

/-!
# Errors

`LedgerError` is what a ledger answers when it refuses; `BridgeError` is what
the bridge answers. A ledger's error reaches the caller of the bridge as it
is, with the same message.
-/

namespace DualDenom

inductive LedgerError
  | overflow (overflow : Overflow)
  /-- Any other error of the ledger's storage or serialisation. -/
  | std (text : String)
  | insufficientFunds (address : Address) (denom : Denom) (available required : Amount)
  | sendDisabled (denom : Denom)
  | blockedAddress (address : Address)
  | unknownModule (name : ModuleName)
  | missingPermission (name : ModuleName) (permission : String)
  | invalidCoins (defect : CoinDefect)
  | rejected (reason : String)
  deriving DecidableEq

inductive CoinSetDefect
  | coins (defect : CoinDefect)
  /-- The list is not one coin of the evm denom. -/
  | notEvm (denoms : List Denom) (evmDenom : Denom)
  /-- A coin is of neither denom. -/
  | foreign (denom evmDenom cosmosDenom : Denom)
  deriving DecidableEq

inductive Breach
  | division (zero : DivisionByZero)
  | split (amount : Amount)
  deriving DecidableEq

inductive BridgeError
  | ledger (error : LedgerError)
  | overflow (overflow : Overflow)
  | unsupportedDenom (denom expected : Denom)
  | invalidCoinSet (defect : CoinSetDefect)
  | invalidConfig (defect : ConfigDefect)
  | invariantViolation (breach : Breach)
  deriving DecidableEq

def LedgerError.message : LedgerError → String
  | .overflow o => s!"Overflow: {o.message}"
  | .std text => text
  | .insufficientFunds address denom available required =>
    s!"Insufficient funds: {address} has {available.text}{denom}, needs {required.text}{denom}"
  | .sendDisabled denom => s!"Send disabled for denom {denom}"
  | .blockedAddress address => s!"Address {address} is not allowed to receive funds"
  | .unknownModule name => s!"Module account {name} does not exist"
  | .missingPermission name permission =>
    s!"Module account {name} does not have {permission} permissions"
  | .invalidCoins defect => s!"Invalid coins: {defect.message}"
  | .rejected reason => s!"Ledger rejected the operation: {reason}"

def CoinSetDefect.message : CoinSetDefect → String
  | .coins defect => defect.message
  | .notEvm denoms evmDenom =>
    let found := String.intercalate "," denoms
    s!"invalid evm coin denom {found}, only {evmDenom} is supported"
  | .foreign denom evmDenom cosmosDenom =>
    s!"denom {denom} cannot move through the evm keeper, expected {evmDenom} or {cosmosDenom}"

def Breach.message : Breach → String
  | .division zero => zero.message
  | .split amount => s!"split of {amount.text} does not recombine"

namespace BridgeError

def message : BridgeError → String
  | .ledger e => e.message
  | .overflow o => o.message
  | .unsupportedDenom denom expected =>
    s!"Unsupported denom {denom}: only evm denom {expected} is supported"
  | .invalidCoinSet defect => s!"Invalid coin set: {defect.message}"
  | .invalidConfig defect => s!"Invalid bridge config: {defect.message}"
  | .invariantViolation breach => s!"Bridge invariant violated: {breach.message}"

def isContractViolation : BridgeError → Bool
  | .unsupportedDenom .. | .invalidCoinSet _ | .invalidConfig _ => true
  | _ => false

def isInvariantBreach : BridgeError → Bool
  | .overflow _ | .invariantViolation _ => true
  | _ => false

def isLedgerFailure : BridgeError → Bool
  | .ledger _ => true
  | _ => false

end BridgeError

end DualDenom
