import DualDenom.Account
import DualDenom.Amount

/-!
# Events

What the bridge reports while it works: each evm amount that it split, each
conversion it completed and each sweep that converted something.
-/

namespace DualDenom

inductive Direction
  | cosmosToEvm
  | evmToCosmos
  deriving DecidableEq

def Direction.text : Direction → String
  | .cosmosToEvm => "cosmos_to_evm"
  | .evmToCosmos => "evm_to_cosmos"

def Direction.opposite : Direction → Direction
  | .cosmosToEvm => .evmToCosmos
  | .evmToCosmos => .cosmosToEvm

inductive Event
  | split (amount whole remainder : Amount)
  | converted (holder : Holder) (units : Amount) (direction : Direction) (escrow : ModuleName)
  | swept (holder : Holder) (units : Amount)
  deriving DecidableEq

inductive Level
  | trace
  | debug
  deriving DecidableEq

namespace Event

def level : Event → Level
  | .split .. => .trace
  | .converted .. | .swept .. => .debug

def message : Event → String
  | .split .. => "Split evm amount"
  | .converted .. => "Converted settlement units"
  | .swept .. => "Swept evm dust"

def fields : Event → List (String × String)
  | .split amount whole remainder =>
    [("amount", amount.text), ("cosmos", whole.text), ("evm_remainder", remainder.text)]
  | .converted holder units direction escrow =>
    [("holder", holder.text), ("units", units.text), ("direction", direction.text),
      ("escrow", escrow)]
  | .swept holder units => [("holder", holder.text), ("units", units.text)]

end Event

def Level.text : Level → String
  | .trace => "TRACE"
  | .debug => "DEBUG"

end DualDenom
