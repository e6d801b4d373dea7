import DualDenom.Coin
import DualDenom.Account
import DualDenom.Text.Blank

/-!
# Configuration of a bridge

Two denoms of one value: one unit of the cosmos denom, in which the ledger
settles, is worth `multiplier` units of the finer evm denom. The conversion
module is the escrow that burns one and mints the other. `Config.check` finds
the first reason why a configuration cannot be used.
-/

namespace DualDenom

structure Config where
  evmDenom : Denom
  cosmosDenom : Denom
  conversionModule : ModuleName
  multiplier : Amount
  deriving DecidableEq

inductive ConfigDefect
  | malformedDenom (denom : Denom)
  | sameDenoms (denom : Denom)
  | blankModule
  | smallMultiplier (multiplier : Amount)
  | decimalsOrder (evm cosmos : Nat)
  | largeMultiplier (exponent : Nat)
  deriving DecidableEq

namespace Config

/-- 18 decimals against 6. -/
def standard : Config where
  evmDenom := "aorai"
  cosmosDenom := "orai"
  conversionModule := "evm"
  multiplier := ⟨1000000000000, by decide⟩

def ofDecimals (evmDenom cosmosDenom : Denom) (conversionModule : ModuleName)
    (evmDecimals cosmosDecimals : Nat) : Except ConfigDefect Config :=
  if evmDecimals ≤ cosmosDecimals then .error (.decimalsOrder evmDecimals cosmosDecimals)
  else match Amount.powTen? (evmDecimals - cosmosDecimals) with
    | none => .error (.largeMultiplier (evmDecimals - cosmosDecimals))
    | some multiplier => .ok { evmDenom, cosmosDenom, conversionModule, multiplier }

def defect? (c : Config) : Option ConfigDefect :=
  if !c.evmDenom.wellFormed then some (.malformedDenom c.evmDenom)
  else if !c.cosmosDenom.wellFormed then some (.malformedDenom c.cosmosDenom)
  else if c.evmDenom = c.cosmosDenom then some (.sameDenoms c.evmDenom)
  else if isBlank c.conversionModule then some .blankModule
  else if c.multiplier ≤ .one then some (.smallMultiplier c.multiplier)
  else none

def check (c : Config) : Except ConfigDefect Unit :=
  match c.defect? with
  | some d => .error d
  | none => .ok ()

def evmCoin (c : Config) (n : Amount) : Coin := ⟨c.evmDenom, n⟩

def cosmosCoin (c : Config) (n : Amount) : Coin := ⟨c.cosmosDenom, n⟩

end Config

def ConfigDefect.message : ConfigDefect → String
  | .malformedDenom denom => (CoinDefect.malformedDenom denom).message
  | .sameDenoms denom => s!"evm and cosmos denoms are both {denom}"
  | .blankModule => "conversion module name is empty"
  | .smallMultiplier multiplier => s!"multiplier {multiplier.text} must be greater than 1"
  | .decimalsOrder evm cosmos => s!"evm decimals {evm} must exceed cosmos decimals {cosmos}"
  | .largeMultiplier exponent => s!"multiplier 10^{exponent} overflows u128"

end DualDenom
