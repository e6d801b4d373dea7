import DualDenom.Ledger
import DualDenom.CoinSet

/-!
# Conversion

A conversion exchanges whole cosmos units for `multiplier` evm units each, or
the other way. Its route is a list of calls: the holder's coins go to the
conversion escrow, which burns them, mints the others and gives those to the
holder. When the holder is the escrow itself, the first and the last call fall
away. Two uses of it keep evm balances small: a top-up converts the fewest
units that cover an amount, and a sweep converts back all whole units of dust.
-/

namespace DualDenom

namespace Config

def sourceCoin (c : Config) (units evm : Amount) : Direction → Coin
  | .cosmosToEvm => c.cosmosCoin units
  | .evmToCosmos => c.evmCoin evm

def targetCoin (c : Config) (units evm : Amount) : Direction → Coin
  | .cosmosToEvm => c.evmCoin evm
  | .evmToCosmos => c.cosmosCoin units

def route (c : Config) (h : Holder) (units evm : Amount) (d : Direction) : List Call :=
  let source := [c.sourceCoin units evm d]
  let target := [c.targetCoin units evm d]
  let exchange := [Call.burn c.conversionModule source, Call.mint c.conversionModule target]
  if h.isModule c.conversionModule then exchange
  else h.deposit c.conversionModule source :: exchange ++ [h.withdraw c.conversionModule target]

/-- The fewest units that are worth `shortfall`, by a rounded-up division. -/
def unitsFor (c : Config) (shortfall : Amount) : Except BridgeError Amount := do
  let slack ← (c.multiplier.sub .one).mapError .overflow
  let raised ← (shortfall.add slack).mapError .overflow
  (raised.div c.multiplier).mapError fun z => .invariantViolation (.division z)

def unitsIn (c : Config) (dust : Amount) : Except BridgeError Amount :=
  (dust.div c.multiplier).mapError fun z => .invariantViolation (.division z)

end Config

namespace Ledger

variable {σ : Type}

def spendableEvm (L : Ledger σ) (c : Config) (h : Holder) : Bridge σ Amount := do
  let a ← ask (L.holderAddress · h)
  ask (L.spendableAmount · a c.evmDenom)

/-- Converts `units` of a holder. Zero units take no call and report nothing. -/
def convert (L : Ledger σ) (c : Config) (h : Holder) (units : Amount) (d : Direction) :
    Bridge σ Unit :=
  if units.isZero then pure ()
  else do
    let evm ← .ofExcept ((units.mul c.multiplier).mapError .overflow)
    (c.route h units evm d).forM L.call
    .report (.converted h units d c.conversionModule)

/-- Answers how many units were converted. Whether the holder may spend `required`
then is not looked at again. -/
def topUp (L : Ledger σ) (c : Config) (h : Holder) (required : Amount) : Bridge σ Amount :=
  if required.isZero then pure .zero
  else do
    let available ← L.spendableEvm c h
    if required ≤ available then pure .zero
    else do
      let units ← .ofExcept (c.unitsFor (required.subSat available))
      L.convert c h units .cosmosToEvm
      pure units

def sweepDust (L : Ledger σ) (c : Config) (h : Holder) : Bridge σ Amount := do
  let dust ← L.spendableEvm c h
  let units ← .ofExcept (c.unitsIn dust)
  if units.isZero then pure .zero
  else do
    L.convert c h units .evmToCosmos
    .report (.swept h units)
    pure units

end Ledger

end DualDenom
