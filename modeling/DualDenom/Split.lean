import DualDenom.Error

/-!
# Splitting evm amounts

An evm amount splits into whole cosmos units and a remainder of evm units
below the multiplier. `Split.merge` puts the two together again.
-/

namespace DualDenom

structure Split where
  /-- Cosmos units. -/
  whole : Amount
  /-- Evm units. -/
  remainder : Amount
  deriving DecidableEq

namespace Split

def zero : Split := ⟨.zero, .zero⟩

def isZero (s : Split) : Bool := s.whole.isZero && s.remainder.isZero

def merge (s : Split) (multiplier : Amount) : Except Overflow Amount := do
  (← s.whole.mul multiplier).add s.remainder

/-- Splits `n` and checks that the parts are a split of it. -/
def ofAmount (n multiplier : Amount) : Except BridgeError Split := do
  let whole ← (n.div multiplier).mapError fun z => .invariantViolation (.division z)
  let remainder ← (n.mod multiplier).mapError fun z => .invariantViolation (.division z)
  let s : Split := { whole, remainder }
  let merged ← (s.merge multiplier).mapError .overflow
  if merged = n ∧ remainder < multiplier then pure s
  else throw (.invariantViolation (.split n))

end Split

namespace Config

def wholeCoin (c : Config) (s : Split) : Coin := c.cosmosCoin s.whole

def remainderCoin (c : Config) (s : Split) : Coin := c.evmCoin s.remainder

end Config

end DualDenom
