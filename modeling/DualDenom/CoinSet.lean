import DualDenom.Split

/-!
# The coin lists that the bridge takes

Callers of the bridge hand over an evm amount as a coin list: no coins, or one
coin of the evm denom. Transfers between accounts take canonical lists of both
denoms. Coins of amount zero do not count in either.
-/

namespace DualDenom

namespace Coins

def checkEvm (cs : Coins) (evmDenom : Denom) : Except CoinSetDefect Unit :=
  let kept := cs.positive
  if kept.isEmpty then pure ()
  else do
    kept.check.mapError .coins
    if kept.map (·.denom) = [evmDenom] then pure ()
    else throw (.notEvm (kept.map (·.denom)) evmDenom)

/-- The evm amount that a list stands for. -/
def evmAmount (cs : Coins) (evmDenom : Denom) : Except CoinSetDefect Amount := do
  cs.checkEvm evmDenom
  match cs.positive with
  | [] => pure .zero
  | coin :: _ => pure coin.amount

def split (cs : Coins) (c : Config) : Except BridgeError Split := do
  let n ← (cs.evmAmount c.evmDenom).mapError .invalidCoinSet
  Split.ofAmount n c.multiplier

def movable (cs : Coins) (c : Config) : Except CoinSetDefect Coins :=
  let kept := cs.positive
  if kept.isEmpty then pure []
  else do
    kept.check.mapError .coins
    match kept.find? fun coin => coin.denom ≠ c.evmDenom && coin.denom ≠ c.cosmosDenom with
    | some coin => throw (.foreign coin.denom c.evmDenom c.cosmosDenom)
    | none => pure kept

end Coins

end DualDenom
