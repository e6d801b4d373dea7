import DualDenom.Conversion

/-!
# The keeper

The keeper lets its callers work in evm units on a ledger that settles in
cosmos units. An account is worth its cosmos units times the multiplier plus
its evm units, as far as it may spend them. Whole units move in the cosmos
denom. The remainder moves in the evm denom: the sender is topped up for it,
by one unit at most, and the dust of whoever received it is swept afterwards.

A keeper has a configuration that was checked and nothing else. It never makes
good a call that failed: undoing what came before is up to its caller.
-/

namespace DualDenom

structure Keeper where
  config : Config
  check_eq : config.check = .ok ()

structure BalanceParts where
  cosmos : Amount
  evm : Amount
  deriving DecidableEq

namespace Keeper

variable {σ : Type}

def ofConfig (c : Config) : Except BridgeError Keeper :=
  match h : c.check with
  | .ok () => .ok ⟨c, h⟩
  | .error d => .error (.invalidConfig d)

def balanceParts (k : Keeper) (L : Ledger σ) (a : Address) : Bridge σ BalanceParts := do
  let coins ← Ledger.ask (L.spendableCoins · a)
  pure ⟨coins.amountOf k.config.cosmosDenom, coins.amountOf k.config.evmDenom⟩

/-- What an address is worth in evm units. Only the evm denom can be asked for. -/
def balance (k : Keeper) (L : Ledger σ) (a : Address) (d : Denom) : Bridge σ Coin :=
  if d = k.config.evmDenom then do
    let parts ← k.balanceParts L a
    let total ← .ofExcept
      (((⟨parts.cosmos, parts.evm⟩ : Split).merge k.config.multiplier).mapError .overflow)
    pure (k.config.evmCoin total)
  else .fail (.unsupportedDenom d k.config.evmDenom)

def spendableCoins (_ : Keeper) (L : Ledger σ) (a : Address) : Bridge σ Coins :=
  Ledger.ask (L.spendableCoins · a)

def checkSendEnabled (_ : Keeper) (L : Ledger σ) (cs : Coins) : Bridge σ Unit :=
  Ledger.ask (L.checkSendEnabled · cs)

def split (k : Keeper) (cs : Coins) : Bridge σ Split := do
  let n ← .ofExcept ((cs.evmAmount k.config.evmDenom).mapError .invalidCoinSet)
  let s ← .ofExcept (Split.ofAmount n k.config.multiplier)
  .report (.split n s.whole s.remainder)
  pure s

/-- Makes a call for a coin, if there is something in it. -/
def callUnlessZero (L : Ledger σ) (coin : Coin) (f : Coins → Call) : Bridge σ Unit :=
  if coin.amount.isZero then pure () else L.call (f [coin])

def mintCoins (k : Keeper) (L : Ledger σ) (name : ModuleName) (cs : Coins) : Bridge σ Unit := do
  let s ← k.split cs
  callUnlessZero L (k.config.wholeCoin s) (.mint name)
  callUnlessZero L (k.config.remainderCoin s) (.mint name)

def burnCoins (k : Keeper) (L : Ledger σ) (name : ModuleName) (cs : Coins) : Bridge σ Unit := do
  let s ← k.split cs
  callUnlessZero L (k.config.wholeCoin s) (.burn name)
  callUnlessZero L (k.config.remainderCoin s) (.burn name)

/-- Moves evm coins from `source` by the calls that `f` makes of coins, and then
sweeps the holders of `swept`. A remainder of zero takes no top-up and no sweep. -/
def moveSplit (k : Keeper) (L : Ledger σ) (s : Split) (source : Holder) (swept : List Holder)
    (f : Coins → Call) : Bridge σ Unit := do
  callUnlessZero L (k.config.wholeCoin s) f
  if s.remainder.isZero then pure ()
  else do
    let _ ← L.topUp k.config source s.remainder
    L.call (f [k.config.remainderCoin s])
    swept.forM fun h => do
      let _ ← L.sweepDust k.config h

/-- Moves evm coins from an account into an escrow. Both have their dust swept, the
account first. -/
def accountToModule (k : Keeper) (L : Ledger σ) (sender : Address) (name : ModuleName)
    (cs : Coins) : Bridge σ Unit := do
  let s ← k.split cs
  k.moveSplit L s (.account sender) [.account sender, .escrow name] (.accountToModule sender name)

def moduleToAccount (k : Keeper) (L : Ledger σ) (name : ModuleName) (recipient : Address)
    (cs : Coins) : Bridge σ Unit := do
  let s ← k.split cs
  k.moveSplit L s (.escrow name) [.account recipient] (.moduleToAccount name recipient)

/-- Moves coins of both denoms between accounts as they are. No coins take no call. -/
def sendCoins (k : Keeper) (L : Ledger σ) (source target : Address) (cs : Coins) :
    Bridge σ Unit := do
  let moved ← .ofExcept ((cs.movable k.config).mapError .invalidCoinSet)
  if moved.isEmpty then pure () else L.call (.send source target moved)

def sweep (k : Keeper) (L : Ledger σ) (h : Holder) : Bridge σ Amount := L.sweepDust k.config h

end Keeper

end DualDenom
