import DualDenom.Amount
import DualDenom.Denom

/-!
# Coins and coin lists

A coin is an amount of one denom. A coin list is canonical when its denoms are
well-formed, its amounts positive and its denoms strictly ascending.
`Coins.defect?` finds the first reason why a list is not. A coin of amount
zero carries no value: `Coins.positive` drops such coins.
-/

namespace DualDenom

structure Coin where
  denom : Denom
  amount : Amount
  deriving DecidableEq

abbrev Coins := List Coin

inductive CoinDefect
  | malformedDenom (denom : Denom)
  | zeroAmount (denom : Denom)
  | duplicate (denom : Denom)
  | descending (first next : Denom)
  deriving DecidableEq

def Denom.check (d : Denom) : Except CoinDefect Unit :=
  if d.wellFormed then .ok () else .error (.malformedDenom d)

/-- A malformed denom counts before a zero amount. -/
def Coin.defect? (c : Coin) : Option CoinDefect :=
  if !c.denom.wellFormed then some (.malformedDenom c.denom)
  else if c.amount.isZero then some (.zeroAmount c.denom)
  else none

namespace Coins

def orderDefect? : Coins → Option CoinDefect
  | a :: b :: rest =>
    if a.denom = b.denom then some (.duplicate a.denom)
    else if b.denom < a.denom then some (.descending a.denom b.denom)
    else orderDefect? (b :: rest)
  | _ => none

/-- Defects of single coins count before those of their order. -/
def defect? (cs : Coins) : Option CoinDefect :=
  (cs.findSome? Coin.defect?).or (orderDefect? cs)

def check (cs : Coins) : Except CoinDefect Unit :=
  match cs.defect? with
  | some d => .error d
  | none => .ok ()

/-- The coins with something in them, in their order. -/
def positive (cs : Coins) : Coins := cs.filter fun c => !c.amount.isZero

/-- What the list holds of one denom, stopping at the largest amount. -/
def amountOf (cs : Coins) (d : Denom) : Amount :=
  (cs.filter fun c => c.denom = d).foldl (fun sum c => sum.addSat c.amount) .zero

end Coins

def CoinDefect.message : CoinDefect → String
  | .malformedDenom denom => s!"Invalid denom: {denom}"
  | .zeroAmount denom => s!"Coin {denom} amount is not positive"
  | .duplicate denom => s!"Duplicate denomination {denom}"
  | .descending first next => s!"Coins are not sorted: {first} must come after {next}"

end DualDenom
