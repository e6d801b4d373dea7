import DualDenom.Keeper

/-!
# Requests

What can be asked of a keeper, of the conversions and of a ledger, as data,
and what is replied. Each kind of request is performed on any ledger.
-/

namespace DualDenom

inductive Reply
  | done
  | coin (coin : Coin)
  | coins (coins : Coins)
  | parts (parts : BalanceParts)
  | amount (amount : Amount)
  | address (address : Address)
  | config (config : Config)
  | calls (calls : List Call)
  | counts (total mint burn : Nat)
  | text (text : String)
  deriving DecidableEq

inductive KeeperRequest
  | balance (address : Address) (denom : Denom)
  | balanceParts (address : Address)
  | spendableCoins (address : Address)
  | checkSendEnabled (coins : Coins)
  | mintCoins (name : ModuleName) (coins : Coins)
  | burnCoins (name : ModuleName) (coins : Coins)
  | accountToModule (sender : Address) (name : ModuleName) (coins : Coins)
  | moduleToAccount (name : ModuleName) (recipient : Address) (coins : Coins)
  | sendCoins (source target : Address) (coins : Coins)
  | sweep (holder : Holder)
  | config
  deriving DecidableEq

inductive ConversionRequest
  | convert (holder : Holder) (units : Amount) (direction : Direction)
  | topUp (holder : Holder) (required : Amount)
  | sweepDust (holder : Holder)
  deriving DecidableEq

inductive LedgerRequest
  | holderAddress (holder : Holder)
  | spendableCoins (address : Address)
  | spendableAmount (address : Address) (denom : Denom)
  | checkSendEnabled (coins : Coins)
  | moduleAddress (name : ModuleName)
  | call (call : Call)
  deriving DecidableEq

variable {ε σ : Type}

def Action.thenDone (m : Action ε σ Unit) : Action ε σ Reply := do
  m
  pure .done

def Keeper.perform (k : Keeper) (L : Ledger σ) : KeeperRequest → Bridge σ Reply
  | .balance a d => return .coin (← k.balance L a d)
  | .balanceParts a => return .parts (← k.balanceParts L a)
  | .spendableCoins a => return .coins (← k.spendableCoins L a)
  | .checkSendEnabled cs => (k.checkSendEnabled L cs).thenDone
  | .mintCoins name cs => (k.mintCoins L name cs).thenDone
  | .burnCoins name cs => (k.burnCoins L name cs).thenDone
  | .accountToModule sender name cs => (k.accountToModule L sender name cs).thenDone
  | .moduleToAccount name recipient cs => (k.moduleToAccount L name recipient cs).thenDone
  | .sendCoins source target cs => (k.sendCoins L source target cs).thenDone
  | .sweep h => return .amount (← k.sweep L h)
  | .config => return .config k.config

namespace Ledger

def performConversion (L : Ledger σ) (c : Config) : ConversionRequest → Bridge σ Reply
  | .convert h units d => (L.convert c h units d).thenDone
  | .topUp h required => return .amount (← L.topUp c h required)
  | .sweepDust h => return .amount (← L.sweepDust c h)

def perform (L : Ledger σ) : LedgerRequest → Action LedgerError σ Reply
  | .holderAddress h => return .address (← .query (L.holderAddress · h))
  | .spendableCoins a => return .coins (← .query (L.spendableCoins · a))
  | .spendableAmount a d => return .amount (← .query (L.spendableAmount · a d))
  | .checkSendEnabled cs => (Action.query (L.checkSendEnabled · cs)).thenDone
  | .moduleAddress name => return .address (← .query (L.moduleAddress · name))
  | .call c => (L.submit c).thenDone

end Ledger

end DualDenom
