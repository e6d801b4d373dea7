import DualDenom.Book
import DualDenom.Ledger.Recorded
import DualDenom.Ledger.Staged
import DualDenom.Request

/-!
# Sessions

A session is a keeper on a book that is recorded and staged, with copies of
the book under names. It takes steps one after the other. A step that fails
leaves what it did before it failed, unless it is atomic: then the book is put
back, but not the record of calls, and what was arranged for the ledger stays
as it is too.
-/

namespace DualDenom

open Std (TreeMap)

/-- Requests to the book and its record. A configuration that is left out is the
keeper's. -/
inductive BookRequest
  | addModule (name : ModuleName) (permissions : List Permission)
  | fund (address : Address) (coins : Coins)
  | lock (address : Address) (coin : Coin)
  | block (address : Address)
  | disableSend (denom : Denom)
  | balance (address : Address) (denom : Denom)
  | moduleBalance (name : ModuleName) (denom : Denom)
  | supply (denom : Denom)
  | totalValue (addresses : List Address) (config : Option Config)
  | supplyValue (config : Option Config)
  | calls
  | callCounts
  | clearCalls
  | summary
  | snapshot (slot : String)
  | restore (slot : String)

inductive StageRequest
  | refuse (refusal : Refusal)
  | refuseNothing
  | arrange (address : Address) (answer : Except LedgerError Coins)
  | arrangeNothing (address : Address)

inductive Request
  | keeper (request : KeeperRequest)
  | conversion (config : Option Config) (request : ConversionRequest)
  | ledger (request : LedgerRequest)
  | book (request : BookRequest)
  | stage (request : StageRequest)

inductive Failure
  | bridge (error : BridgeError)
  | ledger (error : LedgerError)
  deriving DecidableEq

abbrev World := Staged (Recorded Book)

def worldLedger : Ledger World := Book.ledger.recorded.staged

structure Session where
  keeper : Keeper
  world : World
  slots : TreeMap String Book

namespace Session

def start (k : Keeper) (modules : List (ModuleName × List Permission)) : Session where
  keeper := k
  world := .start (.start (modules.foldl (fun b m => b.addModule m.1 m.2) .empty))
  slots := ∅

def book (s : Session) : Book := s.world.ledger.ledger

def calls (s : Session) : List Call := s.world.ledger.calls

def setRecorded (r : Recorded Book) (s : Session) : Session :=
  { s with world := { s.world with ledger := r } }

def setBook (b : Book) (s : Session) : Session := s.setRecorded { s.world.ledger with ledger := b }

def setCalls (cs : List Call) (s : Session) : Session :=
  s.setRecorded { s.world.ledger with calls := cs }

def setWorld (w : World) (s : Session) : Session := { s with world := w }

abbrev Play := Action Failure Session

def onWorld {α : Type} (m : Bridge World α) : Play α := (m.mapError .bridge).within world setWorld

def onBook {α : Type} (m : Book.Change α) : Play α := (m.mapError .ledger).within book setBook

def tell (f : Session → Reply) : Play Reply := .query fun s => .ok (f s)

def change (f : Session → Session) : Play Reply := (Action.modify f).thenDone

def performBook (k : Keeper) : BookRequest → Play Reply
  | .addModule name permissions => do
    Action.modify fun s => s.setBook (s.book.addModule name permissions)
    pure (.address (ModuleAccount.named name permissions).address)
  | .fund a cs => (onBook (Book.fund a cs)).thenDone
  | .lock a c => change fun s => s.setBook (s.book.lock a c)
  | .block a => change fun s => s.setBook (s.book.block a)
  | .disableSend d => change fun s => s.setBook (s.book.disableSend d)
  | .balance a d => tell fun s => .amount (s.book.balance a d)
  | .moduleBalance name d => do
    let a ← onBook (.query (·.moduleAddress name))
    tell fun s => .amount (s.book.balance a d)
  | .supply d => tell fun s => .amount (s.book.supply d)
  | .totalValue as c => .query fun s =>
    ((s.book.totalValue (c.getD k.config) as).map .amount).mapError fun o => .bridge (.overflow o)
  | .supplyValue c => .query fun s =>
    ((s.book.supplyValue (c.getD k.config)).map .amount).mapError fun o => .bridge (.overflow o)
  | .calls => tell fun s => .calls s.calls
  | .callCounts => tell fun s =>
    .counts s.calls.length (s.calls.countP Call.isMint) (s.calls.countP Call.isBurn)
  | .clearCalls => change (setCalls [])
  | .summary => tell fun s => .text s.world.ledger.summary
  | .snapshot slot => change fun s => { s with slots := s.slots.insert slot s.book }
  | .restore slot => change fun s => match s.slots[slot]? with
    | some b => s.setBook b
    | none => s

def performStage (r : StageRequest) : Play Reply := change fun s => s.setWorld <| match r with
  | .refuse refusal => { s.world with refusal := some refusal }
  | .refuseNothing => { s.world with refusal := none }
  | .arrange a answer => { s.world with spendable := s.world.spendable.insert a answer }
  | .arrangeNothing a => { s.world with spendable := s.world.spendable.erase a }

def perform (k : Keeper) : Request → Play Reply
  | .keeper r => onWorld (k.perform worldLedger r)
  | .conversion c r => onWorld (worldLedger.performConversion (c.getD k.config) r)
  | .ledger r => ((worldLedger.perform r).mapError .ledger).within world setWorld
  | .book r => performBook k r
  | .stage r => performStage r

structure Step where
  request : Request
  atomic : Bool

structure Watch where
  addresses : List Address
  denoms : List Denom

/-- What came of a step: the reply, the calls that it made, the watched balances and
supplies after it without those of zero, and the events of the step. -/
structure Report where
  answer : Except Failure Reply
  calls : List Call
  balances : List (Address × Denom × Amount)
  supplies : List (Denom × Amount)
  events : List Event

def watchedBalances (s : Session) (w : Watch) : List (Address × Denom × Amount) :=
  (w.addresses.flatMap fun a => w.denoms.map fun d => (a, d, s.book.balance a d)).filter
    fun entry => !entry.2.2.isZero

def watchedSupplies (s : Session) (w : Watch) : List (Denom × Amount) :=
  (w.denoms.map fun d => (d, s.book.supply d)).filter fun entry => !entry.2.isZero

/-- The session after a request. An atomic one that failed leaves the book of `s`. -/
def settle (s : Session) (step : Step) (out : Outcome Failure Session Reply) : Session :=
  match out.answer with
  | .ok _ => out.state
  | .error _ => if step.atomic then out.state.setBook s.book else out.state

def take (w : Watch) (s : Session) (step : Step) : Report × Session :=
  let out := (perform s.keeper step.request).run s
  let next := s.settle step out
  ({ answer := out.answer
     calls := next.calls.drop s.calls.length
     balances := next.watchedBalances w
     supplies := next.watchedSupplies w
     events := out.events }, next)

def play (w : Watch) : List Step → Session → List Report × Session
  | [], s => ([], s)
  | step :: rest, s =>
    let (report, next) := s.take w step
    let (reports, last) := play w rest next
    (report :: reports, last)

end Session

end DualDenom
