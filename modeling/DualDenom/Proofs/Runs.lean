import DualDenom.Request
import DualDenom.Proofs.ConversionLaws

/-!
# Runs of operations

A run takes turns at a recorded book. Each turn is one operation of a keeper,
or one conversion under its configuration, while the ledger lists as spendable
whatever the turn says. A turn that fails leaves the book as it was; the calls
that it made stay on record. A property of books that every turn keeps holds
at every moment of a run (`play_keeps`).
-/

namespace DualDenom

open DualDenom.Action

inductive Operation
  | keeper (request : KeeperRequest)
  | conversion (request : ConversionRequest)
  deriving DecidableEq

def Keeper.operate (k : Keeper) (L : Ledger σ) : Operation → Bridge σ Reply
  | .keeper r => k.perform L r
  | .conversion r => L.performConversion k.config r

theorem Action.gives_thenDone_ok {m : Action ε σ Unit} :
    m.thenDone.Gives s (.ok reply) t ↔ m.Gives s (.ok ()) t ∧ reply = .done := by
  simp only [thenDone, gives_bind_ok, gives_pure, Except.ok.injEq]
  constructor
  · rintro ⟨_, _, h, rfl, rfl⟩
    exact ⟨h, rfl⟩
  · rintro ⟨h, rfl⟩
    exact ⟨(), t, h, rfl, rfl⟩

theorem Action.gives_thenDone_error {m : Action ε σ Unit} :
    m.thenDone.Gives s (.error e) t ↔ m.Gives s (.error e) t := by
  rw [thenDone, gives_bind_error]
  constructor
  · rintro (h | ⟨_, _, -, h⟩)
    · exact h
    · cases (gives_pure.mp h).1
  · exact .inl

/-- An operation, and what the ledger lists as spendable meanwhile. -/
structure Turn where
  listing : Recorded Book → Address → Except LedgerError Coins
  operation : Operation

structure Moment where
  operation : Operation
  answer : Except BridgeError Reply
  state : Recorded Book

namespace Keeper

def take (k : Keeper) (t : Turn) (r : Recorded Book) : Moment :=
  let out := (k.operate (Book.ledgerListing t.listing) t.operation).run r
  { operation := t.operation
    answer := out.answer
    state := match out.answer with
      | .ok _ => out.state
      | .error _ => { out.state with ledger := r.ledger } }

def play (k : Keeper) : List Turn → Recorded Book → List Moment × Recorded Book
  | [], r => ([], r)
  | t :: rest, r =>
    let moment := k.take t r
    let (moments, last) := k.play rest moment.state
    (moment :: moments, last)

variable {k : Keeper} {t : Turn} {turns : List Turn} {r : Recorded Book}

theorem take_ok (h : (k.take t r).answer = .ok reply) :
    (k.operate (Book.ledgerListing t.listing) t.operation).Gives r (.ok reply) (k.take t r).state := by
  have h' : ((k.operate (Book.ledgerListing t.listing) t.operation).run r).answer = .ok reply := h
  refine ⟨h', ?_⟩
  simp only [take, h']

theorem take_error (h : (k.take t r).answer = .error e) : (k.take t r).state.ledger = r.ledger := by
  have h' : ((k.operate (Book.ledgerListing t.listing) t.operation).run r).answer = .error e := h
  simp only [take, h']

theorem play_keeps {P : Book → Prop}
    (hstep : ∀ t ∈ turns, ∀ r, P r.ledger → P (k.take t r).state.ledger) (h : P r.ledger) :
    ∀ m ∈ (k.play turns r).1, P m.state.ledger := by
  induction turns generalizing r with
  | nil => exact fun _ hm => absurd hm List.not_mem_nil
  | cons t rest ih =>
    have ht := hstep t List.mem_cons_self r h
    intro m hm
    rcases List.mem_cons.mp hm with rfl | hm
    · exact ht
    · exact ih (fun t' ht' => hstep t' (List.mem_cons_of_mem _ ht')) ht m hm

theorem play_ends {P : Book → Prop}
    (hstep : ∀ t ∈ turns, ∀ r, P r.ledger → P (k.take t r).state.ledger) (h : P r.ledger) :
    P (k.play turns r).2.ledger := by
  induction turns generalizing r with
  | nil => exact h
  | cons t rest ih =>
    exact ih (fun t' ht' => hstep t' (List.mem_cons_of_mem _ ht')) (hstep t List.mem_cons_self r h)

end Keeper

end DualDenom
