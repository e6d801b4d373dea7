import DualDenom.Session
import DualDenom.Proofs.Carrying
import DualDenom.Proofs.Traces

/-!
# The books of a session

A session has a book, and copies of it under names. While a request is carried
out its calls meet the book in other states; all of them are books of the run
(`books`), whatever failed and whether it was put back. Calls lead only where
every single call goes (`perform_kept`). A property that calls, funding and
administration keep therefore holds of all books of a run if it holds of the
first one (`books_keep`).
-/

namespace DualDenom

open DualDenom.Action

/-- No call leads from a book to one outside of the relation, done or stopped. -/
structure Book.KeptByCalls (R : Book → Book → Prop) : Prop where
  refl : ∀ b, R b b
  trans : ∀ b b' b'', R b b' → R b' b'' → R b b''
  submit : ∀ cl ⦃b x b'⦄, (Book.submit cl).Gives b x b' → R b b'

structure Book.Administered (P : Book → Prop) : Prop where
  addModule : ∀ {b} name permissions, P b → P (b.addModule name permissions)
  lock : ∀ {b} a c, P b → P (b.lock a c)
  block : ∀ {b} a, P b → P (b.block a)
  disableSend : ∀ {b} d, P b → P (b.disableSend d)

namespace Session

variable {s : Session} {k : Keeper} {P : Book → Prop} {R : Book → Book → Prop}

/-- The books that the calls of an action meet in the session's world. -/
def metBy (s : Session) (m : Action ε (Traced World) Reply) : List Book :=
  (m.run ⟨s.world, []⟩).state.trace.map (·.before.ledger.ledger)

def met (k : Keeper) (s : Session) : Request → List Book
  | .keeper q => s.metBy (k.perform worldLedger.traced q)
  | .conversion c q => s.metBy (worldLedger.traced.performConversion (c.getD k.config) q)
  | .ledger q => s.metBy (worldLedger.traced.perform q)
  | _ => []

/-- All books of a run: what each step meets, what its request leaves, and what is left when
the step is settled. -/
def books (w : Watch) : List Step → Session → List Book
  | [], s => [s.book]
  | step :: rest, s =>
    s.book :: s.met s.keeper step.request ++
      ((perform s.keeper step.request).run s).state.book :: books w rest (s.take w step).2

theorem mem_books_cons : b ∈ books w (step :: rest) s ↔
    b = s.book ∨ b ∈ s.met s.keeper step.request ∨
      b = ((perform s.keeper step.request).run s).state.book ∨ b ∈ books w rest (s.take w step).2 := by
  simp only [books, List.cons_append, List.mem_cons, List.mem_append]

theorem play_mem_books (w : Watch) (steps : List Step) (s : Session) :
    (play w steps s).2.book ∈ books w steps s := by
  induction steps generalizing s with
  | nil => exact List.mem_cons_self
  | cons step rest ih => exact mem_books_cons.mpr (.inr (.inr (.inr (ih _))))

theorem onWorld_kept (hR : Book.KeptByCalls R) {m' : Action ε (Traced World) Reply}
    {m : Action ε World Reply} (hm : Shadows (·.ledger) m' m) (h : m'.Takes worldLedger.tracing) :
    R s.book (m.run s.world).state.ledger.ledger ∧ ∀ b ∈ s.metBy m', R s.book b := by
  obtain ⟨later, htrace, hlead⟩ := h (gives_run m' ⟨s.world, []⟩)
  have hstate : (m.run s.world).state = (m'.run ⟨s.world, []⟩).state.ledger :=
    (hm.gives (gives_run m' ⟨s.world, []⟩)).2
  have hsubmit : ∀ cl ⦃t x t'⦄, (worldLedger.submit cl).Gives t x t' →
      R t.ledger.ledger t'.ledger.ledger := by
    intro cl t x t' hcl
    rcases Ledger.staged_submit hcl with hcl | ⟨-, ht⟩
    · exact hR.submit cl (Book.mirrors_recorded.submit hcl)
    · exact ht ▸ hR.refl t.ledger.ledger
  obtain ⟨hend, hmet⟩ := hlead.always (R := fun t t' => R t.ledger.ledger t'.ledger.ledger)
    (fun t => hR.refl t.ledger.ledger) (fun _ _ _ => hR.trans _ _ _) hsubmit
  refine ⟨by rw [hstate]; exact hend, fun b hb => ?_⟩
  rw [metBy, htrace] at hb
  obtain ⟨made, hmem, rfl⟩ := List.mem_map.mp hb
  exact hmet made hmem

theorem perform_kept (hR : Book.KeptByCalls R) {q : Request}
    (hbook : ∀ q', q = .book q' → R s.book ((performBook k q').run s).state.book) :
    R s.book ((perform k q).run s).state.book ∧ ∀ b ∈ s.met k q, R s.book b := by
  have hL := worldLedger.traced_shadows
  cases q with
  | keeper q =>
    exact onWorld_kept hR (hL.perform k q) (Keeper.perform_takes_of_calls worldLedger.traced_takes q)
  | conversion c q =>
    exact onWorld_kept hR (hL.performConversion _ q)
      (Ledger.performConversion_takes worldLedger.traced_takes q)
  | ledger q =>
    exact onWorld_kept hR (hL.performDirect q)
      (Ledger.perform_takes worldLedger.traced_submit_takes q)
  | book q => exact ⟨hbook q rfl, nofun⟩
  | stage q => cases q <;> exact ⟨hR.refl _, nofun⟩

structure Throughout (P : Book → Prop) (s : Session) : Prop where
  book : P s.book
  slots : ∀ (slot : String) (b : Book), s.slots[slot]? = some b → P b

theorem Throughout.setBook (hs : s.Throughout P) (hb : P b) : (s.setBook b).Throughout P :=
  ⟨hb, hs.slots⟩

theorem start_throughout (hP : Book.Administered P) (h : P .empty) (k : Keeper)
    (modules : List (ModuleName × List Permission)) : (start k modules).Throughout P where
  book := by
    show P (modules.foldl (fun b m => b.addModule m.1 m.2) Book.empty)
    exact List.foldlRecOn modules _ h fun b hb m _ => hP.addModule m.1 m.2 hb
  slots _ _ h := by simp [start] at h

theorem change_state (f : Session → Session) (s : Session) : ((change f).run s).state = f s := rfl

theorem fund_state (a : Address) (cs : Coins) : ((performBook k (.fund a cs)).run s).state =
    s.setBook ((Book.fund a cs).run s.book).state := thenDone_state ..

@[simp] theorem setBook_book (s : Session) : s.setBook s.book = s := rfl

theorem moduleBalance_state (name : ModuleName) (d : Denom) :
    ((performBook k (.moduleBalance name d)).run s).state = s := by
  rw [performBook, run_bind]
  cases hm : s.book.moduleAddress name <;> simp [onBook, hm, Except.mapError, tell]

theorem performBook_throughout (hP : Book.Administered P) (hs : s.Throughout P) {q : BookRequest}
    (hfund : ∀ a cs, q = .fund a cs → P ((Book.fund a cs).run s.book).state) :
    ((performBook k q).run s).state.Throughout P := by
  cases q with
  | addModule name ps => exact hs.setBook (hP.addModule name ps hs.book)
  | fund a cs =>
    rw [fund_state]
    exact hs.setBook (hfund a cs rfl)
  | lock a c => exact hs.setBook (hP.lock a c hs.book)
  | block a => exact hs.setBook (hP.block a hs.book)
  | disableSend d => exact hs.setBook (hP.disableSend d hs.book)
  | moduleBalance name d =>
    rw [moduleBalance_state]
    exact hs
  | clearCalls => exact ⟨hs.book, hs.slots⟩
  | snapshot slot =>
    refine ⟨hs.book, fun slot' b hb => ?_⟩
    have hget : (s.slots.insert slot s.book)[slot']? = some b := hb
    rw [Std.TreeMap.getElem?_insert] at hget
    split at hget
    · exact Option.some.inj hget ▸ hs.book
    · exact hs.slots slot' b hget
  | restore slot =>
    rw [performBook, change_state]
    split
    · rename_i b hb
      exact hs.setBook (hs.slots slot b hb)
    · exact hs
  | _ => exact hs

theorem settle_eq (s : Session) (step : Step) (out : Outcome Failure Session Reply) :
    s.settle step out = out.state ∨ s.settle step out = out.state.setBook s.book := by
  unfold settle
  split
  · exact .inl rfl
  · split
    · exact .inr rfl
    · exact .inl rfl

theorem Throughout.settle (hs : s.Throughout P) {out : Outcome Failure Session Reply}
    (ho : out.state.Throughout P) (step : Step) : (s.settle step out).Throughout P := by
  rcases s.settle_eq step out with h | h <;> rw [h]
  · exact ho
  · exact ho.setBook hs.book

section

variable (hP : Book.Administered P)
  (hcalls : ∀ cl, (Book.submit cl).Takes (Course.keeping P : Course LedgerError Book))
  (hfund : ∀ a cs, (Book.fund a cs).Takes (Course.keeping P : Course LedgerError Book))

include hP hcalls hfund

theorem perform_throughout (hs : s.Throughout P) (q : Request) :
    ((perform k q).run s).state.Throughout P ∧ ∀ b ∈ s.met k q, P b := by
  have hR : Book.KeptByCalls fun b b' => P b → P b' :=
    ⟨fun _ => id, fun _ _ _ h h' => h' ∘ h, fun cl _ _ _ h => hcalls cl h⟩
  -- Requests to the book may replace it and its copies, the others make calls only.
  have hbook : ∀ q', ((performBook k q').run s).state.Throughout P := fun q' =>
    performBook_throughout hP hs fun a cs _ => hfund a cs (gives_run ..) hs.book
  obtain ⟨hleft, hmet⟩ := perform_kept (s := s) (k := k) (q := q) hR fun q' _ _ => (hbook q').book
  refine ⟨?_, fun b hb => hmet b hb hs.book⟩
  cases q with
  | book q' => exact hbook q'
  | _ => exact ⟨hleft hs.book, hs.slots⟩

theorem books_keep (hs : s.Throughout P) (w : Watch) (steps : List Step) :
    ∀ b ∈ books w steps s, P b := by
  induction steps generalizing s with
  | nil =>
    intro b hb
    exact List.mem_singleton.mp hb ▸ hs.book
  | cons step rest ih =>
    obtain ⟨hleft, hmet⟩ := perform_throughout hP hcalls hfund (k := s.keeper) hs step.request
    intro b hb
    rcases mem_books_cons.mp hb with rfl | hb | rfl | hb
    · exact hs.book
    · exact hmet b hb
    · exact hleft.book
    · exact ih (hs.settle hleft step) b hb

end

end Session

end DualDenom
