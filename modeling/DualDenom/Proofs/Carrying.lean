import DualDenom.Proofs.Movement
import DualDenom.Ledger.Recorded

/-!
# Ledgers that carry a book

A ledger carries a book when its calls are carried out on the book, or refused
without a change; what it answers to questions is left open. It mirrors the
book when it refuses nothing by itself and answers as the book does. The book
with a record of its calls mirrors the book; with any other listing of what
may be spent it still carries it.
-/

namespace DualDenom

open DualDenom.Action Figures

namespace Ledger

/-- The calls of a ledger go to a book, or are refused and leave it as it is. -/
structure Carries (L : Ledger σ) (book : σ → Book) : Prop where
  submit : ∀ {call s x t}, (L.submit call).Gives s x t →
    (Book.submit call).Gives (book s) x (book t) ∨ (∃ e, x = .error e) ∧ book t = book s

structure Mirrors (L : Ledger σ) (book : σ → Book) : Prop where
  submit : ∀ {call s x t}, (L.submit call).Gives s x t → (Book.submit call).Gives (book s) x (book t)
  spendableCoins : ∀ s a, L.spendableCoins s a = .ok ((book s).spendableCoins a)
  moduleAddress : ∀ s name, L.moduleAddress s name = (book s).moduleAddress name

variable {L : Ledger σ} {book : σ → Book} {cl : Call}

theorem Carries.call_ok (hL : L.Carries book) (h : (L.call cl).Gives s (.ok ()) t) :
    ∃ m, (book s).movement cl = .ok m ∧ (book s).Posted (m.figures cl.coins) (book t) := by
  rcases hL.submit (gives_mapError_ok.mp h) with h | ⟨⟨e, ⟨⟩⟩, -⟩
  obtain ⟨m, hm, h⟩ := Book.submit_ok.mp h
  exact ⟨m, hm, Movement.carryOut_posted h⟩

namespace Mirrors

theorem carries (hL : L.Mirrors book) : L.Carries book := ⟨fun h => .inl (hL.submit h)⟩

theorem spendableAmount (hL : L.Mirrors book) (s : σ) (a : Address) (d : Denom) :
    L.spendableAmount s a d = .ok ((book s).spendable a d) := by
  rw [Ledger.spendableAmount, hL.spendableCoins]
  exact Book.spendableAmount_eq (book s) a d

theorem holderAddress (hL : L.Mirrors book) (s : σ) (hd : Holder) :
    L.holderAddress s hd = (book s).addressOf hd := by
  cases hd with
  | account a => rfl
  | escrow name => exact hL.moduleAddress s name

theorem submit_gives (hL : L.Mirrors book) (h : (Book.submit cl).Gives (book s) x b') :
    ∃ t, (L.submit cl).Gives s x t ∧ book t = b' := by
  have hrun := gives_run (L.submit cl) s
  obtain ⟨hx, ht⟩ := (hL.submit hrun).unique h
  rw [hx] at hrun
  exact ⟨_, hrun, ht⟩

end Mirrors

end Ledger

namespace Book

def ledgerListing (listing : Recorded Book → Address → Except LedgerError Coins) :
    Ledger (Recorded Book) := { ledger.recorded with spendableCoins := listing }

theorem carries_ledgerListing (listing : Recorded Book → Address → Except LedgerError Coins) :
    (ledgerListing listing).Carries (·.ledger) where
  submit := by
    rintro call ⟨b, calls⟩ x ⟨b', calls'⟩ h
    exact .inl ⟨h.1, congrArg Recorded.ledger h.2⟩

theorem mirrors_recorded : ledger.recorded.Mirrors (·.ledger) where
  submit := by
    rintro call ⟨b, calls⟩ x ⟨b', calls'⟩ h
    exact ⟨h.1, congrArg Recorded.ledger h.2⟩
  spendableCoins _ _ := rfl
  moduleAddress _ _ := rfl

end Book

end DualDenom
