import DualDenom.Proofs.Failures
import DualDenom.Proofs.KeeperLaws
import DualDenom.Proofs.SessionBooks

/-!
# Locks

A lock may be larger than the balance. Its overhang is what the balance lacks of
it: coins that come in fill it first, and nobody pays from under a lock, so no
change of a book makes it grow, nor does one that is stopped half way
(`submit_takes_guarding`). As long as a session sets no lock and puts back no
copy, what was locked of a balance at the start is therefore there at every
point of the run, all of it or as much as the balance had (`play_keeps_locked`).
-/

namespace DualDenom

open DualDenom.Action Figures

namespace Book

variable {b b' b'' : Book}

/-- What the balance lacks of the locked amount. -/
def overhang (b : Book) (a : Address) (d : Denom) : Nat := (b.locked a d).val - (b.balance a d).val

/-- The locks are the same, and none hangs over further. -/
structure Guards (b b' : Book) : Prop where
  locked : ∀ a d, b'.locked a d = b.locked a d
  overhang : ∀ a d, b'.overhang a d ≤ b.overhang a d

theorem Guards.refl (b : Book) : b.Guards b := ⟨fun _ _ => rfl, fun _ _ => le_rfl⟩

theorem Guards.trans (h : b.Guards b') (h' : b'.Guards b'') : b.Guards b'' where
  locked a d := (h'.locked a d).trans (h.locked a d)
  overhang a d := (h'.overhang a d).trans (h.overhang a d)

theorem Guards.min_le (h : b.Guards b') (a : Address) (d : Denom) :
    min (b.balance a d).val (b.locked a d).val ≤ (b'.balance a d).val := by
  have hover := h.overhang a d
  rw [Book.overhang, Book.overhang, h.locked] at hover
  omega

theorem Posted.guards (hp : b.Posted f b') (hf : ∀ a d, 0 ≤ f.balance a d) : b.Guards b' where
  locked := hp.settings.locked
  overhang a d := by
    have hbal := hp.balance a d
    have hpos := hf a d
    rw [Book.overhang, Book.overhang, hp.settings.locked]
    omega

def guarding : Course ε Book := .always Guards Guards.refl fun _ _ _ => Guards.trans

theorem credit_takes (a : Address) (coin : Coin) : (credit a coin).Takes guarding := by
  intro b x b' h
  cases x with
  | ok u =>
    refine (credit_posted h).guards fun y d => ?_
    rw [balance_inHand]
    split_ifs <;> omega
  | error e => exact (credit_error h).2 ▸ Guards.refl b

/-- Who pays has something that is not locked, and pays from that. -/
theorem debit_takes (a : Address) (coin : Coin) : (debit a coin).Takes guarding := by
  intro b x b' h
  cases x with
  | error e => exact (debit_error h).2 ▸ Guards.refl b
  | ok u =>
    have hp := debit_posted h
    have hle : coin.amount.val ≤ (b.spendable a coin.denom).val := by
      by_contra hgt
      cases (h.unique (debit_fails (Nat.not_le.mp hgt))).1
    rw [spendable_val] at hle
    refine ⟨hp.settings.locked, fun y d => ?_⟩
    have hbal := hp.balance y d
    rw [overhang, overhang, hp.settings.locked]
    by_cases hy : y = a ∧ d = coin.denom
    · obtain ⟨rfl, rfl⟩ := hy
      simp only [balance_neg, balance_inHand, and_self, if_true] at hbal
      omega
    · simp only [balance_neg, balance_inHand, hy, if_false] at hbal
      omega

theorem issue_takes (coin : Coin) : (issue coin).Takes guarding := by
  intro b x b' h
  cases x with
  | ok u => exact (issue_posted h).guards fun _ _ => le_rfl
  | error e => exact (issue_error h).2 ▸ Guards.refl b

theorem retire_takes (coin : Coin) : (retire coin).Takes guarding := by
  intro b x b' h
  cases x with
  | ok u => exact (retire_posted h).guards fun _ _ => by simp
  | error e => exact (retire_error h).2 ▸ Guards.refl b

theorem carryCoin_takes_guarding (m : Movement) (coin : Coin) : (m.carryCoin coin).Takes guarding :=
  m.carryCoin_takes (debit_takes · coin) (credit_takes · coin) (issue_takes coin) (retire_takes coin)

theorem submit_takes_guarding (cl : Call) : (submit cl).Takes guarding :=
  submit_takes fun _ m _ coin _ => carryCoin_takes_guarding m coin

theorem fund_takes_guarding (a : Address) (cs : Coins) : (fund a cs).Takes guarding :=
  Movement.carryOut_takes (m := .create a) fun coin _ => carryCoin_takes_guarding _ coin

theorem guards_disableSend (b : Book) (d : Denom) : b.Guards (b.disableSend d) := by
  have hlocked : ∀ a e, (b.disableSend d).locked a e = b.locked a e := by
    intro a e
    rw [locked, disableSend, sheet_setSheet]
    split_ifs with he
    · exact he ▸ rfl
    · rfl
  have hbal : ∀ a e, (b.disableSend d).balance a e = b.balance a e := by
    intro a e
    rw [balance, disableSend, sheet_setSheet]
    split_ifs with he
    · exact he ▸ rfl
    · rfl
  exact ⟨hlocked, fun a e => by rw [overhang, overhang, hlocked, hbal]⟩

theorem guards_kept : KeptByCalls Guards :=
  ⟨.refl, fun _ _ _ => .trans, fun cl _ _ _ h => submit_takes_guarding cl h⟩

end Book

def Request.leavesLocks : Request → Bool
  | .book (.lock ..) | .book (.restore _) => false
  | _ => true

namespace Session

variable {s : Session} {k : Keeper}

theorem performBook_guards {q : BookRequest} (hq : (Request.book q).leavesLocks = true) :
    s.book.Guards ((performBook k q).run s).state.book := by
  cases q with
  | fund a cs =>
    rw [fund_state]
    exact Book.fund_takes_guarding a cs (gives_run ..)
  | disableSend d => exact s.book.guards_disableSend d
  | moduleBalance name d =>
    rw [moduleBalance_state]
    exact .refl s.book
  | lock a c => cases hq
  | restore slot => cases hq
  | _ => exact ⟨fun _ _ => rfl, fun _ _ => le_rfl⟩

theorem settle_guards {out : Outcome Failure Session Reply} (ho : s.book.Guards out.state.book)
    (step : Step) : s.book.Guards (s.settle step out).book := by
  rcases s.settle_eq step out with h | h <;> rw [h]
  · exact ho
  · exact .refl s.book

theorem books_guarded {steps : List Step} (h : ∀ step ∈ steps, step.request.leavesLocks = true)
    (w : Watch) : ∀ b ∈ books w steps s, s.book.Guards b := by
  induction steps generalizing s with
  | nil =>
    intro b hb
    rw [List.mem_singleton.mp hb]
    exact .refl _
  | cons step rest ih =>
    have hstep := h step List.mem_cons_self
    obtain ⟨hleft, hmet⟩ := perform_kept (s := s) (k := s.keeper) Book.guards_kept fun _ hq =>
      performBook_guards (hq ▸ hstep)
    have hrest := ih (s := (s.take w step).2) fun step' hmem => h step' (List.mem_cons_of_mem _ hmem)
    intro b hb
    rcases mem_books_cons.mp hb with rfl | hb | rfl | hb
    · exact .refl _
    · exact hmet b hb
    · exact hleft
    · exact (settle_guards hleft step).trans (hrest b hb)

/-- Locked funds never move: whatever fails on the way, and whether it is put back or not. -/
theorem play_keeps_locked (w : Watch) {steps : List Step} (s : Session)
    (h : ∀ step ∈ steps, step.request.leavesLocks = true) :
    ∀ b ∈ books w steps s, ∀ a d, b.locked a d = s.book.locked a d ∧
      min (s.book.balance a d).val (s.book.locked a d).val ≤ (b.balance a d).val := by
  intro b hb a d
  have hguards := books_guarded h w b hb
  exact ⟨hguards.locked a d, hguards.min_le a d⟩

theorem play_keeps_locked_small :
    let s : Session :=
      ⟨.standard, .start (.start (Book.small.lock "alice" ⟨"orai", .clamp 4⟩)), ∅⟩
    let steps : List Step :=
      [⟨.keeper (.accountToModule "alice" "fee" [⟨"aorai", .clamp 10⟩]), false⟩,
        ⟨.ledger (.call (.send "alice" "bob" [⟨"orai", .one⟩])), false⟩,
        ⟨.stage (.refuse ⟨3, "down"⟩), false⟩,
        ⟨.conversion none (.convert (.escrow "fee") .one .cosmosToEvm), true⟩]
    (books ⟨[], []⟩ steps s).length = 22 ∧
      (∀ b ∈ books ⟨[], []⟩ steps s, ∀ a d, b.locked a d = s.book.locked a d ∧
        min (s.book.balance a d).val (s.book.locked a d).val ≤ (b.balance a d).val) ∧
      s.book.balance "alice" "orai" = .clamp 5 ∧
      (play ⟨[], []⟩ steps s).2.book.balance "alice" "orai" = .clamp 4 := by
  intro s steps
  exact ⟨by decide +kernel, play_keeps_locked ⟨[], []⟩ s (by decide), by decide +kernel,
    by decide +kernel⟩

end Session

end DualDenom
