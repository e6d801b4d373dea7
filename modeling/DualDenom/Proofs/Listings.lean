import DualDenom.Proofs.CanonicalCoins
import DualDenom.Proofs.Failures
import DualDenom.Proofs.KeeperLaws
import DualDenom.Proofs.SessionBooks

/-!
# Listings

A balance that is credited is stored whatever it is. But coins come into a book
by canonical lists only, whose amounts are positive, and a balance that is taken
down to zero is not kept. So no book of a run stores a zero, or a balance of a
malformed denom, whatever was locked and whatever failed (`Neat`). Sheets are
kept by ascending denom. What a book lists as spendable is therefore a canonical
list of exactly what balances exceed their locks by (`books_list_canonically`).
-/

namespace DualDenom

open DualDenom.Action
open Std (TreeMap)

namespace Sheet

variable {s s' : Sheet} {d : Denom}

/-- Balances are stored of a well-formed denom only, and no zeros. -/
def Neat (s : Sheet) (d : Denom) : Prop :=
  ∀ (a : Address) (n : Amount), s.balances[a]? = some n → d.wellFormed = true ∧ n.val ≠ 0

theorem Neat.setBalance {n : Amount} (hs : s.Neat d) (hd : d.wellFormed = true) (hn : n.val ≠ 0)
    (a : Address) : (s.setBalance a n).Neat d := by
  intro x m h
  simp only [Sheet.setBalance, TreeMap.getElem?_insert, Std.LawfulEqCmp.compare_eq_iff_eq] at h
  split at h
  · exact ⟨hd, Option.some.inj h ▸ hn⟩
  · exact hs x m h

theorem Neat.leaveBalance (hs : s.Neat d) (hd : d.wellFormed = true) (a : Address) (n : Amount) :
    (s.leaveBalance a n).Neat d := by
  unfold Sheet.leaveBalance
  split
  · intro x m h
    simp only [TreeMap.getElem?_erase] at h
    split at h
    · cases h
    · exact hs x m h
  · rename_i hz
    exact hs.setBalance hd (Amount.isZero_iff.not.mp hz) a

theorem Neat.balance (hs : s.Neat d) (h : (s.balance a).val ≠ 0) : d.wellFormed = true := by
  cases ha : s.balances[a]? with
  | some n => exact (hs a n ha).1
  | none => simp [Sheet.balance, TreeMap.getD_eq_getD_getElem?, ha] at h

end Sheet

namespace Book

variable {b b' : Book} {c : Coin} {cs : Coins}

def Neat (b : Book) : Prop := ∀ d, (b.sheet d).Neat d

theorem neat_empty : empty.Neat := by
  intro d a n h
  simp [sheet, empty, Sheet.empty] at h

theorem Neat.setSheet (hb : b.Neat) (hs : Sheet.Neat s d) : (b.setSheet d s).Neat := by
  intro e
  rw [sheet_setSheet]
  split
  · rename_i he
    exact he ▸ hs
  · exact hb e

theorem neat_administered : Administered Neat where
  addModule _ _ hb := hb
  lock _ c hb := hb.setSheet (hb c.denom)
  block _ hb := hb
  disableSend d hb := hb.setSheet (hb d)

def tidying : Course ε Book := .keeping Neat

theorem onSheet_takes_tidying {g : Sheet → Except LedgerError Sheet}
    (hg : ∀ s s', g s = .ok s' → s.Neat d → s'.Neat d) : (onSheet d g).Takes tidying := by
  intro b x b' h hb
  cases x with
  | ok u =>
    obtain ⟨s, hs, rfl⟩ := onSheet_ok.mp h
    exact hb.setSheet (hg _ s hs (hb d))
  | error e => exact (onSheet_error.mp h).2 ▸ hb

/-- A credit of nothing would store a zero. -/
theorem credit_takes_tidying (hc : c.denom.wellFormed = true) (hz : c.amount.val ≠ 0)
    (a : Address) : (credit a c).Takes tidying := by
  refine onSheet_takes_tidying fun s s' h hs => ?_
  obtain ⟨n, hn, rfl⟩ := map_ok.mp (mapError_ok.mp h)
  have hsum := Amount.add_eq_ok.mp hn
  exact hs.setBalance hc (by omega) a

theorem debit_takes_tidying (hc : c.denom.wellFormed = true) (a : Address) :
    (debit a c).Takes tidying := by
  refine onSheet_takes_tidying fun s s' h hs => ?_
  by_cases hle : c.amount ≤ s.spendable a
  · simp only [Sheet.debit?, if_pos hle, Except.ok.injEq] at h
    exact h ▸ hs.leaveBalance hc a _
  · simp [Sheet.debit?, if_neg hle] at h

theorem issue_takes_tidying (c : Coin) : (issue c).Takes tidying := by
  refine onSheet_takes_tidying fun s s' h hs => ?_
  obtain ⟨n, -, rfl⟩ := map_ok.mp (mapError_ok.mp h)
  exact hs

theorem retire_takes_tidying (c : Coin) : (retire c).Takes tidying := by
  refine onSheet_takes_tidying fun s s' h hs => ?_
  obtain ⟨n, -, rfl⟩ := map_ok.mp (mapError_ok.mp h)
  exact hs

theorem carryCoin_takes_tidying (m : Movement) (hcs : cs.check = .ok ()) (hc : c ∈ cs) :
    (m.carryCoin c).Takes tidying := by
  obtain ⟨hd, hz⟩ := (Coins.check_iff.mp hcs).1 c hc
  exact m.carryCoin_takes (debit_takes_tidying hd) (credit_takes_tidying hd hz)
    (issue_takes_tidying c) (retire_takes_tidying c)

theorem submit_takes_tidying (cl : Call) : (submit cl).Takes tidying :=
  submit_takes_checked fun hcs _ m _ _ hc => carryCoin_takes_tidying m hcs hc

theorem fund_takes_tidying (a : Address) (cs : Coins) : (fund a cs).Takes tidying :=
  Movement.carryOut_takes_checked (m := .create a) fun hcs _ hc =>
    carryCoin_takes_tidying _ hcs hc

theorem mem_spendableCoins : c ∈ b.spendableCoins a ↔
    c.amount = b.spendable a c.denom ∧ c.amount.val ≠ 0 := by
  rw [spendableCoins_eq, Coins.positive, List.mem_filter, List.mem_map]
  simp only [Bool.not_eq_true', Amount.isZero_eq_false]
  refine and_congr_left fun hz => ⟨?_, fun h => ⟨c.denom, ?_, h ▸ rfl⟩⟩
  · rintro ⟨d, -, rfl⟩
    rfl
  -- A denom that has no sheet is not listed, and there is nothing of it.
  · by_contra hd
    rw [spendable, sheet_of_not_mem hd] at h
    exact hz (h ▸ rfl)

theorem spendableCoins_ascending (b : Book) (a : Address) :
    Coins.Ascending (b.spendableCoins a) := by
  have hkeys : b.sheets.keys.Pairwise fun d d' => compare d d' = .lt := TreeMap.ordered_keys
  rw [spendableCoins_eq]
  refine List.Pairwise.filter _ (List.pairwise_map.mpr (hkeys.imp fun h => ?_))
  exact compareOfLessAndEq_eq_lt.mp h

structure ListsCanonically (b : Book) (a : Address) : Prop where
  listing : ∃ cs, ledger.spendableCoins b a = .ok cs ∧ cs.check = .ok () ∧
    ∀ c, c ∈ cs ↔ b.locked a c.denom < b.balance a c.denom ∧
      c.amount.val = (b.balance a c.denom).val - (b.locked a c.denom).val
  amount : ∀ d, ledger.spendableAmount b a d = .ok ((b.balance a d).subSat (b.locked a d))
  stored : ∀ d n, (b.sheet d).balances[a]? = some n → n.val ≠ 0

theorem Neat.listsCanonically (hb : b.Neat) (a : Address) : b.ListsCanonically a where
  listing := by
    refine ⟨_, rfl, Coins.check_iff.mpr ⟨fun c hc => ?_, b.spendableCoins_ascending a⟩, fun c => ?_⟩
    · obtain ⟨h, hz⟩ := mem_spendableCoins.mp hc
      have hbal : (b.balance a c.denom).val ≠ 0 := by
        rw [h, spendable_val] at hz
        omega
      exact ⟨(hb c.denom).balance hbal, hz⟩
    · rw [mem_spendableCoins, Amount.ext_iff, spendable_val, Amount.lt_def]
      omega
  amount d := spendableAmount_eq b a d
  stored d n h := (hb d a n h).2

end Book

/-- In every book of a run, whatever failed in it and whatever was locked or put back. -/
theorem Session.books_list_canonically (k : Keeper)
    (modules : List (ModuleName × List Permission)) (w : Watch) (steps : List Step) :
    ∀ b ∈ books w steps (start k modules), ∀ a, b.ListsCanonically a := by
  have hstart := start_throughout Book.neat_administered Book.neat_empty k modules
  intro b hb a
  have hneat : b.Neat := books_keep Book.neat_administered Book.submit_takes_tidying
    Book.fund_takes_tidying hstart w steps b hb
  exact hneat.listsCanonically a

theorem Session.books_list_canonically_small :
    let s := start Keeper.standard [("evm", [.minter, .burner])]
    let steps : List Step :=
      [⟨.book (.fund "alice" [⟨"aorai", .clamp 3⟩, ⟨"orai", .clamp 5⟩, ⟨"uatom", .clamp 7⟩]), false⟩,
        ⟨.book (.lock "alice" ⟨"7", .clamp 9⟩), false⟩,
        ⟨.book (.fund "alice" [⟨"7", .clamp 9⟩]), false⟩,
        ⟨.book (.fund "alice" [⟨"ubtc", .zero⟩]), false⟩,
        ⟨.book (.lock "alice" ⟨"orai", .clamp 4⟩), false⟩,
        ⟨.ledger (.call (.send "alice" "bob" [⟨"aorai", .clamp 3⟩, ⟨"orai", .clamp 2⟩])), false⟩,
        ⟨.stage (.refuse ⟨3, "down"⟩), false⟩,
        ⟨.conversion none (.convert (.account "alice") .one .cosmosToEvm), true⟩]
    ∃ b ∈ books ⟨[], []⟩ steps s, b.spendableCoins "alice" = [⟨"orai", .one⟩, ⟨"uatom", .clamp 7⟩] ∧
      b.ListsCanonically "alice" := by
  intro s steps
  have hlast := play_mem_books ⟨[], []⟩ steps s
  exact ⟨_, hlast, by decide +kernel, books_list_canonically .standard _ _ steps _ hlast "alice"⟩

end DualDenom
