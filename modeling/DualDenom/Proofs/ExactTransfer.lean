import DualDenom.Proofs.KeeperLaws
import DualDenom.Proofs.Worth

/-!
# Exact transfers

A move of evm coins between an account and an escrow takes its amount from the
worth of one and adds it to the worth of the other, however the two legs, the
top-up and the sweeps divide it over the denoms. Coins of everyone else pass
through the conversion escrow at most, and then none of them stays there.
-/

namespace DualDenom

open DualDenom.Action Figures

/-- `n` goes from `source` to `target`, and nothing else changes but how the two hold
what they are worth. -/
structure Book.Transfers (c : Config) (source target : Address) (n : Amount) (b b' : Book) :
    Prop where
  paid : source ≠ target → b'.worth c source = b.worth c source - n.val
  received : source ≠ target → b'.worth c target = b.worth c target + n.val
  kept : source = target → b'.worth c source = b.worth c source
  others : ∀ a, a ≠ source → a ≠ target → ∀ d, b'.balance a d = b.balance a d
  foreign : ∀ d, d ≠ c.evmDenom → d ≠ c.cosmosDenom →
    (∀ a, b'.balance a d = b.balance a d) ∧ b'.supply d = b.supply d
  settings : b.SameSettings b'

namespace Book

variable {k : Keeper} {b b' : Book} {f g : Figures}

theorem Posted.worth_legs (hn : sp.merge k.config.multiplier = .ok n) (hg : Neutral k.config A g)
    (h : b.Posted (k.legFigures (.transfer source target) sp + g) b') (x : Address) :
    b'.worth k.config x = b.worth k.config x +
      ((if x = target then (n.val : Int) else 0) - if x = source then (n.val : Int) else 0) := by
  have hx : k.config.worth ((k.legFigures (.transfer source target) sp + g).balance x) =
      k.config.worth ((k.legFigures (.transfer source target) sp).balance x) +
        k.config.worth (g.balance x) := k.config.worth_add ..
  rw [h.worth, hx, hg.worth, add_zero, Keeper.worth_balance_legs hn]

theorem transfers_of_posted (hn : sp.merge k.config.multiplier = .ok n)
    (hg : Neutral k.config (fun x => x = source ∨ x = target) g)
    (h : b.Posted (k.legFigures (.transfer source target) sp + g) b') :
    b.Transfers k.config source target n b' := by
  have hworth := h.worth_legs hn hg
  constructor
  case paid =>
    intro hne
    rw [hworth, if_neg hne, if_pos rfl]
    ring
  case received =>
    intro hne
    rw [hworth, if_pos rfl, if_neg hne.symm]
    ring
  case kept =>
    rintro rfl
    rw [hworth, sub_self, add_zero]
  case others =>
    intro a hs ht d
    refine h.balance_eq ?_
    rw [balance_add, k.balance_legs_elsewhere sp hs ht, hg.elsewhere a (not_or.mpr ⟨hs, ht⟩), add_zero]
  case foreign =>
    intro d he hc
    obtain ⟨hgb, hgs⟩ := hg.foreign d he hc
    refine ⟨fun a => h.balance_eq ?_, h.supply_eq ?_⟩
    · rw [balance_add, k.balance_legs_foreign sp he hc, hgb, add_zero]
    · rw [supply_add, hgs, add_zero]
      rfl
  case settings => exact h.settings

end Book

/-- Moves in both directions, whatever the ledger lists as spendable. -/
theorem Keeper.moves_transfer {k : Keeper} {r : Recorded Book}
    (listing : Recorded Book → Address → Except LedgerError Coins)
    (he : r.ledger.moduleAddress name = .ok e) (hn : cs.evmAmount k.config.evmDenom = .ok n) :
    (∀ r', (k.accountToModule (Book.ledgerListing listing) a name cs).Gives r (.ok ()) r' →
      r.ledger.Transfers k.config a e n r'.ledger) ∧
    (∀ r', (k.moduleToAccount (Book.ledgerListing listing) name a cs).Gives r (.ok ()) r' →
      r.ledger.Transfers k.config e a n r'.ledger) := by
  have hL := Book.carries_ledgerListing listing
  have hone : ∀ e', r.ledger.moduleAddress name = .ok e' → e' = e := fun e' he' =>
    Except.ok.inj (he'.symm.trans he)
  constructor
  · intro r' h
    obtain ⟨n', sp, g, hn', hm, hg, hp⟩ := hL.accountToModule_posted hone h
    obtain rfl : n' = n := Except.ok.inj (hn'.symm.trans hn)
    exact Book.transfers_of_posted hm hg hp
  · intro r' h
    obtain ⟨n', sp, g, hn', hm, hg, hp⟩ := hL.moduleToAccount_posted hone h
    obtain rfl : n' = n := Except.ok.inj (hn'.symm.trans hn)
    exact Book.transfers_of_posted hm hg hp

theorem moves_transfer_small :
    let k := Keeper.standard
    let r := Recorded.start Book.small
    let L := Book.ledgerListing Book.ledger.recorded.spendableCoins
    let cs : Coins := [⟨"aorai", ⟨1000000000011, by decide⟩⟩]
    r.ledger.Transfers k.config "alice" "fee_module_account" ⟨1000000000011, by decide⟩
      ((k.accountToModule L "alice" "fee" cs).run r).state.ledger ∧
    r.ledger.Transfers k.config "fee_module_account" "alice" ⟨1000000000011, by decide⟩
      ((k.moduleToAccount L "fee" "alice" cs).run r).state.ledger := by
  intro k r L cs
  have he : r.ledger.moduleAddress "fee" = .ok "fee_module_account" :=
    ok_of_toOption (by decide +kernel)
  have hn : cs.evmAmount k.config.evmDenom = .ok ⟨1000000000011, by decide⟩ :=
    ok_of_toOption (by decide +kernel)
  have h := Keeper.moves_transfer (a := "alice") Book.ledger.recorded.spendableCoins he hn
  have hto : (k.accountToModule L "alice" "fee" cs).Gives r (.ok ())
      ((k.accountToModule L "alice" "fee" cs).run r).state := gives_of_toOption (by decide +kernel)
  have hfrom : (k.moduleToAccount L "fee" "alice" cs).Gives r (.ok ())
      ((k.moduleToAccount L "fee" "alice" cs).run r).state := gives_of_toOption (by decide +kernel)
  exact ⟨h.1 _ hto, h.2 _ hfrom⟩

end DualDenom
