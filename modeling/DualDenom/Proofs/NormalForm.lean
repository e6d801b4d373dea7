import DualDenom.Proofs.Backing
import DualDenom.Proofs.Conservation
import DualDenom.Proofs.Courses
import DualDenom.Proofs.Dust
import DualDenom.Proofs.ExactTransfer

/-!
# Normal forms

In a tidy book nothing is locked and every evm balance is below a unit. There
an address holds what it is worth in one way only: whole units and remainder
are the quotient and the remainder of its worth. Moves and sweeps keep a book
tidy and keep what all addresses have beyond the supply of a denom. So where
they lead is known from what each address was paid (`Settles.sameFunds`).
-/

namespace DualDenom

open DualDenom.Action Figures

namespace Book

variable {b b' b'' b₁ b₂ : Book} {c : Config} {net net' : Address → Int}

structure Tidy (c : Config) (b : Book) : Prop where
  unlocked : ∀ a d, (b.locked a d).val = 0
  low : ∀ a, (b.balance a c.evmDenom).val < c.multiplier.val

theorem Tidy.lowBut (hb : b.Tidy c) : b.LowBut c A := fun a _ =>
  (Sheet.spendable_le_balance ..).trans_lt (hb.low a)

theorem Tidy.of_lowBut (hb : b.Tidy c) (hs : b.SameSettings b')
    (hlow : b'.LowBut c fun _ => False) : b'.Tidy c := by
  have hunlocked : ∀ a d, (b'.locked a d).val = 0 := fun a d => by rw [hs.locked, hb.unlocked]
  refine ⟨hunlocked, fun a => ?_⟩
  have hspendable := hlow a not_false
  rwa [spendable_val, hunlocked, Nat.sub_zero] at hspendable

theorem Tidy.balance_eq (h₁ : b₁.Tidy c) (h₂ : b₂.Tidy c) (hw : b₁.worth c a = b₂.worth c a) :
    b₁.balance a c.cosmosDenom = b₂.balance a c.cosmosDenom ∧
      b₁.balance a c.evmDenom = b₂.balance a c.evmDenom := by
  have hlow₁ := h₁.low a
  have hpos : 0 < c.multiplier.val := by omega
  have hworth : (b₂.balance a c.evmDenom).val + c.multiplier.val * (b₂.balance a c.cosmosDenom).val =
      (b₁.balance a c.evmDenom).val + c.multiplier.val * (b₁.balance a c.cosmosDenom).val := by
    simp only [worth, Config.worth] at hw
    norm_cast at hw
    rw [Nat.mul_comm, Nat.add_comm, ← hw, Nat.mul_comm, Nat.add_comm]
  obtain ⟨hdiv₁, hmod₁⟩ := (Nat.div_mod_unique hpos).mpr ⟨rfl, hlow₁⟩
  obtain ⟨hdiv₂, hmod₂⟩ := (Nat.div_mod_unique hpos).mpr ⟨hworth, h₂.low a⟩
  exact ⟨Amount.ext (hdiv₁.symm.trans hdiv₂), Amount.ext (hmod₁.symm.trans hmod₂)⟩

/-- What all addresses have of a denom beyond what was issued. -/
def gap (b : Book) (d : Denom) : Int := (b.sheet d).total - (b.supply d).val

theorem Posted.gap (h : b.Posted f b') (hf : ∀ d, f.held d = f.supply d) (d : Denom) :
    b'.gap d = b.gap d := by
  have hheld := h.held d
  have hsup := h.supply d
  rw [hf d] at hheld
  simp only [Book.gap]
  omega

/-- Nothing that succeeds changes a gap. -/
def level : Course ε Book := .onSuccess (fun b b' => ∀ d, b'.gap d = b.gap d) (fun _ _ => rfl)
  fun _ _ _ h h' d => (h' d).trans (h d)

theorem submit_takes_level (cl : Call) :
    (submit cl).Takes ((level : Course BridgeError Book).before .ledger) :=
  submit_takes fun _ m _ coin _ => takes_onSuccess fun _ _ _ h =>
    (Movement.carryCoin_posted h).gap (m.held_coinFigures coin)

structure SameFunds (b b' : Book) : Prop where
  balance : ∀ a d, b'.balance a d = b.balance a d
  supply : ∀ d, b'.supply d = b.supply d

theorem Posted.sameFunds (h : b.Posted f b₁) (h' : b.Posted f b₂) : b₁.SameFunds b₂ where
  balance a d := by
    have hbal := h.balance a d
    have hbal' := h'.balance a d
    exact Amount.ext (by omega)
  supply d := by
    have hsup := h.supply d
    have hsup' := h'.supply d
    exact Amount.ext (by omega)

/-- Each address is paid `net` in all. Nothing else changes but how what is there is held. -/
structure Settles (c : Config) (net : Address → Int) (b b' : Book) : Prop where
  worth : ∀ a, b'.worth c a = b.worth c a + net a
  issued : b'.supplyWorth c = b.supplyWorth c
  gap : ∀ d, b'.gap d = b.gap d
  foreign : ∀ d, d ≠ c.evmDenom → d ≠ c.cosmosDenom →
    (∀ a, b'.balance a d = b.balance a d) ∧ b'.supply d = b.supply d
  settings : b.SameSettings b'
  tidy : b.Tidy c → b'.Tidy c

namespace Settles

theorem refl (c : Config) (b : Book) : b.Settles c (fun _ => 0) b where
  worth _ := (add_zero _).symm
  issued := rfl
  gap _ := rfl
  foreign _ _ _ := ⟨fun _ => rfl, rfl⟩
  settings := .refl b
  tidy := id

theorem trans (h : b.Settles c net b') (h' : b'.Settles c net' b'') :
    b.Settles c (fun a => net a + net' a) b'' where
  worth a := by rw [h'.worth, h.worth, add_assoc]
  issued := h'.issued.trans h.issued
  gap d := (h'.gap d).trans (h.gap d)
  foreign d he hc := by
    obtain ⟨hbal, hsup⟩ := h.foreign d he hc
    obtain ⟨hbal', hsup'⟩ := h'.foreign d he hc
    exact ⟨fun a => (hbal' a).trans (hbal a), hsup'.trans hsup⟩
  settings := h.settings.trans h'.settings
  tidy hb := h'.tidy (h.tidy hb)

theorem cast (h : b.Settles c net b') (hnet : ∀ a, net a = net' a) : b.Settles c net' b' :=
  { h with worth := fun a => by rw [h.worth, hnet] }

theorem sound (h : b.Settles c net b') (hS : b.Sound c) : b'.Sound c where
  backed := by
    refine ⟨fun d => ?_, fun a d => by rw [h.settings.locked, hS.backed.unlocked]⟩
    have hgap := h.gap d
    have htotal := hS.backed.total d
    simp only [Book.gap] at hgap
    omega
  valued := h.issued ▸ hS.valued
  escrow := by
    obtain ⟨e, hm, hb⟩ := hS.escrow
    exact ⟨e, by rw [h.settings.addressWith, hm], by rw [h.settings.addressWith, hb]⟩

/-- What everyone was paid tells where a tidy book came to. -/
theorem sameFunds (hb : b.Tidy c) (h₁ : b.Settles c net b₁) (h₂ : b.Settles c net b₂) :
    b₁.SameFunds b₂ := by
  have hbalance : ∀ a d, b₂.balance a d = b₁.balance a d := by
    intro a d
    obtain ⟨hcosmos, hevm⟩ :=
      (h₂.tidy hb).balance_eq (h₁.tidy hb) ((h₂.worth a).trans (h₁.worth a).symm)
    by_cases he : d = c.evmDenom
    · rw [he, hevm]
    by_cases hc : d = c.cosmosDenom
    · rw [hc, hcosmos]
    · rw [(h₂.foreign d he hc).1, (h₁.foreign d he hc).1]
  refine ⟨hbalance, fun d => Amount.ext ?_⟩
  have htotal : (b₂.sheet d).total = (b₁.sheet d).total := by
    simp only [← finsum_balance, hbalance]
  have hgap := (h₂.gap d).trans (h₁.gap d).symm
  simp only [Book.gap, htotal] at hgap
  omega

end Settles

end Book

end DualDenom
