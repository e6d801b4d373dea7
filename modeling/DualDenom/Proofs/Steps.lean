import DualDenom.Proofs.Carrying

/-!
# Steps and the way back

A step moves one coin. Its inverse takes back what it did: a transfer is paid
back, what was created is destroyed. There is room for that, as the coin came
from there, so all that it takes is that whoever received the coin can spend
it (`inverse_succeeds`). Steps are taken back the last one first
(`Hands.undone`). A list of calls with a coin each is a list of steps, which
the settings of the book determine (`forM_call_iff`). Nothing is assumed of how
balances and supplies fit together.
-/

namespace DualDenom

open DualDenom.Action Figures

structure Figures.Spares (f : Figures) (d : Denom) : Prop where
  balance : ∀ a, f.balance a d = 0
  supply : f.supply d = 0

theorem Figures.spares_zero (d : Denom) : (0 : Figures).Spares d := ⟨fun _ => rfl, rfl⟩

namespace Movement

variable {m : Movement} {b b' p : Book} {c : Coin} {f : Figures}

def inverse : Movement → Movement
  | .transfer source target => .transfer target source
  | .create target => .destroy target
  | .destroy source => .create source

@[simp] theorem coinFigures_inverse (m : Movement) (c : Coin) :
    m.inverse.coinFigures c = -m.coinFigures c := by
  cases m <;> simp only [inverse, coinFigures] <;> abel

theorem spares_coinFigures (m : Movement) (hd : d ≠ c.denom) : (m.coinFigures c).Spares d := by
  cases m <;> constructor <;> simp [coinFigures, hd]

theorem affords_congr (hp : b.Posted f b') (hf : f.Spares c.denom) :
    m.Affords b' c ↔ m.Affords b c := by
  simp only [Affords, hp.spendable_eq (hf.balance _)]

theorem lands_congr (hp : b.Posted f b') (hf : f.Spares c.denom) : m.Lands b' c ↔ m.Lands b c := by
  cases m <;> simp only [Lands, hp.balance_eq (hf.balance _), hp.supply_eq hf.supply]

theorem inverse_lands (h : (m.carryCoin c).Gives b (.ok ()) b') : m.inverse.Lands b' c := by
  have hp := carryCoin_posted h
  have hsup := hp.supply c.denom
  cases m with
  | transfer source target =>
    refine or_iff_not_imp_left.mpr fun hne => ?_
    have hbal := hp.balance source c.denom
    have hlt := (b.balance source c.denom).isLt
    simp only [coinFigures, balance_add, balance_neg, balance_inHand, hne, false_and, if_false,
      and_self, if_true, add_zero] at hbal
    omega
  | create target =>
    simp only [coinFigures, supply_add, supply_inHand, supply_inIssue, if_true, zero_add] at hsup
    show c.amount.val ≤ (b'.supply c.denom).val
    omega
  | destroy source =>
    have hbal := hp.balance source c.denom
    have hlt := (b.balance source c.denom).isLt
    have hlt' := (b.supply c.denom).isLt
    simp only [coinFigures, balance_add, balance_neg, balance_inHand, balance_inIssue, supply_add,
      supply_neg, supply_inHand, supply_inIssue, and_self, if_true, neg_zero, add_zero,
      zero_add] at hbal hsup
    exact ⟨by omega, by omega⟩

theorem inverse_affords (h : (m.carryCoin c).Gives b (.ok ()) b')
    (hlocked : ∀ a, m.inverse.source? = some a →
      (b.locked a c.denom).val ≤ (b.balance a c.denom).val) : m.inverse.Affords b' c := by
  have hp := carryCoin_posted h
  intro a ha
  have hbal := hp.balance a c.denom
  have hle := hlocked a ha
  rw [Book.spendable_val, hp.settings.locked]
  cases m with
  | transfer source target =>
    obtain rfl : target = a := Option.some.inj ha
    by_cases hts : target = source
    · have hs := carryCoin_affords h source rfl
      rw [← hts, Book.spendable_val] at hs
      simp only [coinFigures, hts, neg_add_cancel, balance_zero, add_zero] at hbal hs ⊢
      omega
    · simp only [coinFigures, balance_add, balance_neg, balance_inHand, hts, false_and, if_false,
        and_self, if_true, neg_zero, zero_add] at hbal
      omega
  | create target =>
    obtain rfl : target = a := Option.some.inj ha
    simp only [coinFigures, balance_add, balance_inHand, balance_inIssue, and_self, if_true,
      add_zero] at hbal
    omega
  | destroy source => cases ha

/-- What was moved can be moved back later, if it can be spent where it went. -/
theorem inverse_succeeds (h : (m.carryCoin c).Gives b (.ok ()) b') (hp : b'.Posted f p)
    (hf : f.Spares c.denom) (ha : m.inverse.Affords p c) :
    ∃ p', (m.inverse.carryCoin c).Gives p (.ok ()) p' :=
  carryCoin_iff.mpr ⟨ha, (lands_congr hp hf).mpr (inverse_lands h)⟩

end Movement

structure Step where
  movement : Movement
  coin : Coin

namespace Step

variable {b b' p : Book} {steps : List Step}

def carry (st : Step) : Book.Change Unit := st.movement.carryCoin st.coin

def inverse (st : Step) : Step := { st with movement := st.movement.inverse }

/-- The inverse steps, the last one first. -/
def undo (steps : List Step) : List Step := (steps.map inverse).reverse

/-- The steps lead from one book to the other, and after each of them its coin can be spent. -/
def Hands : List Step → Book → Book → Prop
  | [], b, b' => b' = b
  | st :: rest, b, b' => ∃ r, st.carry.Gives b (.ok ()) r ∧
    st.inverse.movement.Affords r st.coin ∧ Hands rest r b'

theorem Hands.undone (h : Hands steps b b') (hp : b'.Posted 0 p) :
    ∃ p', ((undo steps).forM carry).Gives p (.ok ()) p' ∧ b.Posted 0 p' := by
  induction steps generalizing b with
  | nil =>
    obtain rfl : b' = b := h
    exact ⟨p, gives_forM_nil.mpr ⟨rfl, rfl⟩, hp⟩
  | cons st rest ih =>
    obtain ⟨r, hr, ha, hrest⟩ := h
    -- Once the rest is taken back, all is as it was right after this step.
    obtain ⟨q, hq, hrq⟩ := ih hrest
    have hspares := spares_zero st.coin.denom
    obtain ⟨p', hp'⟩ :=
      Movement.inverse_succeeds hr hrq hspares ((Movement.affords_congr hrq hspares).mpr ha)
    have hundo : undo (st :: rest) = undo rest ++ [st.inverse] := by simp [undo]
    refine ⟨p', ?_, (((Movement.carryCoin_posted hr).trans hrq).trans
      (Movement.carryCoin_posted hp')).cast (by simp)⟩
    rw [hundo, gives_forM_append_ok]
    exact ⟨q, hq, gives_forM_cons_ok.mpr ⟨p', hp', gives_forM_nil.mpr ⟨rfl, rfl⟩⟩⟩

theorem forM_carry_congr (h : (steps.forM carry).Gives b (.ok ()) b') (hp : b.Posted 0 p) :
    ∃ p', (steps.forM carry).Gives p (.ok ()) p' ∧ b'.Posted 0 p' := by
  induction steps generalizing b p with
  | nil =>
    obtain ⟨-, rfl⟩ := gives_forM_nil.mp h
    exact ⟨p, gives_forM_nil.mpr ⟨rfl, rfl⟩, hp⟩
  | cons st rest ih =>
    obtain ⟨r, hr, hrest⟩ := gives_forM_cons_ok.mp h
    have hspares := spares_zero st.coin.denom
    obtain ⟨ha, hl⟩ := Movement.carryCoin_iff.mp ⟨r, hr⟩
    obtain ⟨q, hq⟩ := Movement.carryCoin_iff.mpr
      ⟨(Movement.affords_congr hp hspares).mpr ha, (Movement.lands_congr hp hspares).mpr hl⟩
    have hrq : r.Posted 0 q := (((Movement.carryCoin_posted hr).symm.trans hp).trans
      (Movement.carryCoin_posted hq)).cast (by simp)
    obtain ⟨p', hp', hbp⟩ := ih hrest hrq
    exact ⟨p', gives_forM_cons_ok.mpr ⟨q, hq, hp'⟩, hbp⟩

end Step

structure Call.Single (cl : Call) (coin : Coin) : Prop where
  coins : cl.coins = [coin]
  proper : coin.denom.wellFormed = true ∧ coin.amount.val ≠ 0

structure Book.Reads (b : Book) (cl : Call) (st : Step) : Prop where
  movement : b.movement cl = .ok st.movement
  single : cl.Single st.coin

namespace Book

variable {b b' : Book} {cl : Call} {st : Step}

theorem Reads.movement_of_single (hr : b.Reads cl st) (hcoin : cl.Single coin) :
    ∃ m, b.movement cl = .ok m ∧ st = ⟨m, coin⟩ := by
  obtain rfl : st.coin = coin := List.singleton_inj.mp (hr.single.coins.symm.trans hcoin.coins)
  exact ⟨st.movement, hr.movement, rfl⟩

theorem Reads.congr (hr : b.Reads cl st) (h : b.SameSettings b') : b'.Reads cl st :=
  ⟨(movement_congr h cl).trans hr.movement, hr.single⟩

theorem Reads.submit_iff (hr : b.Reads cl st) :
    (submit cl).Gives b x b' ↔ st.carry.Gives b x b' := by
  rw [submit_of_movement hr.movement, hr.single.coins]
  exact Movement.carryOut_singleton hr.single.proper.1 hr.single.proper.2

end Book

namespace Ledger.Mirrors

variable {L : Ledger σ} {book : σ → Book} {cl : Call} {calls : List Call} {st : Step} {b' : Book}

theorem call_iff (hL : L.Mirrors book) (hr : (book s).Reads cl st) :
    (∃ t, (L.call cl).Gives s (.ok ()) t ∧ book t = b') ↔ st.carry.Gives (book s) (.ok ()) b' := by
  constructor
  · rintro ⟨t, h, rfl⟩
    exact hr.submit_iff.mp (hL.submit (gives_mapError_ok.mp h))
  · intro h
    obtain ⟨t, ht, hb⟩ := hL.submit_gives (hr.submit_iff.mpr h)
    exact ⟨t, gives_mapError_ok.mpr ht, hb⟩

theorem call_reads (hL : L.Mirrors book) (hcoin : cl.Single coin)
    (h : (L.call cl).Gives s (.ok ()) t) : ∃ m, (book s).Reads cl ⟨m, coin⟩ := by
  obtain ⟨m, hm, -⟩ := hL.carries.call_ok h
  exact ⟨m, hm, hcoin⟩

/-- Calls for a coin each lead to a book just when they are steps there that do. -/
theorem forM_call_iff (hL : L.Mirrors book) (hcalls : ∀ cl ∈ calls, ∃ coin, cl.Single coin) :
    (∃ t, (calls.forM L.call).Gives s (.ok ()) t ∧ book t = b') ↔
      ∃ steps, List.Forall₂ (book s).Reads calls steps ∧
        (steps.forM Step.carry).Gives (book s) (.ok ()) b' := by
  induction calls generalizing s with
  | nil =>
    simp only [gives_forM_nil, List.forall₂_nil_left_iff, true_and, exists_eq_left, @eq_comm _ b']
  | cons cl calls ih =>
    obtain ⟨⟨coin, hcoin⟩, hrest⟩ := List.forall_mem_cons.mp hcalls
    constructor
    · rintro ⟨t, h, hb⟩
      obtain ⟨r, hr, ht⟩ := gives_forM_cons_ok.mp h
      obtain ⟨m, hm⟩ := hL.call_reads hcoin hr
      have hstep := (hL.call_iff hm).mp ⟨r, hr, rfl⟩
      obtain ⟨steps, hsteps, hlead⟩ := (ih hrest).mp ⟨t, ht, hb⟩
      have hback := (Movement.carryCoin_posted hstep).settings.symm
      exact ⟨⟨m, coin⟩ :: steps, .cons hm (hsteps.imp fun _ _ h => h.congr hback),
        gives_forM_cons_ok.mpr ⟨book r, hstep, hlead⟩⟩
    · rintro ⟨_, hsteps, hlead⟩
      obtain ⟨st, steps, hst, hmore, rfl⟩ := List.forall₂_cons_left_iff.mp hsteps
      obtain ⟨b₁, hstep, hlead⟩ := gives_forM_cons_ok.mp hlead
      obtain ⟨r, hr, rfl⟩ := (hL.call_iff hst).mpr hstep
      have hthere := (Movement.carryCoin_posted hstep).settings
      obtain ⟨t, ht, hb⟩ := (ih hrest).mpr ⟨steps, hmore.imp fun _ _ h => h.congr hthere, hlead⟩
      exact ⟨t, gives_forM_cons_ok.mpr ⟨r, hr, ht⟩, hb⟩

end Ledger.Mirrors

end DualDenom
