import DualDenom.Proofs.Exchanges
import DualDenom.Proofs.KeeperLaws
import Mathlib.Algebra.Order.Floor.Div

/-!
# Top-ups

A top-up converts the fewest units that cover what is missing. On a book that
is all it does, and it does nothing when enough is there (`topUp_exact`). The
units are found by a rounded-up division, which adds the multiplier less one
to the shortfall first. The arithmetic of a top-up fails when that sum is no
amount, and only then (`topUp_converts_or_overflows`): also where the units and
what they are worth are amounts (`topUp_overflows_early`).
-/

namespace DualDenom

open DualDenom.Action

namespace Config

variable {c : Config} {q n u : Amount}

theorem isLeast_units (hm : 0 < m) (q n : Nat) : IsLeast {u | q ≤ n + u * m} ((q - n) ⌈/⌉ m) := by
  have hcover : ∀ u, (q - n) ⌈/⌉ m ≤ u ↔ q ≤ n + u * m := by
    intro u
    rw [ceilDiv_le_iff_le_mul hm, Nat.mul_comm]
    omega
  exact ⟨(hcover _).mp le_rfl, fun u hu => (hcover u).mpr hu⟩

theorem unitsFor_ceilDiv (hu : c.unitsFor n = .ok u) : u.val = n.val ⌈/⌉ c.multiplier.val := by
  obtain ⟨hm, -, hu⟩ := unitsFor_ok.mp hu
  rw [hu, Nat.ceilDiv_eq_add_pred_div, Nat.add_sub_assoc hm]

end Config

/-- `units` are the fewest that lift what `a` may spend of the evm denom to `required`, and they
were converted. -/
structure Book.TopsUp (c : Config) (a : Address) (required units : Amount) (b b' : Book) : Prop where
  units_eq : units.val =
    (required.val - (b.spendable a c.evmDenom).val) ⌈/⌉ c.multiplier.val
  fewest : IsLeast {n | required.val ≤ (b.spendable a c.evmDenom).val + n * c.multiplier.val}
    units.val
  single : required.val ≤ c.multiplier.val → units.val ≤ 1
  lifted : (b'.spendable a c.evmDenom).val =
    (b.spendable a c.evmDenom).val + units.val * c.multiplier.val
  covered : required.val ≤ (b'.spendable a c.evmDenom).val
  exchanged : b.Exchanged c a units.val b'

namespace Ledger.Mirrors

variable {L : Ledger σ} {book : σ → Book} {c : Config} {hd : Holder} {q u : Amount}

theorem topUp_idle (hL : L.Mirrors book) (ha : (book s).addressOf hd = .ok a)
    (hle : q.val ≤ ((book s).spendable a c.evmDenom).val) :
    (L.topUp c hd q).Gives s (.ok .zero) s := by
  by_cases hz : q.val = 0
  · exact topUp_ok.mpr (.inl ⟨hz, rfl, rfl⟩)
  · exact topUp_ok.mpr (.inr ⟨hz, _, hL.spendableEvm_gives ha c, .inl ⟨hle, rfl, rfl⟩⟩)

theorem topUp_ceilDiv (hL : L.Mirrors book) (ha : (book s).addressOf hd = .ok a)
    (h : (L.topUp c hd q).Gives s (.ok u) t) :
    u.val = (q.val - ((book s).spendable a c.evmDenom).val) ⌈/⌉ c.multiplier.val := by
  rcases Nat.lt_or_ge ((book s).spendable a c.evmDenom).val q.val with hlt | hle
  · rcases topUp_ok.mp h with ⟨hz, -⟩ | ⟨-, n, hn, ⟨hle, -⟩ | ⟨-, hu, -⟩⟩
    · omega
    · obtain rfl := hL.spendableEvm_eq ha hn
      omega
    · obtain rfl := hL.spendableEvm_eq ha hn
      exact Config.unitsFor_ceilDiv hu
  · obtain rfl : u = .zero := Except.ok.inj (h.unique (hL.topUp_idle ha hle)).1
    rw [Nat.sub_eq_zero_of_le hle, zero_ceilDiv, Amount.val_zero]

end Ledger.Mirrors

/-- A top-up that succeeds converts the fewest units that cover what was asked for, exactly these
and nothing else; none are converted, and no call is made, when enough is there. -/
theorem Keeper.topUp_exact (k : Keeper) {r : Recorded Book} {hd : Holder}
    (ha : r.ledger.addressOf hd = .ok a)
    (hlocked : (r.ledger.locked a k.config.evmDenom).val ≤
      (r.ledger.balance a k.config.evmDenom).val) (q : Amount) :
    (q.val ≤ (r.ledger.spendable a k.config.evmDenom).val →
      (Book.ledger.recorded.topUp k.config hd q).Gives r (.ok .zero) r) ∧
    ∀ u r', (Book.ledger.recorded.topUp k.config hd q).Gives r (.ok u) r' →
      r.ledger.TopsUp k.config a q u r'.ledger := by
  have hL := Book.mirrors_recorded
  refine ⟨hL.topUp_idle ha, fun u r' h => ?_⟩
  have hm : 0 < k.config.multiplier.val := Nat.pos_of_ne_zero k.multiplier_ne_zero
  have hunits := hL.topUp_ceilDiv ha h
  have hfewest := Config.isLeast_units hm q.val (r.ledger.spendable a k.config.evmDenom).val
  rw [← hunits] at hfewest
  have hexchanged := ((hL.carries.topUp_posted h).posted ha).exchanged k.evm_ne_cosmos
  have hlifted := hexchanged.spendable_raised hlocked
  constructor
  case units_eq => exact hunits
  case fewest => exact hfewest
  case single =>
    intro hq
    refine hfewest.2 ?_
    show q.val ≤ _ + 1 * k.config.multiplier.val
    omega
  case lifted => exact hlifted
  case covered =>
    rw [hlifted]
    exact hfewest.1
  case exchanged => exact hexchanged

theorem topUp_exact_small :
    let k := Keeper.standard
    let b := Book.small.lock "alice" ⟨"aorai", .clamp 2⟩
    let q : Amount := .clamp 2000000000002
    ∃ r', (Book.ledger.recorded.topUp k.config (.account "alice") q).Gives (.start b)
        (.ok (.clamp 3)) r' ∧
      b.TopsUp k.config "alice" q (.clamp 3) r'.ledger := by
  intro k b q
  obtain ⟨r', h⟩ : ∃ r', (Book.ledger.recorded.topUp k.config (.account "alice") q).Gives (.start b)
      (.ok (.clamp 3)) r' := ⟨_, gives_of_toOption (by decide +kernel)⟩
  have ha : (Recorded.start b).ledger.addressOf (.account "alice") = .ok "alice" := rfl
  exact ⟨r', h, (k.topUp_exact ha (by decide +kernel) q).2 _ _ h⟩

namespace Config

variable {c : Config} {n : Amount}

theorem unitsFor_fits (hm : 1 ≤ c.multiplier.val)
    (hlt : n.val + (c.multiplier.val - 1) < Amount.bound) :
    ∃ units evm : Amount, c.unitsFor n = .ok units ∧ units.val = n.val ⌈/⌉ c.multiplier.val ∧
      evm.val = units.val * c.multiplier.val := by
  have hworth := Nat.div_mul_le_self (n.val + (c.multiplier.val - 1)) c.multiplier.val
  have hunits := Nat.div_le_self (n.val + (c.multiplier.val - 1)) c.multiplier.val
  have hfor : c.unitsFor n = .ok ⟨_, hunits.trans_lt hlt⟩ := unitsFor_ok.mpr ⟨hm, hlt, rfl⟩
  exact ⟨_, ⟨_, hworth.trans_lt hlt⟩, hfor, unitsFor_ceilDiv hfor, rfl⟩

theorem unitsFor_overflows (hm : 1 ≤ c.multiplier.val)
    (hge : Amount.bound ≤ n.val + (c.multiplier.val - 1)) :
    c.unitsFor n = .error (.overflow ⟨.add, n, c.multiplier.subSat .one⟩) := by
  have hslack : c.multiplier.sub .one = .ok (c.multiplier.subSat .one) :=
    Amount.sub_eq_ok.mpr ⟨hm, rfl⟩
  have hraised : n.add (c.multiplier.subSat .one) =
      .error ⟨.add, n, c.multiplier.subSat .one⟩ := Amount.checked_eq_error.mpr ⟨hge, rfl⟩
  exact bind_error.mpr (.inr ⟨_, mapError_ok.mpr hslack,
    bind_error.mpr (.inl (mapError_error.mpr ⟨_, hraised, rfl⟩))⟩)

end Config

namespace Ledger

variable {L : Ledger σ} {c : Config} {hd : Holder} {q n units evm : Amount}

theorem forM_call_fails (cls : List Call) : (cls.forM L.call).FailsAs fun e t =>
    ∃ cl ∈ cls, ∃ s e₀, (L.submit cl).Gives s (.error e₀) t ∧ e = .ledger e₀ := by
  refine failsAs_forM cls fun cl hcl s e t h => ?_
  obtain ⟨e₀, hsubmit, rfl⟩ := gives_mapError_error.mp h
  exact ⟨cl, hcl, s, e₀, hsubmit, rfl⟩

end Ledger

/-- Where less is there than was asked for, one sum decides, on any ledger. While it is an amount, a
top-up comes to what the route of the fewest units comes to, and fails with the error of one of its
calls only; once it is none, the top-up fails before any call. -/
theorem Keeper.topUp_converts_or_overflows (k : Keeper) {L : Ledger σ} {hd : Holder} {q n : Amount}
    (hn : (L.spendableEvm k.config hd).Gives s (.ok n) s) (hlt : n.val < q.val) :
    (q.val - n.val + (k.config.multiplier.val - 1) < Amount.bound →
      ∃ units evm : Amount, units.val = (q.val - n.val) ⌈/⌉ k.config.multiplier.val ∧
        evm.val = units.val * k.config.multiplier.val ∧
        (∀ x t, (L.topUp k.config hd q).Gives s x t ↔ ∃ y,
          ((k.config.route hd units evm .cosmosToEvm).forM L.call).Gives s y t ∧
            x = y.map fun _ => units) ∧
        ∀ e t, (L.topUp k.config hd q).Gives s (.error e) t →
          ∃ cl ∈ k.config.route hd units evm .cosmosToEvm, ∃ p e₀,
            (L.submit cl).Gives p (.error e₀) t ∧ e = .ledger e₀) ∧
    (Amount.bound ≤ q.val - n.val + (k.config.multiplier.val - 1) →
      (L.topUp k.config hd q).Gives s
        (.error (.overflow ⟨.add, q.subSat n, k.config.multiplier.subSat .one⟩)) s) := by
  have hm : 1 ≤ k.config.multiplier.val := k.one_lt_multiplier.le
  constructor
  · intro hfits
    obtain ⟨units, evm, hfor, hunits, hevm⟩ := Config.unitsFor_fits (n := q.subSat n) hm hfits
    have hne : units.val ≠ 0 := by
      have hcover : q.val ≤ n.val + units.val * k.config.multiplier.val :=
        hunits ▸ (Config.isLeast_units hm q.val n.val).1
      intro hz
      rw [hz, Nat.zero_mul] at hcover
      omega
    have hiff : ∀ x t, (L.topUp k.config hd q).Gives s x t ↔ ∃ y,
        ((k.config.route hd units evm .cosmosToEvm).forM L.call).Gives s y t ∧
          x = y.map fun _ => units := by
      intro x t
      rw [Ledger.topUp_short hn hlt, (gives_ofExcept.mpr ⟨hfor, rfl⟩).bind_iff, gives_bind_pure]
      simp only [Ledger.convert_route hne hevm]
    refine ⟨units, evm, hunits, hevm, hiff, fun e t h => ?_⟩
    obtain ⟨y, hy, hx⟩ := (hiff _ t).mp h
    cases y with
    | ok _ => cases hx
    | error e' =>
      obtain rfl := Except.error.inj hx
      exact Ledger.forM_call_fails _ hy
  · intro hover
    rw [Ledger.topUp_short hn hlt, Config.unitsFor_overflows hm hover]
    exact gives_bind_error.mpr (.inl (gives_ofExcept.mpr ⟨rfl, rfl⟩))

def Keeper.threefold : Keeper := ⟨{ Config.standard with multiplier := .clamp 3 }, rfl⟩

def Book.thirds : Book :=
  ((Book.fund "alice" [⟨"orai", .clamp 113427455640312821154458202477256070485⟩]).run
    (Book.empty.addModule "evm" [.minter, .burner])).state

theorem topUp_converts_or_overflows_large :
    let k := Keeper.threefold
    let L := Book.ledger.recorded
    let hd := Holder.account "alice"
    let r := Recorded.start Book.thirds
    let q : Amount := .clamp (Amount.bound - 3)
    let units : Amount := .clamp 113427455640312821154458202477256070485
    (∃ t, (L.topUp k.config hd q).Gives r (.ok units) t ∧
      ((k.config.route hd units .largest .cosmosToEvm).forM L.call).Gives r (.ok ()) t) ∧
    (L.topUp k.config hd .largest).Gives r
      (.error (.overflow ⟨.add, .largest, .clamp 2⟩)) r := by
  intro k L hd r q units
  have hnone : (L.spendableEvm k.config hd).Gives r (.ok .zero) r := ⟨by decide +kernel, rfl⟩
  constructor
  · have hrun : ((L.topUp k.config hd q).run r).answer.toOption = some units := by decide +kernel
    have h := gives_of_toOption hrun
    obtain ⟨units', evm, -, hevm, hiff, -⟩ :=
      (k.topUp_converts_or_overflows (q := q) hnone (by decide)).1 (by decide)
    obtain ⟨y, hy, hx⟩ := (hiff _ _).mp h
    cases y with
    | error e => cases hx
    | ok _ =>
      obtain rfl : units = units' := Except.ok.inj hx
      have hlargest : units.val * k.config.multiplier.val = Amount.largest.val := by decide
      obtain rfl : evm = .largest := Amount.ext (hevm.trans hlargest)
      exact ⟨_, h, hy⟩
  · have hshort : Amount.largest.subSat .zero = .largest := by decide
    have hslack : k.config.multiplier.subSat .one = .clamp 2 := by decide
    have hover := (k.topUp_converts_or_overflows (q := .largest) hnone (by decide)).2 (by decide)
    rwa [hshort, hslack] at hover

/-- The units that cover the largest amount are worth just that, and can be converted. -/
theorem topUp_overflows_early :
    let k := Keeper.threefold
    let L := Book.ledger.recorded
    let hd := Holder.account "alice"
    let r := Recorded.start Book.thirds
    let units : Amount := .clamp 113427455640312821154458202477256070485
    (L.spendableEvm k.config hd).Gives r (.ok .zero) r ∧
      units.val = Amount.largest.val ⌈/⌉ k.config.multiplier.val ∧
      units.val * k.config.multiplier.val < Amount.bound ∧
      (∃ t, (L.convert k.config hd units .cosmosToEvm).Gives r (.ok ()) t) ∧
      (L.topUp k.config hd .largest).Gives r
        (.error (.overflow ⟨.add, .largest, .clamp 2⟩)) r := by
  intro k L hd r units
  have hrun : ((L.convert k.config hd units .cosmosToEvm).run r).answer.toOption = some () := by
    decide +kernel
  exact ⟨⟨by decide +kernel, rfl⟩, by decide, by decide, ⟨_, gives_of_toOption hrun⟩,
    by decide +kernel, rfl⟩

end DualDenom
