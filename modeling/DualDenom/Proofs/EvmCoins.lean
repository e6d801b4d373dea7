import DualDenom.Proofs.SplitLaws
import Mathlib.Data.List.InsertIdx

/-!
# Lists that stand for an evm amount

Without its coins of amount zero, a list that the bridge splits is empty or one
coin of the evm denom, and the split is that of what the list holds of this
denom (`split_takes_amounts`). Coins of amount zero may stand anywhere in it
and be of any denom, even a malformed one. Every other list is refused: for a
defect if what is left is not canonical, and else for the denoms in it.
-/

namespace DualDenom

namespace Coins

variable {cs : Coins} {d : Denom} {c : Config}

def IsAmountOf (cs : Coins) (d : Denom) : Prop := cs.positive = [] ∨ ∃ n, cs.positive = [⟨d, n⟩]

def RefusedFor (cs : Coins) (d : Denom) (e : CoinSetDefect) : Prop :=
  (∃ defect, cs.positive.check = .error defect ∧ e = .coins defect) ∨
    cs.positive.check = .ok () ∧ e = .notEvm (cs.positive.map (·.denom)) d

theorem positive_insertIdx (cs : Coins) (i : Nat) {z : Coin} (hz : z.amount = .zero) :
    positive (cs.insertIdx i z) = cs.positive := by
  have hzero : ¬(!z.amount.isZero) = true := by simp [hz]
  unfold positive
  induction cs generalizing i with
  | nil =>
    cases i with
    | zero => exact List.filter_cons_of_neg hzero
    | succ i => rfl
  | cons c cs ih =>
    cases i with
    | zero => exact List.filter_cons_of_neg hzero
    | succ i => rw [List.insertIdx_succ_cons, List.filter_cons, List.filter_cons, ih]

theorem split_congr {cs' : Coins} (h : cs'.positive = cs.positive) : cs'.split c = cs.split c := by
  simp only [split, evmAmount, checkEvm, h]

theorem isAmountOf_iff :
    cs.IsAmountOf d ↔ cs.positive = [] ∨ cs.positive.map (·.denom) = [d] := by
  refine or_congr_right ?_
  rw [List.map_eq_singleton_iff]
  constructor
  · rintro ⟨n, h⟩
    exact ⟨⟨d, n⟩, h, rfl⟩
  · rintro ⟨⟨_, n⟩, h, rfl⟩
    exact ⟨n, h⟩

theorem IsAmountOf.evmAmount (h : cs.IsAmountOf d) (hw : d.wellFormed = true) :
    cs.evmAmount d = .ok (cs.amountOf d) := by
  rw [evmAmount_ok]
  rcases h with hp | ⟨n, hp⟩
  · refine .inl ⟨hp, amountOf_eq ?_⟩
    rw [← exact_positive, hp, exact_nil, Amount.val_zero]
  · have hn : cs.amountOf d = n := by
      apply amountOf_eq
      rw [← exact_positive, hp, exact_cons, if_pos rfl, exact_nil, Nat.add_zero]
    exact .inr ⟨hn ▸ hp, hw⟩

theorem IsAmountOf.check (h : cs.IsAmountOf d) (hw : d.wellFormed = true) :
    cs.positive.check = .ok () := by
  rcases h with hp | ⟨n, hp⟩
  · rw [hp]
    rfl
  · have hn := amount_of_mem_positive (hp ▸ List.mem_singleton_self (⟨d, n⟩ : Coin))
    rw [hp]
    exact check_singleton.mpr ⟨hw, hn⟩

theorem split_eq (h : cs.IsAmountOf c.evmDenom) (hw : c.evmDenom.wellFormed = true) :
    cs.split c = Split.ofAmount (cs.amountOf c.evmDenom) c.multiplier := by
  rw [split, h.evmAmount hw]
  rfl

theorem split_ok : cs.split c = .ok sp ↔
    ∃ n, cs.evmAmount c.evmDenom = .ok n ∧ Split.ofAmount n c.multiplier = .ok sp := by
  simp only [split, bind_ok, mapError_ok]

theorem isAmountOf_of_split (h : cs.split c = .ok sp) : cs.IsAmountOf c.evmDenom := by
  obtain ⟨n, hn, -⟩ := split_ok.mp h
  rcases evmAmount_ok.mp hn with ⟨hp, -⟩ | ⟨hp, -⟩
  · exact .inl hp
  · exact .inr ⟨n, hp⟩

theorem checkEvm_error (hw : d.wellFormed = true) :
    cs.checkEvm d = .error e ↔ ¬cs.IsAmountOf d ∧ cs.RefusedFor d e := by
  have hcheck : cs.IsAmountOf d → cs.positive.check = .ok () := fun h => h.check hw
  rw [isAmountOf_iff] at hcheck ⊢
  unfold checkEvm RefusedFor
  cases hp : cs.positive with
  | nil => simp [pure_error]
  | cons coin rest =>
    rw [hp] at hcheck
    simp only [List.isEmpty_cons, Bool.false_eq_true, if_false, bind_error, mapError_error,
      mapError_ok]
    by_cases hd : (coin :: rest).map (·.denom) = [d]
    · simp [hd, hcheck (.inr hd), pure_error]
    · have hno : ¬(coin :: rest = [] ∨ (coin :: rest).map (·.denom) = [d]) :=
        fun h => h.elim nofun hd
      rw [if_neg hd]
      constructor
      · rintro (⟨defect, hdefect, rfl⟩ | ⟨_, hok, h⟩)
        · exact ⟨hno, .inl ⟨defect, hdefect, rfl⟩⟩
        · exact ⟨hno, .inr ⟨hok, (throw_error.mp h).symm⟩⟩
      · rintro ⟨-, ⟨defect, hdefect, rfl⟩ | ⟨hok, rfl⟩⟩
        · exact .inl ⟨defect, hdefect, rfl⟩
        · exact .inr ⟨(), hok, throw_error.mpr rfl⟩

theorem evmAmount_error : cs.evmAmount d = .error e ↔ cs.checkEvm d = .error e := by
  rw [evmAmount, bind_error, or_iff_left]
  rintro ⟨_, -, h⟩
  split at h <;> exact pure_error.mp h

theorem split_error (hm : c.multiplier.val ≠ 0) :
    cs.split c = .error e ↔ ∃ d, cs.evmAmount c.evmDenom = .error d ∧ e = .invalidCoinSet d := by
  rw [split, bind_error, or_iff_left]
  · simp only [mapError_error, @eq_comm _ e]
  · rintro ⟨n, -, h⟩
    obtain ⟨sp, hsp⟩ := Split.ofAmount_succeeds n hm
    rw [hsp] at h
    cases h

theorem split_refused (hw : c.evmDenom.wellFormed = true) (hm : c.multiplier.val ≠ 0) :
    cs.split c = .error e ↔
      ¬cs.IsAmountOf c.evmDenom ∧ ∃ d, e = .invalidCoinSet d ∧ cs.RefusedFor c.evmDenom d := by
  simp only [split_error hm, evmAmount_error, checkEvm_error hw]
  constructor
  · rintro ⟨d, ⟨hno, hd⟩, he⟩
    exact ⟨hno, d, he, hd⟩
  · rintro ⟨hno, d, he, hd⟩
    exact ⟨d, ⟨hno, hd⟩, he⟩

end Coins

namespace Keeper

variable {k : Keeper} {cs : Coins}

theorem split_gives {σ : Type} {s t : σ} {x : Except BridgeError Split} :
    (k.split cs).Gives s x t ↔ cs.split k.config = x ∧ t = s := by
  have hm := k.multiplier_ne_zero
  cases x with
  | error e => rw [split_error, and_comm, Coins.split_error hm]
  | ok sp =>
    rw [split_ok, and_comm, Coins.split_ok]
    refine and_congr_left' (exists_congr fun n => and_congr_right' ?_)
    exact (Split.ofAmount_ok.trans (and_iff_right hm)).symm

/-- A list is split when, without its coins of amount zero, it is empty or one evm coin; then as
what it holds of the evm denom. Coins of amount zero may come and go. Any other list is refused,
for its first defect if its coins are not canonical and else for their denoms. A keeper's requests
split lists in the same way. -/
theorem split_takes_amounts (k : Keeper) (cs : Coins) :
    ((∃ sp, cs.split k.config = .ok sp) ↔ cs.IsAmountOf k.config.evmDenom) ∧
    (cs.IsAmountOf k.config.evmDenom →
      cs.split k.config = Split.ofAmount (cs.amountOf k.config.evmDenom) k.config.multiplier) ∧
    (∀ cs' : Coins, cs'.positive = cs.positive → cs'.split k.config = cs.split k.config) ∧
    (∀ i z, z.amount = .zero → Coins.split (cs.insertIdx i z) k.config = cs.split k.config) ∧
    (∀ e, cs.split k.config = .error e ↔ ¬cs.IsAmountOf k.config.evmDenom ∧
      ∃ d, e = .invalidCoinSet d ∧ cs.RefusedFor k.config.evmDenom d) ∧
    ∀ {σ : Type} (s t : σ) x, (k.split cs).Gives s x t ↔ cs.split k.config = x ∧ t = s := by
  have hw := k.evm_wellFormed
  have hm := k.multiplier_ne_zero
  refine ⟨⟨fun ⟨_, h⟩ => Coins.isAmountOf_of_split h, fun h => ?_⟩, fun h => Coins.split_eq h hw,
    fun _ => Coins.split_congr, fun i z hz => Coins.split_congr (Coins.positive_insertIdx cs i hz),
    fun e => Coins.split_refused hw hm, fun s t x => split_gives⟩
  rw [Coins.split_eq h hw]
  exact Split.ofAmount_succeeds _ hm

end Keeper

theorem split_takes_amounts_small :
    let k : Keeper := ⟨.standard, rfl⟩
    let n : Amount := .clamp 2500000000000
    let cs : Coins := [⟨"?", .zero⟩, ⟨"aorai", n⟩, ⟨"orai", .zero⟩]
    cs.amountOf "aorai" = n ∧
    cs.split k.config = Split.ofAmount (cs.amountOf "aorai") k.config.multiplier ∧
    Coins.split (cs.insertIdx 3 ⟨"aorai", .zero⟩) k.config = cs.split k.config ∧
    Coins.split [⟨"orai", .one⟩, ⟨"aorai", .one⟩] k.config =
      .error (.invalidCoinSet (.coins (.descending "orai" "aorai"))) ∧
    Coins.split [⟨"aorai", .one⟩, ⟨"?", .zero⟩, ⟨"orai", .one⟩] k.config =
      .error (.invalidCoinSet (.notEvm ["aorai", "orai"] "aorai")) := by
  intro k n cs
  obtain ⟨-, hsplit, -, hinsert, -⟩ := k.split_takes_amounts cs
  have hno : ∀ {cs : Coins} {a b : Coin} {rest : Coins}, cs.positive = a :: b :: rest →
      ¬cs.IsAmountOf "aorai" := by
    rintro cs a b rest hp (h | ⟨n, h⟩) <;> cases hp.symm.trans h
  refine ⟨by decide, hsplit (.inr ⟨n, by decide⟩), hinsert 3 _ rfl, ?_, ?_⟩
  · exact ((k.split_takes_amounts _).2.2.2.2.1 _).mpr ⟨hno rfl, _, rfl, .inl ⟨_, by decide, rfl⟩⟩
  · exact ((k.split_takes_amounts _).2.2.2.2.1 _).mpr ⟨hno rfl, _, rfl, .inr ⟨by decide, rfl⟩⟩

end DualDenom
