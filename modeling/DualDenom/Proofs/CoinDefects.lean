import DualDenom.Proofs.CanonicalCoins
import Mathlib.Data.List.Nodup

/-!
# The first defect of a coin list

The check of a coin list looks at every coin by itself, and then at neighbours.
It accepts the lists of sound coins whose denoms rise byte by byte, from any
place to any later one, and names the first coin that is not sound, or else
the first neighbours that do not rise (`check_names_first`). A list that it
accepts is the only order in which its coins are sorted.
-/

namespace DualDenom

namespace Coin

def Sound (c : Coin) : Prop := c.denom.check = .ok () ∧ c.amount.val ≠ 0

def Fails (c : Coin) (e : CoinDefect) : Prop :=
  c.denom.check = .error e ∨ c.denom.check = .ok () ∧ c.amount.val = 0 ∧ e = .zeroAmount c.denom

variable {c : Coin}

theorem defect?_eq_none : c.defect? = none ↔ c.Sound :=
  Coins.coinDefect?_eq_none.trans (and_congr_left' Denom.check_ok.symm)

theorem defect?_eq_some : c.defect? = some e ↔ c.Fails e := by
  simp only [Fails, Denom.check_error, Denom.check_ok, defect?]
  by_cases hw : c.denom.wellFormed = true
  · by_cases hz : c.amount.isZero = true
    · simp [hw, hz, Amount.isZero_iff.mp hz, eq_comm]
    · simp [hw, hz, Amount.isZero_eq_false.mp (Bool.eq_false_iff.mpr hz)]
  · simp [hw, eq_comm]

end Coin

namespace Coins

variable {cs rest : Coins} {a b : Coin}

def Rising (cs : Coins) : Prop := cs.Pairwise fun c c' => c.denom.bytes < c'.denom.bytes

theorem rising_iff : cs.Rising ↔ cs.Ascending := by
  simp only [Rising, Ascending, Denom.bytes_lt_iff]

def Turns (c c' : Coin) (e : CoinDefect) : Prop :=
  c.denom = c'.denom ∧ e = .duplicate c.denom ∨
    c'.denom.bytes < c.denom.bytes ∧ e = .descending c.denom c'.denom

def FirstTurn (cs : Coins) (e : CoinDefect) : Prop :=
  ∃ before c c' after, cs = before ++ c :: c' :: after ∧
    (before ++ [c]).IsChain (fun c c' => c.denom.bytes < c'.denom.bytes) ∧ Turns c c' e

theorem rises_cons {before after : Coins} {c : Coin} (h : b :: rest = before ++ c :: after) :
    (a :: (before ++ [c])).IsChain (fun c c' => c.denom.bytes < c'.denom.bytes) ↔
      a.denom.bytes < b.denom.bytes ∧
        (before ++ [c]).IsChain fun c c' => c.denom.bytes < c'.denom.bytes := by
  cases before with
  | nil =>
    cases h
    exact List.isChain_cons_cons
  | cons x before =>
    cases h
    exact List.isChain_cons_cons

theorem firstTurn_cons_cons : FirstTurn (a :: b :: rest) e ↔
    Turns a b e ∨ a.denom.bytes < b.denom.bytes ∧ FirstTurn (b :: rest) e := by
  constructor
  · rintro ⟨before, c, c', after, hcs, hchain, hturn⟩
    cases before with
    | nil =>
      cases hcs
      exact .inl hturn
    | cons x before =>
      obtain ⟨rfl, htail⟩ := List.cons.inj hcs
      obtain ⟨hlt, hchain⟩ := (rises_cons htail).mp hchain
      exact .inr ⟨hlt, before, c, c', after, htail, hchain, hturn⟩
  · rintro (hturn | ⟨hlt, before, c, c', after, htail, hchain, hturn⟩)
    · exact ⟨[], a, b, rest, rfl, List.IsChain.singleton a, hturn⟩
    · exact ⟨a :: before, c, c', after, congrArg (a :: ·) htail,
        (rises_cons htail).mpr ⟨hlt, hchain⟩, hturn⟩

theorem not_firstTurn_of_short (h : cs.length < 2) : ¬cs.FirstTurn e := by
  rintro ⟨before, c, c', after, rfl, -⟩
  simp only [List.length_append, List.length_cons] at h
  omega

theorem orderDefect?_cons_cons_some : orderDefect? (a :: b :: rest) = some e ↔
    Turns a b e ∨ a.denom.bytes < b.denom.bytes ∧ orderDefect? (b :: rest) = some e := by
  simp only [Turns, Denom.bytes_lt_iff]
  rw [orderDefect?]
  split
  · rename_i heq
    simp [heq, eq_comm]
  · rename_i hne
    split
    · rename_i hgt
      simp [hne, hgt, String.lt_asymm hgt, eq_comm]
    · rename_i hle
      simp [hne, hle, Denom.lt_of_ne hne hle]

theorem orderDefect?_eq_some : orderDefect? cs = some e ↔ cs.FirstTurn e := by
  induction cs with
  | nil => exact iff_of_false nofun (not_firstTurn_of_short Nat.zero_lt_two)
  | cons c cs ih =>
    cases cs with
    | nil => exact iff_of_false nofun (not_firstTurn_of_short Nat.one_lt_two)
    | cons c' cs => rw [orderDefect?_cons_cons_some, firstTurn_cons_cons, ih]

def FirstFailure (cs : Coins) (e : CoinDefect) : Prop :=
  ∃ before c after, cs = before ++ c :: after ∧ c.Fails e ∧ ∀ c' ∈ before, c'.Sound

theorem check_rising : check cs = .ok u ↔ (∀ c ∈ cs, c.Sound) ∧ cs.Rising := by
  simp only [check_iff, rising_iff, Coin.Sound, Denom.check_ok]

theorem check_error : check cs = .error e ↔
    cs.FirstFailure e ∨ (∀ c ∈ cs, c.Sound) ∧ cs.FirstTurn e := by
  have hdefect : check cs = .error e ↔ cs.defect? = some e := by
    unfold check
    cases cs.defect? <;> simp
  rw [hdefect, defect?, Option.or_eq_some_iff, List.findSome?_eq_some_iff,
    List.findSome?_eq_none_iff, orderDefect?_eq_some]
  simp only [Coin.defect?_eq_none, Coin.defect?_eq_some, FirstFailure]

theorem Rising.nodup (h : cs.Rising) : (cs.map (·.denom)).Nodup := by
  refine List.pairwise_map.mpr (h.imp fun hlt heq => ?_)
  exact List.lt_irrefl _ (heq ▸ hlt)

theorem Rising.eq_of_perm {cs' : Coins} (h : cs.Rising) (hperm : cs'.Perm cs)
    (hsorted : cs'.Pairwise fun c c' => c.denom.bytes ≤ c'.denom.bytes) : cs' = cs := by
  refine hperm.eq_of_pairwise ?_ hsorted (h.imp List.le_of_lt)
  intro a b ha hb hab hba
  have heq : a.denom = b.denom :=
    String.le_antisymm (Denom.bytes_le_iff.mp hab) (Denom.bytes_le_iff.mp hba)
  exact List.inj_on_of_nodup_map h.nodup (hperm.subset ha) hb heq

/-- The check accepts the lists of sound coins that rise from every place to every later one, in
which each denom stands once and which no other order sorts. It names the first coin that is not
sound, or else the first neighbours that do not rise. -/
theorem check_names_first (cs : Coins) :
    (cs.check = .ok () ↔ (∀ c ∈ cs, c.denom.check = .ok () ∧ c.amount.val ≠ 0) ∧
      cs.Pairwise fun c c' => c.denom.bytes < c'.denom.bytes) ∧
    (cs.check = .ok () → (cs.map (·.denom)).Nodup ∧ ∀ cs' : Coins, cs'.Perm cs →
      (cs'.Pairwise fun c c' => c.denom.bytes ≤ c'.denom.bytes) → cs' = cs) ∧
    ∀ e, cs.check = .error e ↔ cs.FirstFailure e ∨ (∀ c ∈ cs, c.Sound) ∧ cs.FirstTurn e := by
  refine ⟨check_rising, fun h => ?_, fun e => check_error⟩
  obtain ⟨-, hrising⟩ := check_rising.mp h
  exact ⟨hrising.nodup, fun cs' => hrising.eq_of_perm⟩

theorem check_names_first_small :
    let cs : Coins := [⟨"aorai", .one⟩, ⟨"orai", .one⟩, ⟨"uatom", .one⟩]
    (cs.check = .ok () ∧ ∀ cs' : Coins, cs'.Perm cs →
      (cs'.Pairwise fun c c' => c.denom.bytes ≤ c'.denom.bytes) → cs' = cs) ∧
    check [⟨"orai", .one⟩, ⟨"aorai", .one⟩, ⟨"aorai", .one⟩] =
      .error (.descending "orai" "aorai") := by
  intro cs
  have hok : cs.check = .ok () := by decide
  refine ⟨⟨hok, ((check_names_first cs).2.1 hok).2⟩,
    ((check_names_first _).2.2 _).mpr (.inr ⟨?_, ?_⟩)⟩
  · simp only [Coin.Sound]
    decide
  · exact ⟨[], _, _, _, rfl, .singleton _, .inr ⟨by decide, rfl⟩⟩

end Coins

end DualDenom
