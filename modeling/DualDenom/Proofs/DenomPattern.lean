import DualDenom.Proofs.DenomLaws
import Mathlib.Computability.RegularExpressions

/-!
# The pattern of denoms

The denoms that pass the check are the words of one regular expression: a
letter, and then 2 to 127 letters, digits or marks (`check_accepts_pattern`).
The check bounds the bytes of a denom and the expression its characters.
Neither lets in a character that is not ASCII, so the two lengths are the same.
-/

namespace DualDenom.Denom

def oneOf (cs : List Char) : RegularExpression Char := (cs.map .char).sum

/-- From `m` to `n` words of the expression, one after the other. -/
def repeated (r : RegularExpression Char) (m n : Nat) : RegularExpression Char :=
  r ^ m * (1 + r) ^ (n - m)

def words (cs : List Char) (m n : Nat) : Language Char :=
  {w | m ≤ w.length ∧ w.length ≤ n ∧ ∀ c ∈ w, c ∈ cs}

variable {cs w : List Char} {m n m' n' : Nat}

theorem mem_words : w ∈ words cs m n ↔ m ≤ w.length ∧ w.length ≤ n ∧ ∀ c ∈ w, c ∈ cs := Iff.rfl

theorem words_zero : words cs 0 0 = 1 := by
  ext w
  rw [mem_words, Language.mem_one]
  constructor
  · intro h
    exact List.length_eq_zero_iff.mp (Nat.le_zero.mp h.2.1)
  · rintro rfl
    exact ⟨Nat.le_refl 0, Nat.le_refl 0, nofun⟩

theorem words_mul (h : m ≤ n) (h' : m' ≤ n') :
    words cs m n * words cs m' n' = words cs (m + m') (n + n') := by
  ext w
  rw [Language.mem_mul, mem_words]
  constructor
  · rintro ⟨u, ⟨hm, hn, hu⟩, v, ⟨hm', hn', hv⟩, rfl⟩
    rw [List.length_append]
    exact ⟨by omega, by omega, List.forall_mem_append.mpr ⟨hu, hv⟩⟩
  · rintro ⟨hm, hn, hw⟩
    -- The first part is as short as what is left for the second one allows.
    let k := max m (w.length - n')
    refine ⟨w.take k, ⟨?_, ?_, fun c hc => hw c (List.mem_of_mem_take hc)⟩,
      w.drop k, ⟨?_, ?_, fun c hc => hw c (List.mem_of_mem_drop hc)⟩, List.take_append_drop ..⟩ <;>
      simp only [List.length_take, List.length_drop, k] <;> omega

theorem words_pow (h : m ≤ n) (k : Nat) : words cs m n ^ k = words cs (k * m) (k * n) := by
  induction k with
  | zero => rw [pow_zero, Nat.zero_mul, Nat.zero_mul, words_zero]
  | succ k ih =>
    rw [pow_succ, ih, words_mul (Nat.mul_le_mul_left k h) h, Nat.succ_mul, Nat.succ_mul]

theorem mem_oneOf : w ∈ (oneOf cs).matches' ↔ ∃ c ∈ cs, w = [c] := by
  induction cs with
  | nil => exact iff_of_false id nofun
  | cons c cs ih =>
    show w ∈ ({[c]} : Language Char) + (oneOf cs).matches' ↔ _
    rw [Language.mem_add, ih, List.exists_mem_cons_iff]
    rfl

theorem oneOf_matches : (oneOf cs).matches' = words cs 1 1 := by
  ext w
  rw [mem_oneOf, mem_words]
  constructor
  · rintro ⟨c, hc, rfl⟩
    exact ⟨Nat.le_refl 1, Nat.le_refl 1, List.forall_mem_singleton.mpr hc⟩
  · rintro ⟨hm, hn, hw⟩
    obtain ⟨c, rfl⟩ := List.length_eq_one_iff.mp (Nat.le_antisymm hn hm)
    exact ⟨c, hw c (List.mem_singleton_self c), rfl⟩

theorem optional_matches : (1 + oneOf cs).matches' = words cs 0 1 := by
  ext w
  rw [RegularExpression.matches'_add, RegularExpression.matches'_epsilon, oneOf_matches,
    ← @words_zero cs, Language.mem_add]
  simp only [mem_words, ← and_assoc, ← or_and_right]
  exact and_congr_left fun _ => by omega

theorem repeated_matches (h : m ≤ n) : (repeated (oneOf cs) m n).matches' = words cs m n := by
  rw [repeated, RegularExpression.matches'_mul, RegularExpression.matches'_pow,
    RegularExpression.matches'_pow, oneOf_matches, optional_matches, words_pow (Nat.le_refl 1),
    words_pow (Nat.zero_le 1), words_mul (by omega) (by omega)]
  congr 1 <;> omega

def letters : List Char := ('a' ...= 'z').toList ++ ('A' ...= 'Z').toList

def digits : List Char := ('0' ...= '9').toList

def tails : List Char := letters ++ digits ++ ['/', ':', '.', '_', '-']

theorem mem_range {c first last : Char} : c ∈ (first ...= last).toList ↔ first ≤ c ∧ c ≤ last := by
  rw [Std.Rcc.mem_toList_iff_mem, Std.Rcc.mem_iff]

theorem isAlpha_iff {c : Char} : c.isAlpha = true ↔ c ∈ letters := by
  have hupper : c.isUpper = true ↔ 'A' ≤ c ∧ c ≤ 'Z' := decide_eq_true_iff
  have hlower : c.isLower = true ↔ 'a' ≤ c ∧ c ≤ 'z' :=
    Bool.and_eq_true_iff.trans (and_congr decide_eq_true_iff decide_eq_true_iff)
  rw [letters, List.mem_append, mem_range, mem_range, ← hupper, ← hlower, or_comm]
  exact Bool.or_eq_true_iff

theorem isTail_iff {c : Char} : isTail c = true ↔ c ∈ tails := by
  have hdigit : c.isDigit = true ↔ c ∈ digits := by
    rw [digits, mem_range]
    simp [Char.isDigit, Char.le_def]
  simp only [isTail, Char.isAlphanum, Bool.or_eq_true, decide_eq_true_eq, isAlpha_iff, hdigit,
    tails, List.mem_append, List.mem_cons, List.not_mem_nil, or_false, or_assoc]

theorem toNat_lt_of_mem_tails {c : Char} (h : c ∈ tails) : c.toNat < 128 := by
  simp only [tails, letters, digits, List.mem_append, mem_range, List.mem_cons, List.not_mem_nil,
    or_false] at h
  have hbelow : ∀ last : Char, last.toNat < 128 → c ≤ last → c.toNat < 128 :=
    fun last hlast hle => Nat.lt_of_le_of_lt hle hlast
  rcases h with ((h | h) | h) | rfl | rfl | rfl | rfl | rfl
  · exact hbelow 'z' (by decide) h.2
  · exact hbelow 'Z' (by decide) h.2
  · exact hbelow '9' (by decide) h.2
  all_goals decide

/-- `[a-zA-Z][a-zA-Z0-9/:._-]{2,127}` -/
def pattern : RegularExpression Char := oneOf letters * repeated (oneOf tails) 2 127

theorem nil_not_mem_pattern : [] ∉ pattern.matches' := by
  rw [pattern, RegularExpression.matches'_mul, Language.mem_mul]
  rintro ⟨u, hu, v, -, h⟩
  obtain ⟨c, -, rfl⟩ := mem_oneOf.mp hu
  cases h

theorem cons_mem_pattern : c :: rest ∈ pattern.matches' ↔
    (c ∈ letters ∧ ∀ c' ∈ rest, c' ∈ tails) ∧ 2 ≤ rest.length ∧ rest.length ≤ 127 := by
  rw [pattern, RegularExpression.matches'_mul, repeated_matches (by decide), Language.mem_mul]
  constructor
  · rintro ⟨u, hu, v, ⟨hmin, hmax, hv⟩, h⟩
    obtain ⟨c', hc, rfl⟩ := mem_oneOf.mp hu
    cases h
    exact ⟨⟨hc, hv⟩, hmin, hmax⟩
  · rintro ⟨⟨hc, hrest⟩, hmin, hmax⟩
    exact ⟨[c], mem_oneOf.mpr ⟨c, hc, rfl⟩, rest, ⟨hmin, hmax, hrest⟩, rfl⟩

/-- A letter may stand in the other places too, so every character is ASCII. -/
theorem utf8ByteSize_of_tails {d : Denom} (hd : d.toList = c :: rest) (hc : c ∈ letters)
    (hrest : ∀ c' ∈ rest, c' ∈ tails) : d.utf8ByteSize = rest.length + 1 := by
  have htails : ∀ c' ∈ d.toList, c' ∈ tails := by
    rw [hd]
    exact List.forall_mem_cons.mpr ⟨List.mem_append_left _ (List.mem_append_left _ hc), hrest⟩
  rw [utf8ByteSize_eq, length_bytes fun c' h => toNat_lt_of_mem_tails (htails c' h), hd,
    List.length_cons]

theorem wellFormed_iff {d : Denom} : d.wellFormed = true ↔ d.toList ∈ pattern.matches' := by
  rw [wellFormed]
  cases hd : d.toList with
  | nil => simp [nil_not_mem_pattern]
  | cons c rest =>
    simp only [cons_mem_pattern, Bool.and_eq_true, decide_eq_true_eq, isAlpha_iff,
      List.all_eq_true, isTail_iff]
    rw [and_comm]
    refine and_congr_right fun ⟨hc, hrest⟩ => ?_
    rw [utf8ByteSize_of_tails hd hc hrest, minLength, maxLength]
    omega

/-- The check accepts the words of the pattern, and names any other denom as malformed. -/
theorem check_accepts_pattern (d : Denom) :
    (d.check = .ok () ↔ d.toList ∈ pattern.matches') ∧
    ∀ e, d.check = .error e ↔ d.toList ∉ pattern.matches' ∧ e = .malformedDenom d := by
  rw [← wellFormed_iff]
  exact ⟨check_ok, fun e => check_error.trans (and_congr_left' (Bool.eq_false_iff))⟩

/-- Three bytes that are two characters. -/
example : (bytes "aé").length = 3 ∧ check "aé" = .error (.malformedDenom "aé") := by decide

end DualDenom.Denom
