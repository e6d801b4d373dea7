import DualDenom.Coin
import Mathlib.Data.List.Basic
import Mathlib.Tactic.SplitIfs

/-!
# Checks and bytes of denoms

A denom is looked through character by character, but its length counts the
bytes of UTF-8, and by these denoms are ordered. Strings are compared by their
characters. A character that is above another one has bytes above the other's,
whatever follows either, so the two orders are one (`bytes_lt_iff`). ASCII
characters take one byte each (`length_bytes`).
-/

namespace DualDenom.Denom

open String (utf8EncodeChar)

theorem check_ok {d : Denom} : d.check = .ok u ↔ d.wellFormed = true := by
  unfold check
  split
  · rename_i h
    exact iff_of_true rfl h
  · rename_i h
    exact iff_of_false nofun h

theorem check_error {d : Denom} :
    d.check = .error e ↔ d.wellFormed = false ∧ e = .malformedDenom d := by
  unfold check
  split
  · rename_i h
    exact iff_of_false nofun fun hbad => Bool.false_ne_true (hbad.1.symm.trans h)
  · rename_i h
    rw [Except.error.injEq, eq_comm]
    exact (and_iff_right (Bool.eq_false_iff.mpr h)).symm

def bytes (d : Denom) : List UInt8 := d.toByteArray.data.toList

theorem bytes_eq (d : Denom) : d.bytes = d.toList.flatMap utf8EncodeChar := by
  rw [bytes, ← String.utf8Encode_toList, List.utf8Encode, List.data_toByteArray]

theorem utf8ByteSize_eq (d : Denom) : d.utf8ByteSize = d.bytes.length := rfl

theorem length_bytes {d : Denom} (h : ∀ c ∈ d.toList, c.toNat < 128) :
    d.bytes.length = d.toList.length := by
  have hone : ∀ c ∈ d.toList, (utf8EncodeChar c).length = 1 := by
    intro c hc
    rw [String.length_utf8EncodeChar, Char.utf8Size_eq_one_iff]
    exact Nat.le_of_lt_succ (h c hc)
  rw [bytes_eq, List.length_flatMap, List.map_congr_left hone]
  simp

/-- Where a longer encoding starts, its first byte is larger; encodings of one length are the
digits of the characters in base 64. -/
theorem utf8EncodeChar_lt {c c' : Char} (h : c < c') (after after' : List UInt8) :
    utf8EncodeChar c ++ after < utf8EncodeChar c' ++ after' := by
  have hlt : c.val.toNat < c'.val.toNat := h
  have hmax : c'.val.toNat < 0x110000 := by
    have hvalid := c'.valid
    simp only [UInt32.isValidChar, Nat.isValidChar] at hvalid
    omega
  unfold utf8EncodeChar
  dsimp only
  generalize c.val.toNat = m at *
  generalize c'.val.toNat = n at *
  split_ifs <;>
    simp (disch := omega) only [List.cons_append, List.nil_append, List.cons_lt_cons_iff,
      UInt8.lt_iff_toNat_lt, ← UInt8.toNat_inj, UInt8.toNat_ofNat', Nat.reducePow,
      Nat.mod_eq_of_lt] <;>
    omega

theorem flatMap_lt {cs cs' : List Char} (h : cs < cs') :
    cs.flatMap utf8EncodeChar < cs'.flatMap utf8EncodeChar := by
  induction h with
  | nil =>
    rename_i c cs
    cases hc : utf8EncodeChar c with
    | nil => exact (String.utf8EncodeChar_ne_nil hc).elim
    | cons b bs =>
      rw [List.flatMap_cons, hc]
      exact .nil
  | cons _ ih => exact List.append_left_lt ih
  | rel h => exact utf8EncodeChar_lt h ..

theorem lt_of_ne {d d' : Denom} (hne : d ≠ d') (hle : ¬d' < d) : d < d' :=
  Decidable.byContradiction fun hge =>
    hne (String.le_antisymm (String.not_lt.mp hle) (String.not_lt.mp hge))

theorem bytes_lt_iff {d d' : Denom} : d.bytes < d'.bytes ↔ d < d' := by
  have hmono : ∀ {d d' : Denom}, d < d' → d.bytes < d'.bytes := by
    intro d d' h
    rw [bytes_eq, bytes_eq]
    exact flatMap_lt h
  refine ⟨fun h => lt_of_ne ?_ ?_, hmono⟩
  · rintro rfl
    exact List.lt_irrefl d.bytes h
  · exact fun hgt => List.lt_asymm h (hmono hgt)

theorem bytes_le_iff {d d' : Denom} : d.bytes ≤ d'.bytes ↔ d ≤ d' := by
  rw [← List.not_lt, bytes_lt_iff, String.not_lt]

end DualDenom.Denom
