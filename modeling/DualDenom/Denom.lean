/-!
# Denominations

A denom names an asset. A well-formed one starts with a letter and goes on
with letters, digits and the marks `/ : . _ -`; it takes 3 to 128 bytes of
UTF-8. Letters and digits are the ASCII ones. Denoms are ordered by their
UTF-8 bytes, which is the order of their code points.
-/

namespace DualDenom

abbrev Denom := String

namespace Denom

def minLength : Nat := 3

def maxLength : Nat := 128

def isTail (c : Char) : Bool :=
  c.isAlphanum || c = '/' || c = ':' || c = '.' || c = '_' || c = '-'

def wellFormed (d : Denom) : Bool :=
  minLength ≤ d.utf8ByteSize && d.utf8ByteSize ≤ maxLength &&
    match d.toList with
    | [] => false
    | c :: rest => c.isAlpha && rest.all isTail

end Denom

end DualDenom
