import DualDenom.Json
import Mathlib.Data.List.Forall2

/-!
# What is expected of JSON

Strict JSON, as far as objects of texts and of lists of texts need it, is given
as a relation between tokens and characters (`Spells`): spaces, tabs and line
ends may stand around tokens, and a character of a text may be spelled in any
way that JSON has for it. A library is expected to write an object without
spaces and with few escapes (`WritesCompactly`), and to read an object however
it is spelled, if it has exactly the fields that are declared (`ReadsStrictly`).
Nothing is expected of it where a text is no strict JSON.
-/

namespace DualDenom.Json

inductive Value
  | text (s : String)
  | list (items : List String)
  deriving DecidableEq

/-- The fields of an object in their order, repetitions kept. -/
abbrev Document := List (String × Value)

inductive Mark
  | openBrace
  | closeBrace
  | openBracket
  | closeBracket
  | colon
  | comma
  deriving DecidableEq

def Mark.char : Mark → Char
  | .openBrace => '\x7b'
  | .closeBrace => '\x7d'
  | .openBracket => '['
  | .closeBracket => ']'
  | .colon => ':'
  | .comma => ','

inductive Token
  | mark (m : Mark)
  | text (s : String)
  deriving DecidableEq

namespace Document

def separated : List (List Token) → List Token
  | [] => []
  | [ts] => ts
  | ts :: rest => ts ++ .mark .comma :: separated rest

def valueTokens : Value → List Token
  | .text s => [.text s]
  | .list items =>
    .mark .openBracket :: separated (items.map fun s => [.text s]) ++ [.mark .closeBracket]

def fieldTokens (f : String × Value) : List Token :=
  .text f.1 :: .mark .colon :: valueTokens f.2

def tokens (doc : Document) : List Token :=
  .mark .openBrace :: separated (doc.map fieldTokens) ++ [.mark .closeBrace]

end Document

def shortEscapes : List (Char × Char) :=
  [('"', '"'), ('\\', '\\'), ('/', '/'), ('b', '\x08'), ('f', '\x0c'), ('n', '\n'), ('r', '\r'),
    ('t', '\t')]

def hexValue? (c : Char) : Option Nat :=
  if '0' ≤ c ∧ c ≤ '9' then some (c.toNat - '0'.toNat)
  else if 'A' ≤ c ∧ c ≤ 'F' then some (c.toNat - 'A'.toNat + 10)
  else if 'a' ≤ c ∧ c ≤ 'f' then some (c.toNat - 'a'.toNat + 10)
  else none

/-- Letters are upper-case. -/
def hexDigit (n : Nat) : Char :=
  if n < 10 then Char.ofNat (n + '0'.toNat) else Char.ofNat (n - 10 + 'A'.toNat)

/-- There is no such thing for a number that takes more than four digits. -/
def FourDigits (n : Nat) (ds : List Char) : Prop :=
  List.Forall₂ (fun d v => hexValue? d = some v) ds
    [n / 0x1000, n / 0x100 % 0x10, n / 0x10 % 0x10, n % 0x10]

/-- The first of the two units of a character beyond `U+FFFF`. -/
def highSurrogate (c : Char) : Nat := 0xD800 + (c.toNat - 0x10000) / 0x400

def lowSurrogate (c : Char) : Nat := 0xDC00 + (c.toNat - 0x10000) % 0x400

inductive Spelling : Char → List Char → Prop
  | plain (hcontrol : 0x20 ≤ c.toNat) (hquote : c ≠ '"') (hbackslash : c ≠ '\\') : Spelling c [c]
  | short (h : (letter, c) ∈ shortEscapes) : Spelling c ['\\', letter]
  | unit (h : FourDigits c.toNat ds) : Spelling c ('\\' :: 'u' :: ds)
  | pair (h : 0x10000 ≤ c.toNat) (hhigh : FourDigits (highSurrogate c) ds)
      (hlow : FourDigits (lowSurrogate c) ds') :
      Spelling c ('\\' :: 'u' :: ds ++ '\\' :: 'u' :: ds')

inductive CompactSpelling : Char → List Char → Prop
  | plain (hcontrol : 0x20 ≤ c.toNat) (hquote : c ≠ '"') (hbackslash : c ≠ '\\') :
      CompactSpelling c [c]
  | short (h : (letter, c) ∈ shortEscapes) (hslash : c ≠ '/') : CompactSpelling c ['\\', letter]
  | unit (hcontrol : c.toNat < 0x20) (hshort : ∀ letter, (letter, c) ∉ shortEscapes) :
      CompactSpelling c ['\\', 'u', '0', '0', hexDigit (c.toNat / 0x10), hexDigit (c.toNat % 0x10)]

theorem hexValue?_hexDigit : ∀ n < 16, hexValue? (hexDigit n) = some n := by decide

theorem CompactSpelling.spelling (h : CompactSpelling c p) : Spelling c p := by
  cases h with
  | plain hcontrol hquote hbackslash => exact .plain hcontrol hquote hbackslash
  | short h _ => exact .short h
  | unit hcontrol _ =>
    have hzero : hexValue? '0' = some 0 := rfl
    have h₁ : c.toNat / 0x1000 = 0 := by omega
    have h₂ : c.toNat / 0x100 % 0x10 = 0 := by omega
    have h₃ : c.toNat / 0x10 % 0x10 = c.toNat / 0x10 := by omega
    refine .unit ?_
    rw [FourDigits, h₁, h₂, h₃]
    exact .cons hzero (.cons hzero (.cons (hexValue?_hexDigit _ (by omega))
      (.cons (hexValue?_hexDigit _ (by omega)) .nil)))

section

variable (spelling : Char → List Char → Prop) (gap : List Char → Prop)

inductive Token.Spells : Token → List Char → Prop
  | mark (m : Mark) : Token.Spells (.mark m) [m.char]
  | text (h : List.Forall₂ spelling s.toList ps) : Token.Spells (.text s) ('"' :: ps.flatten ++ ['"'])

/-- Tokens one after the other, with a gap before each and one after the last. -/
inductive Spells : List Token → List Char → Prop
  | done (hg : gap g) : Spells [] g
  | token (hg : gap g) (ht : t.Spells spelling p) (hrest : Spells ts cs) :
      Spells (t :: ts) (g ++ (p ++ cs))

end

section

variable {spelling spelling' : Char → List Char → Prop} {gap gap' : List Char → Prop}

theorem Token.Spells.mono (hspelling : ∀ c p, spelling c p → spelling' c p)
    (h : Token.Spells spelling t p) : Token.Spells spelling' t p := by
  cases h with
  | mark m => exact .mark m
  | text h => exact .text (h.imp hspelling)

theorem Spells.mono (hspelling : ∀ c p, spelling c p → spelling' c p)
    (hgap : ∀ g, gap g → gap' g) (h : Spells spelling gap ts cs) : Spells spelling' gap' ts cs := by
  induction h with
  | done hg => exact .done (hgap _ hg)
  | token hg ht _ ih => exact .token (hgap _ hg) (ht.mono hspelling) ih

end

def spaces : List Char := [' ', '\t', '\n', '\r']

namespace Document

def SpelledBy (doc : Document) (s : String) : Prop :=
  Spells Spelling (∀ c ∈ ·, c ∈ spaces) doc.tokens s.toList

def CompactlySpelledBy (doc : Document) (s : String) : Prop :=
  Spells CompactSpelling (· = []) doc.tokens s.toList

theorem CompactlySpelledBy.spelledBy {doc : Document} (h : doc.CompactlySpelledBy s) :
    doc.SpelledBy s :=
  h.mono (fun _ _ => CompactSpelling.spelling) fun _ hg _ hc => absurd (hg ▸ hc) List.not_mem_nil

end Document

def FieldValue.written : FieldValue → Value
  | .text s => .text s
  | .amount n => .text n.text
  | .names items => .list items

def Record.written (r : Record) : Document := r.map fun f => (f.1, f.2.written)

def FieldType.read? : FieldType → Value → Option FieldValue
  | .text, .text s => some (.text s)
  | .amount, .text s => (Amount.ofText? s).map .amount
  | .names known, .list items => if ∀ s ∈ items, s ∈ known then some (.names items) else none
  | _, _ => none

/-- A document has the declared fields, each of them once, and no others, and the record is what
their values are read as. -/
structure Declaration.Takes (decl : Declaration) (doc : Document) (r : Record) : Prop where
  known : ∀ f ∈ doc, f.1 ∈ decl.map Prod.fst
  fields : List.Forall₂ (fun d f => d.1 = f.1 ∧
    ∃ v, doc.filter (·.1 = d.1) = [(d.1, v)] ∧ d.2.read? v = some f.2) decl r

namespace Library

variable (L : Library)

/-- Assumed of a library: it writes every record, with its fields in their order and no spaces. -/
def WritesCompactly : Prop :=
  ∀ r : Record, (r.map Prod.fst).Nodup →
    ∃ s, L.write? r = some s ∧ r.written.CompactlySpelledBy s

/-- Assumed of a library: spelling makes no difference to it, and it refuses fields that are unknown,
missing or there twice, and values of another type. -/
def ReadsStrictly : Prop :=
  ∀ (decl : Declaration) (doc : Document) (s : String), (decl.map Prod.fst).Nodup →
    doc.SpelledBy s → ∀ r, L.read? decl s = some r ↔ decl.Takes doc r

end Library

end DualDenom.Json
