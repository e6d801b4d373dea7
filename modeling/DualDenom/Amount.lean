/-!
# Amounts

An amount is a natural number below `2 ^ 128`. Arithmetic on amounts is exact
or fails with the operands that did not fit; the saturating forms stop at the
ends of the range. Amounts are written in decimal.
-/

namespace DualDenom

/-- The least number that is too large for an amount, `2 ^ 128`. -/
def Amount.bound : Nat := 340282366920938463463374607431768211456

structure Amount where
  val : Nat
  isLt : val < Amount.bound
  deriving DecidableEq

inductive Arith
  | add
  | sub
  | mul
  deriving DecidableEq, Repr

structure Overflow where
  op : Arith
  left : Amount
  right : Amount
  deriving DecidableEq

structure DivisionByZero where
  dividend : Amount
  deriving DecidableEq

namespace Amount

variable {a b c : Amount} {n : Nat}

theorem ext (h : a.val = b.val) : a = b := by
  cases a; cases b; cases h; rfl

theorem ext_iff : a = b ↔ a.val = b.val := ⟨congrArg val, ext⟩

def ofNat? (n : Nat) : Option Amount :=
  if h : n < bound then some ⟨n, h⟩ else none

theorem ofNat?_eq_some : ofNat? n = some a ↔ a.val = n := by
  unfold ofNat?
  split
  · rename_i h
    simp only [Option.some.injEq]
    exact ⟨fun e => e ▸ rfl, fun e => ext e.symm⟩
  · rename_i h
    simp only [reduceCtorEq, false_iff]
    exact fun e => h (e ▸ a.isLt)

theorem ofNat?_eq_none : ofNat? n = none ↔ bound ≤ n := by
  unfold ofNat?
  split <;> simp only [reduceCtorEq, true_iff, false_iff] <;> omega

/-- The amount of `n`, or the largest amount when `n` is larger. -/
def clamp (n : Nat) : Amount :=
  if h : n < bound then ⟨n, h⟩ else ⟨bound - 1, by decide⟩

theorem val_clamp : (clamp n).val = min n (bound - 1) := by
  unfold clamp
  split <;> simp only [] <;> omega

def zero : Amount := ⟨0, by decide⟩

def one : Amount := ⟨1, by decide⟩

def largest : Amount := ⟨bound - 1, by decide⟩

instance : Inhabited Amount := ⟨zero⟩

instance : LE Amount := ⟨fun a b => a.val ≤ b.val⟩

instance : LT Amount := ⟨fun a b => a.val < b.val⟩

instance : DecidableLE Amount := fun a b => Nat.decLe a.val b.val

instance : DecidableLT Amount := fun a b => Nat.decLt a.val b.val

theorem le_def : a ≤ b ↔ a.val ≤ b.val := Iff.rfl

theorem lt_def : a < b ↔ a.val < b.val := Iff.rfl

@[simp] theorem val_zero : zero.val = 0 := rfl

@[simp] theorem val_one : one.val = 1 := rfl

def isZero (a : Amount) : Bool := a.val = 0

@[simp] theorem isZero_iff : a.isZero = true ↔ a.val = 0 := by simp [isZero]

@[simp] theorem isZero_eq_false : a.isZero = false ↔ a.val ≠ 0 := by simp [isZero]

def checked (op : Arith) (a b : Amount) (n : Nat) : Except Overflow Amount :=
  match ofNat? n with
  | some r => .ok r
  | none => .error ⟨op, a, b⟩

def add (a b : Amount) : Except Overflow Amount := checked .add a b (a.val + b.val)

def mul (a b : Amount) : Except Overflow Amount := checked .mul a b (a.val * b.val)

def sub (a b : Amount) : Except Overflow Amount :=
  if b ≤ a then .ok ⟨a.val - b.val, Nat.lt_of_le_of_lt (Nat.sub_le ..) a.isLt⟩
  else .error ⟨.sub, a, b⟩

def addSat (a b : Amount) : Amount := clamp (a.val + b.val)

def subSat (a b : Amount) : Amount :=
  ⟨a.val - b.val, Nat.lt_of_le_of_lt (Nat.sub_le ..) a.isLt⟩

def div (a b : Amount) : Except DivisionByZero Amount :=
  if b.isZero then .error ⟨a⟩
  else .ok ⟨a.val / b.val, Nat.lt_of_le_of_lt (Nat.div_le_self ..) a.isLt⟩

def mod (a b : Amount) : Except DivisionByZero Amount :=
  if b.isZero then .error ⟨a⟩
  else .ok ⟨a.val % b.val, Nat.lt_of_le_of_lt (Nat.mod_le ..) a.isLt⟩

theorem checked_eq_ok {op : Arith} : checked op a b n = .ok c ↔ c.val = n := by
  rw [← ofNat?_eq_some, checked]
  cases ofNat? n <;> simp

theorem checked_eq_error {op : Arith} {e : Overflow} :
    checked op a b n = .error e ↔ bound ≤ n ∧ e = ⟨op, a, b⟩ := by
  rw [← ofNat?_eq_none, checked]
  cases ofNat? n <;> simp [eq_comm]

theorem add_eq_ok : a.add b = .ok c ↔ c.val = a.val + b.val := checked_eq_ok

theorem mul_eq_ok : a.mul b = .ok c ↔ c.val = a.val * b.val := checked_eq_ok

theorem sub_eq_ok : a.sub b = .ok c ↔ b.val ≤ a.val ∧ c.val = a.val - b.val := by
  unfold sub
  split
  · rename_i h
    rw [le_def] at h
    simp [h, ext_iff, eq_comm]
  · rename_i h
    rw [le_def] at h
    simp [h]

@[simp] theorem val_addSat : (a.addSat b).val = min (a.val + b.val) (bound - 1) := val_clamp

@[simp] theorem val_subSat : (a.subSat b).val = a.val - b.val := rfl

theorem div_eq_ok : a.div b = .ok c ↔ b.val ≠ 0 ∧ c.val = a.val / b.val := by
  rw [div, ← isZero_eq_false]
  cases b.isZero <;> simp [ext_iff, eq_comm]

theorem mod_eq_ok : a.mod b = .ok c ↔ b.val ≠ 0 ∧ c.val = a.val % b.val := by
  rw [mod, ← isZero_eq_false]
  cases b.isZero <;> simp [ext_iff, eq_comm]

def text (a : Amount) : String := Nat.repr a.val

/-- Reads decimal digits with an optional plus sign before them. Leading zeros
are read; no digit at all, another character or a value that is no amount is
refused. -/
def ofText? (s : String) : Option Amount :=
  let digits := match s.toList with
    | '+' :: rest => rest
    | cs => cs
  if digits ≠ [] ∧ digits.all Char.isDigit then ofNat? (Nat.ofDigitChars 10 digits 0) else none

def powTen? (n : Nat) : Option Amount := ofNat? (Nat.pow 10 n)

end Amount

def Arith.name : Arith → String
  | .add => "Add"
  | .sub => "Sub"
  | .mul => "Mul"

def Overflow.message (o : Overflow) : String :=
  s!"Cannot {o.op.name} with {o.left.text} and {o.right.text}"

def DivisionByZero.message (d : DivisionByZero) : String :=
  s!"Cannot divide {d.dividend.text} by zero"

end DualDenom
