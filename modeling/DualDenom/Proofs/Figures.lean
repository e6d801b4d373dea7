import DualDenom.Split
import Mathlib.Algebra.Group.Int.Defs
import Mathlib.Tactic.Abel
import Mathlib.Tactic.Ring

/-!
# Figures

Figures are the numbers of a ledger as integers of any size: what each address
has of each denom, what all addresses have together and how much was issued.
A change of a ledger has figures too, so that changes add up: what is paid
out again, or issued and taken back, cancels. `Config.worth` is the value of
an amount of every denom in evm units; figures are neutral when they move no
value and touch only given addresses and the two denoms of a configuration.
-/

namespace DualDenom

namespace Config

def worth (c : Config) (f : Denom → Int) : Int := f c.cosmosDenom * c.multiplier.val + f c.evmDenom

def rate (c : Config) (units : Int) (d : Denom) : Int :=
  (if d = c.evmDenom then units * c.multiplier.val else 0) - (if d = c.cosmosDenom then units else 0)

theorem worth_add (c : Config) (f g : Denom → Int) :
    (c.worth fun d => f d + g d) = c.worth f + c.worth g := by
  simp only [worth]
  ring

theorem worth_neg (c : Config) (f : Denom → Int) : (c.worth fun d => -f d) = -c.worth f := by
  simp only [worth]
  ring

theorem worth_zero (c : Config) : (c.worth fun _ => 0) = 0 := by simp [worth]

theorem worth_mono (c : Config) {f g : Denom → Int} (h : ∀ d, f d ≤ g d) : c.worth f ≤ c.worth g :=
  Int.add_le_add (Int.mul_le_mul_of_nonneg_right (h _) (Int.natCast_nonneg _)) (h _)

theorem worth_nonneg (c : Config) {f : Denom → Int} (h : ∀ d, 0 ≤ f d) : 0 ≤ c.worth f :=
  c.worth_zero ▸ c.worth_mono h

theorem worth_rate (c : Config) (hne : c.evmDenom ≠ c.cosmosDenom) (units : Int) :
    c.worth (c.rate units) = 0 := by
  simp [worth, rate, hne, hne.symm]

theorem rate_evm (c : Config) (hne : c.evmDenom ≠ c.cosmosDenom) (units : Int) :
    c.rate units c.evmDenom = units * c.multiplier.val := by simp [rate, hne]

theorem rate_cosmos (c : Config) (hne : c.evmDenom ≠ c.cosmosDenom) (units : Int) :
    c.rate units c.cosmosDenom = -units := by simp [rate, hne.symm]

@[simp] theorem rate_zero (c : Config) : c.rate 0 d = 0 := by simp [rate]

end Config

@[ext] structure Figures where
  balance : Address → Denom → Int
  held : Denom → Int
  supply : Denom → Int

namespace Figures

instance : Zero Figures := ⟨⟨fun _ _ => 0, fun _ => 0, fun _ => 0⟩⟩

instance : Add Figures where
  add f g := ⟨fun a d => f.balance a d + g.balance a d, fun d => f.held d + g.held d,
    fun d => f.supply d + g.supply d⟩

instance : Neg Figures where
  neg f := ⟨fun a d => -f.balance a d, fun d => -f.held d, fun d => -f.supply d⟩

instance : AddCommGroup Figures where
  nsmul := nsmulRec
  zsmul := zsmulRec
  add_assoc f g h := by
    ext
    all_goals exact Int.add_assoc ..
  zero_add f := by
    ext
    all_goals exact Int.zero_add _
  add_zero f := by
    ext
    all_goals exact Int.add_zero _
  add_comm f g := by
    ext
    all_goals exact Int.add_comm ..
  neg_add_cancel f := by
    ext
    all_goals exact Int.add_left_neg _

variable (f g : Figures)

@[simp] theorem balance_zero : (0 : Figures).balance a d = 0 := rfl
@[simp] theorem held_zero : (0 : Figures).held d = 0 := rfl
@[simp] theorem supply_zero : (0 : Figures).supply d = 0 := rfl

@[simp] theorem balance_add : (f + g).balance a d = f.balance a d + g.balance a d := rfl
@[simp] theorem held_add : (f + g).held d = f.held d + g.held d := rfl
@[simp] theorem supply_add : (f + g).supply d = f.supply d + g.supply d := rfl

@[simp] theorem balance_neg : (-f).balance a d = -f.balance a d := rfl
@[simp] theorem held_neg : (-f).held d = -f.held d := rfl
@[simp] theorem supply_neg : (-f).supply d = -f.supply d := rfl

def inHand (a : Address) (c : Coin) : Figures where
  balance x d := if x = a ∧ d = c.denom then c.amount.val else 0
  held d := if d = c.denom then c.amount.val else 0
  supply _ := 0

def inIssue (c : Coin) : Figures where
  balance _ _ := 0
  held _ := 0
  supply d := if d = c.denom then c.amount.val else 0

@[simp] theorem balance_inHand :
    (inHand a c).balance x d = if x = a ∧ d = c.denom then (c.amount.val : Int) else 0 := rfl
@[simp] theorem held_inHand :
    (inHand a c).held d = if d = c.denom then (c.amount.val : Int) else 0 := rfl
@[simp] theorem supply_inHand : (inHand a c).supply d = 0 := rfl

@[simp] theorem balance_inIssue : (inIssue c).balance a d = 0 := rfl
@[simp] theorem held_inIssue : (inIssue c).held d = 0 := rfl
@[simp] theorem supply_inIssue :
    (inIssue c).supply d = if d = c.denom then (c.amount.val : Int) else 0 := rfl

theorem inHand_of_isZero (hc : c.amount.val = 0) : inHand a c = 0 := by
  ext <;> simp [hc]

theorem inIssue_of_isZero (hc : c.amount.val = 0) : inIssue c = 0 := by
  ext <;> simp [hc]

/-- `units` cosmos units of `a` become evm units; a negative number of them is
made of evm units. -/
def conversion (c : Config) (a : Address) (units : Int) : Figures where
  balance x d := if x = a then c.rate units d else 0
  held d := c.rate units d
  supply d := c.rate units d

@[simp] theorem balance_conversion :
    (conversion c a u).balance x d = if x = a then c.rate u d else 0 := rfl
@[simp] theorem held_conversion : (conversion c a u).held d = c.rate u d := rfl
@[simp] theorem supply_conversion : (conversion c a u).supply d = c.rate u d := rfl

@[simp] theorem conversion_zero : conversion c a 0 = 0 := by
  ext <;> simp

/-- No value moves, and only balances of the addresses in `A` and amounts of the
two denoms do. -/
structure Neutral (c : Config) (A : Address → Prop) (f : Figures) : Prop where
  worth : ∀ a, c.worth (f.balance a) = 0
  held : c.worth f.held = 0
  supply : c.worth f.supply = 0
  elsewhere : ∀ a, ¬A a → ∀ d, f.balance a d = 0
  foreign : ∀ d, d ≠ c.evmDenom → d ≠ c.cosmosDenom → (∀ a, f.balance a d = 0) ∧ f.supply d = 0

theorem neutral_zero : Neutral c A 0 where
  worth _ := c.worth_zero
  held := c.worth_zero
  supply := c.worth_zero
  elsewhere _ _ _ := rfl
  foreign _ _ _ := ⟨fun _ => rfl, rfl⟩

variable {f g}

theorem Neutral.add (hf : Neutral c A f) (hg : Neutral c A g) : Neutral c A (f + g) where
  worth a := (c.worth_add ..).trans (by rw [hf.worth, hg.worth, add_zero])
  held := (c.worth_add ..).trans (by rw [hf.held, hg.held, add_zero])
  supply := (c.worth_add ..).trans (by rw [hf.supply, hg.supply, add_zero])
  elsewhere a ha d := by rw [balance_add, hf.elsewhere a ha, hg.elsewhere a ha, add_zero]
  foreign d he hc := by
    obtain ⟨hfb, hfs⟩ := hf.foreign d he hc
    obtain ⟨hgb, hgs⟩ := hg.foreign d he hc
    exact ⟨fun a => by rw [balance_add, hfb, hgb, add_zero], by rw [supply_add, hfs, hgs, add_zero]⟩

theorem Neutral.mono (hf : Neutral c A f) (h : ∀ a, A a → B a) : Neutral c B f :=
  { hf with elsewhere := fun a ha => hf.elsewhere a fun hA => ha (h a hA) }

theorem neutral_conversion (hne : c.evmDenom ≠ c.cosmosDenom) (ha : u ≠ 0 → A a) :
    Neutral c A (conversion c a u) where
  worth x := by
    show (c.worth fun d => if x = a then c.rate u d else 0) = 0
    by_cases hx : x = a
    · simpa [hx] using c.worth_rate hne u
    · simpa [hx] using c.worth_zero
  held := c.worth_rate hne u
  supply := c.worth_rate hne u
  elsewhere x hx d := by
    by_cases hu : u = 0
    · simp [hu]
    · have hxa : x ≠ a := fun h => hx (h ▸ ha hu)
      simp [hxa]
  foreign d he hc := by simp [Config.rate, he, hc]

end Figures

end DualDenom
