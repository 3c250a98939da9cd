import Mathlib.Tactic.Common
import Mathlib.Data.Int.Notation

/-! # Signed arithmetic with overflow

The value of an expression in a signed machine type that holds the integers from `-B`
to `B - 1`. It is lost as soon as one operation leaves that range; division and
remainder truncate towards zero.
-/

set_option autoImplicit false

/-- The value of an expression, or nothing after an overflow. -/
def Checked (_ : ℤ) : Type := Option ℤ

namespace Checked

variable {B : ℤ} {a b : ℤ}

/-- The type that holds the integers from `-B` to `B - 1` holds `a`. -/
def Fits (B a : ℤ) : Prop := -B ≤ a ∧ a < B

instance : Decidable (Fits B a) := inferInstanceAs (Decidable (_ ∧ _))

def ofInt (a : ℤ) : Checked B := some a

def value (x : Checked B) : Option ℤ := x

def fit (a : ℤ) : Checked B := if Fits B a then some a else none

def lift (f : ℤ → ℤ → ℤ) : Checked B → Checked B → Checked B
  | some a, some b => fit (f a b)
  | _, _ => none

instance : Coe ℤ (Checked B) := ⟨ofInt⟩

instance {n : ℕ} : OfNat (Checked B) n := ⟨ofInt (OfNat.ofNat n)⟩

instance : Add (Checked B) := ⟨lift (· + ·)⟩

instance : Sub (Checked B) := ⟨lift (· - ·)⟩

instance : Mul (Checked B) := ⟨lift (· * ·)⟩

instance : Div (Checked B) := ⟨lift Int.tdiv⟩

instance : Mod (Checked B) := ⟨lift Int.tmod⟩

@[simp] theorem value_ofInt : (ofInt a : Checked B).value = some a := rfl

theorem ofNat_eq {n : ℕ} : (OfNat.ofNat n : Checked B) = ofInt (OfNat.ofNat n) := rfl

theorem lift_ofInt {f : ℤ → ℤ → ℤ} (h : -B ≤ f a b) (h' : f a b < B) :
    lift f (ofInt a) (ofInt b) = (ofInt (f a b) : Checked B) := if_pos ⟨h, h'⟩

theorem ofInt_add (h : -B ≤ a + b) (h' : a + b < B) :
    (ofInt a + ofInt b : Checked B) = ofInt (a + b) := lift_ofInt h h'

theorem ofInt_sub (h : -B ≤ a - b) (h' : a - b < B) :
    (ofInt a - ofInt b : Checked B) = ofInt (a - b) := lift_ofInt h h'

theorem ofInt_mul (h : -B ≤ a * b) (h' : a * b < B) :
    (ofInt a * ofInt b : Checked B) = ofInt (a * b) := lift_ofInt h h'

theorem ofInt_tdiv (h : -B ≤ a.tdiv b) (h' : a.tdiv b < B) :
    (ofInt a / ofInt b : Checked B) = ofInt (a.tdiv b) := lift_ofInt h h'

theorem ofInt_tmod (h : -B ≤ a.tmod b) (h' : a.tmod b < B) :
    (ofInt a % ofInt b : Checked B) = ofInt (a.tmod b) := lift_ofInt h h'

theorem ofInt_div (ha : 0 ≤ a) (h : -B ≤ a / b) (h' : a / b < B) :
    (ofInt a / ofInt b : Checked B) = ofInt (a / b) := by
  rw [← Int.tdiv_eq_ediv_of_nonneg ha] at *
  exact ofInt_tdiv h h'

theorem ofInt_mod (ha : 0 ≤ a) (h : -B ≤ a % b) (h' : a % b < B) :
    (ofInt a % ofInt b : Checked B) = ofInt (a % b) := by
  rw [← Int.tmod_eq_emod_of_nonneg ha] at *
  exact ofInt_tmod h h'

end Checked
