import CodeZard.Amounts

namespace CodeZard.Stroops

open Amounts Decimals

def reduceTo (ideal : Int) (coeff : Nat) (exp : Int) : Nat → Nat × Int
  | 0 => (coeff, exp)
  | fuel + 1 => if exp < ideal ∧ coeff % 10 = 0 then reduceTo ideal (coeff / 10) (exp + 1) fuel else (coeff, exp)

/-- Division to the precision of the context. A quotient that is cut short keeps
a mark of it in its last digit, so that it is not rounded twice. -/
def div : Decimal → Decimal → Except Signal Decimal
  | .nan true, _ | _, .nan true => .error .invalidOperation
  | .nan false, _ | _, .nan false => .ok (.nan false)
  | .infinity _, .infinity _ => .error .invalidOperation
  | .infinity s, .finite t _ _ => .ok (.infinity (s != t))
  | .finite s _ _, .infinity t => .ok (.finite (s != t) 0 etiny)
  | .finite s c e, .finite t d f =>
      if d = 0 then .error (if c = 0 then .invalidOperation else .divisionByZero)
      else if c = 0 then finalize (s != t) 0 (e - f)
      else
        let shift : Int := digitCount d - digitCount c + precision + 1
        let dividend := c * 10 ^ shift.toNat
        let divisor := d * 10 ^ (-shift).toNat
        let coeff := dividend / divisor
        if dividend % divisor ≠ 0 then
          finalize (s != t) (if coeff % 5 = 0 then coeff + 1 else coeff) (e - f - shift)
        else
          let (coeff, exp) := reduceTo (e - f) coeff (e - f - shift) shift.toNat
          finalize (s != t) coeff exp

def isFinite : Decimal → Bool
  | .finite .. => true
  | _ => false

def isPositive : Decimal → Bool
  | .finite negative coeff _ => !negative && coeff ≠ 0
  | .infinity negative => !negative
  | .nan _ => false

/-- The exponent of Stellar's smallest unit. -/
def STROOPS : Int := -7

def roundUp (coeff drop : Nat) : Nat :=
  if coeff % 10 ^ drop = 0 then coeff / 10 ^ drop else coeff / 10 ^ drop + 1

def quantizeStroops : Decimal → Except Signal Decimal
  | .finite negative coeff exp =>
      if coeff ≠ 0 ∧ precision < digitCount coeff + exp - STROOPS then .error .invalidOperation
      else
        let n := if STROOPS ≤ exp then coeff * 10 ^ (exp - STROOPS).toNat else roundUp coeff (STROOPS - exp).toNat
        if precision < digitCount n then .error .invalidOperation else .ok (.finite negative n STROOPS)
  | .nan false => .ok (.nan false)
  | _ => .error .invalidOperation

def zeros (n : Int) : List Char := List.replicate n.toNat '0'

/-- How a number is written: plainly when its exponent is not positive and there
are few zeros behind the point, with an exponent otherwise. -/
def text : Decimal → String
  | .finite negative coeff exp =>
      let digits := Nat.toDigits 10 coeff
      let left := exp + digits.length
      let point := if exp ≤ 0 ∧ -6 < left then left else 1
      let number :=
        if point ≤ 0 then '0' :: '.' :: zeros (-point) ++ digits
        else if digits.length ≤ point then digits ++ zeros (point - digits.length)
        else digits.take point.toNat ++ '.' :: digits.drop point.toNat
      let exponent := if left = point then [] else
        'E' :: (if point < left then '+' else '-') :: Nat.toDigits 10 (left - point).natAbs
      String.ofList ((if negative then ['-'] else []) ++ number ++ exponent)
  | .infinity negative => if negative then "-Infinity" else "Infinity"
  | .nan signaling => if signaling then "sNaN" else "NaN"

/-- A Stellar amount. -/
def amount (value : Decimal) : Except Signal String := (quantizeStroops value).map text

example : amount (.finite false 1 (-8)) = .ok "1E-7" := by decide +kernel

example : (div (.finite false 10 0) (.finite false 3 0)).bind amount = .ok "3.3333334" := by decide +kernel

def decimal (m : Money) : Except Signal Decimal :=
  div (.finite (m.micros < 0) m.micros.natAbs 0) (.finite false MICROS.toNat 0)

theorem digitCount_le {n k : Nat} (hk : 0 < k) : digitCount n ≤ k ↔ n < 10 ^ k :=
  Nat.length_toDigits_le_iff (by decide) hk

theorem finalize_of_lt {negative : Bool} {coeff : Nat} {exp : Int} (hc : coeff < 10 ^ precision)
    (hl : etiny ≤ exp) (hr : exp + precision ≤ emax) : finalize negative coeff exp = .ok (.finite negative coeff exp) := by
  have hdigits : digitCount coeff ≤ precision := (digitCount_le (by decide)).2 hc
  have hprecision : (precision : Int) = 28 := rfl
  unfold finalize
  by_cases hzero : coeff = 0
  · have hmax : max etiny (min exp emax) = exp := by omega
    rw [if_pos hzero, hmax, hzero]
  · have hdrop : ¬ 0 < max ((digitCount coeff : Int) - precision) (etiny - exp) := by omega
    have hkeep : ¬ precision < digitCount coeff := by omega
    have hemax : ¬ emax < exp + digitCount coeff - 1 := by omega
    simp only [if_neg hzero, if_neg hdrop, if_neg hkeep, if_neg hemax]

end CodeZard.Stroops
