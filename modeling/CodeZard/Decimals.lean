import Mathlib.Algebra.Order.BigOperators.Group.List
import Mathlib.Algebra.Order.Ring.Int
import Mathlib.Algebra.Order.Ring.Nat

namespace CodeZard.Decimals

/-- A decimal number: coefficient and exponent as they were written, so that
trailing zeros are kept, together with the values that are not numbers. -/
inductive Decimal
  | finite (negative : Bool) (coeff : Nat) (exp : Int)
  | infinity (negative : Bool)
  | nan (signaling : Bool)
  deriving DecidableEq, Repr

/-- The signals of the default context that raise. -/
inductive Signal
  | invalidOperation
  | divisionByZero
  | overflow
  deriving DecidableEq, Repr

def precision : Nat := 28

def emax : Int := 999999

def etiny : Int := -1000026

def maxExponent : Int := 999999999999999999

def minExponent : Int := -1999999999999999997

def digitCount (n : Nat) : Nat := (Nat.toDigits 10 n).length

/-- The first digit of every run of ten decimal digits in Unicode 14. -/
def digitZeros : List Nat :=
  [0x30, 0x660, 0x6f0, 0x7c0, 0x966, 0x9e6, 0xa66, 0xae6, 0xb66, 0xbe6, 0xc66, 0xce6, 0xd66, 0xde6,
   0xe50, 0xed0, 0xf20, 0x1040, 0x1090, 0x17e0, 0x1810, 0x1946, 0x19d0, 0x1a80, 0x1a90, 0x1b50,
   0x1bb0, 0x1c40, 0x1c50, 0xa620, 0xa8d0, 0xa900, 0xa9d0, 0xa9f0, 0xaa50, 0xabf0, 0xff10, 0x104a0,
   0x10d30, 0x11066, 0x110f0, 0x11136, 0x111d0, 0x112f0, 0x11450, 0x114d0, 0x11650, 0x116c0,
   0x11730, 0x118e0, 0x11950, 0x11c50, 0x11d50, 0x11da0, 0x16a60, 0x16ac0, 0x16b50, 0x1d7ce,
   0x1d7d8, 0x1d7e2, 0x1d7ec, 0x1d7f6, 0x1e140, 0x1e2f0, 0x1e950, 0x1fbf0]

def digit (c : Char) : Option Nat :=
  (digitZeros.find? fun z => z ≤ c.toNat && c.toNat < z + 10).map fun z => c.toNat - z

def isSpace (c : Char) : Bool :=
  (0x9 ≤ c.toNat && c.toNat ≤ 0xd) || (0x1c ≤ c.toNat && c.toNat ≤ 0x20) ||
    (0x2000 ≤ c.toNat && c.toNat ≤ 0x200a) ||
    [0x85, 0xa0, 0x1680, 0x2028, 0x2029, 0x202f, 0x205f, 0x3000].contains c.toNat

def strip (cs : List Char) : List Char :=
  ((cs.dropWhile isSpace).reverse.dropWhile isSpace).reverse

def takeDigits : List Char → List Nat × List Char
  | [] => ([], [])
  | c :: cs => match digit c with
    | none => ([], c :: cs)
    | some d => let (ds, rest) := takeDigits cs; (d :: ds, rest)

def natOf (ds : List Nat) : Nat := ds.foldl (fun n d => 10 * n + d) 0

def splitSign : List Char → Bool × List Char
  | '-' :: cs => (true, cs)
  | '+' :: cs => (false, cs)
  | cs => (false, cs)

def parseExponent : List Char → Option Int
  | [] => some 0
  | c :: cs =>
      if c = 'e' ∨ c = 'E' then
        let (negative, cs) := splitSign cs
        match takeDigits cs with
        | (d :: ds, []) => some (if negative then -(natOf (d :: ds) : Int) else natOf (d :: ds))
        | _ => none
      else none

def parseNumber (negative : Bool) (cs : List Char) : Option Decimal :=
  let (whole, rest) := takeDigits cs
  let (part, rest) := match rest with
    | '.' :: rest => takeDigits rest
    | rest => ([], rest)
  if whole ++ part = [] then none
  else (parseExponent rest).bind fun e =>
    let coeff := natOf (whole ++ part)
    let exp := e - part.length
    if maxExponent < exp + digitCount coeff - 1 ∨ exp < minExponent then none
    else some (.finite negative coeff exp)

def parseNan (cs : List Char) : Bool := (takeDigits cs).2 = []

/-- Reading a numeric string: surrounding blanks and all underscores are
dropped, any decimal digits of Unicode count, and the number is kept exactly. -/
def parse (s : String) : Option Decimal :=
  let (negative, cs) := splitSign ((strip s.toList).filter (· ≠ '_'))
  match cs.map Char.toLower with
  | ['i', 'n', 'f'] => some (.infinity negative)
  | ['i', 'n', 'f', 'i', 'n', 'i', 't', 'y'] => some (.infinity negative)
  | 'n' :: 'a' :: 'n' :: rest => if parseNan rest then some (.nan false) else none
  | 's' :: 'n' :: 'a' :: 'n' :: rest => if parseNan rest then some (.nan true) else none
  | _ => parseNumber negative cs

def roundHalfEven (coeff drop : Nat) : Nat :=
  let q := coeff / 10 ^ drop
  let r := 2 * (coeff % 10 ^ drop)
  if 10 ^ drop < r then q + 1 else if r = 10 ^ drop then q + q % 2 else q

def finalize (negative : Bool) (coeff : Nat) (exp : Int) : Except Signal Decimal :=
  if coeff = 0 then .ok (.finite negative 0 (max etiny (min exp emax)))
  else
    let drop := max ((digitCount coeff : Int) - precision) (etiny - exp)
    let rounded := if 0 < drop then roundHalfEven coeff drop.toNat else coeff
    let shifted := if 0 < drop then exp + drop else exp
    let (coeff, exp) :=
      if precision < digitCount rounded then (rounded / 10, shifted + 1) else (rounded, shifted)
    if emax < exp + digitCount coeff - 1 then .error .overflow else .ok (.finite negative coeff exp)

def mul : Decimal → Decimal → Except Signal Decimal
  | .nan true, _ | _, .nan true => .error .invalidOperation
  | .nan false, _ | _, .nan false => .ok (.nan false)
  | .infinity s, .infinity t => .ok (.infinity (s != t))
  | .infinity s, .finite t c _ | .finite t c _, .infinity s =>
      if c = 0 then .error .invalidOperation else .ok (.infinity (s != t))
  | .finite s c e, .finite t d f => finalize (s != t) (c * d) (e + f)

def signed (negative : Bool) (n : Nat) : Int := if negative then -(n : Int) else n

/-- `le a b` is `b >= a`. Comparing with a value that is not a number raises. -/
def le : Decimal → Decimal → Except Signal Bool
  | .nan _, _ | _, .nan _ => .error .invalidOperation
  | .infinity s, .infinity t => .ok (s || !t)
  | .infinity s, .finite .. => .ok s
  | .finite .., .infinity t => .ok (!t)
  | .finite s c e, .finite t d f =>
      .ok (signed s (c * 10 ^ (e - min e f).toNat) ≤ signed t (d * 10 ^ (f - min e f).toNat))

def roundHalfUp (coeff drop : Nat) : Nat :=
  if 10 ^ drop ≤ 2 * (coeff % 10 ^ drop) then coeff / 10 ^ drop + 1 else coeff / 10 ^ drop

def quantizeUnit : Decimal → Except Signal Int
  | .finite negative coeff exp =>
      let n := if 0 ≤ exp then coeff * 10 ^ exp.toNat else roundHalfUp coeff (-exp).toNat
      if precision < digitCount n then .error .invalidOperation else .ok (signed negative n)
  | _ => .error .invalidOperation

end CodeZard.Decimals
