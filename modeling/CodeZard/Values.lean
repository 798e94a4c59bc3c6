import CodeZard.Decimals

namespace CodeZard.Values

open Decimals

/-- What a call may raise: an `Exception`, by the name of its class and its text,
or one of the two that a handler of every `Exception` lets through. -/
inductive Failure
  | exception (name message : String)
  | cancelled
  | generatorExit
  deriving DecidableEq, Repr

def Failure.isException : Failure → Bool
  | .exception .. => true
  | _ => false

/-- A float, by what is asked of it: how it is written and what is left of it
without its fraction. -/
structure Real where
  text : String
  whole : Int
  written : text ≠ ""
  deriving DecidableEq, Repr

/-- What `json.loads` makes of a document. -/
inductive Json
  | null
  | bool (b : Bool)
  | int (n : Int)
  | float (x : Real)
  | str (s : String)
  | list (items : List Json)
  | dict (fields : List (String × Json))

abbrev Fields := List (String × Json)

namespace Json

def truthy : Json → Bool
  | .null => false
  | .bool b => b
  | .int n => n ≠ 0
  | .float x => x.text ≠ "0.0" && x.text ≠ "-0.0"
  | .str s => s ≠ ""
  | .list items => !items.isEmpty
  | .dict fields => !fields.isEmpty

/-- `fields.get(key)`, `None` when there is none. -/
def get (fields : Fields) (key : String) : Json := (fields.lookup key).getD .null

/-- `value or other`. -/
def or (value other : Json) : Json := if value.truthy then value else other

def backslash : Char := .ofNat 0x5c

def single : Char := .ofNat 0x27

def double : Char := .ofNat 0x22

def hex (width n : Nat) : List Char := (Nat.toDigits 16 n).leftpad width '0'

/-- The runs of characters above ASCII that are assigned and cannot be printed. -/
def unprintables : List (Nat × Nat) :=
  [(0x7f, 0xa0), (0xad, 0xad), (0x600, 0x605), (0x61c, 0x61c), (0x6dd, 0x6dd), (0x70f, 0x70f), (0x890, 0x891),
    (0x8e2, 0x8e2), (0x1680, 0x1680), (0x180e, 0x180e), (0x2000, 0x200f), (0x2028, 0x202f), (0x205f, 0x2064),
    (0x2066, 0x206f), (0x3000, 0x3000), (0xe000, 0xf8ff), (0xfeff, 0xfeff), (0xfff9, 0xfffb), (0x110bd, 0x110bd),
    (0x110cd, 0x110cd), (0x13430, 0x13438), (0x1bca0, 0x1bca3), (0x1d173, 0x1d17a), (0xe0001, 0xe0001),
    (0xe0020, 0xe007f), (0xf0000, 0xffffd), (0x100000, 0x10fffd)]

/-- How `repr` writes a character. It also escapes the code points that are not
assigned, which depend on the version of Unicode and are written as they are here. -/
def escape (quote c : Char) : List Char :=
  if c = quote ∨ c = backslash then [backslash, c]
  else if c.toNat = 0xa then [backslash, 'n']
  else if c.toNat = 0xd then [backslash, 'r']
  else if c.toNat = 0x9 then [backslash, 't']
  else if c.toNat < 0x20 ∨ unprintables.any fun run => run.1 ≤ c.toNat && c.toNat ≤ run.2 then
    if c.toNat < 0x100 then backslash :: 'x' :: hex 2 c.toNat
    else if c.toNat < 0x10000 then backslash :: 'u' :: hex 4 c.toNat
    else backslash :: 'U' :: hex 8 c.toNat
  else [c]

/-- How a string is written inside another value. -/
def quoted (s : String) : String :=
  let quote := if s.toList.contains single && !s.toList.contains double then double else single
  String.ofList (quote :: s.toList.flatMap (escape quote) ++ [quote])

mutual

/-- `repr`, which is also how a value inside another one is written. -/
def repr : Json → String
  | .null => "None"
  | .bool b => if b then "True" else "False"
  | .int n => toString n
  | .float x => x.text
  | .str s => quoted s
  | .list items => "[" ++ ", ".intercalate (reprItems items) ++ "]"
  | .dict fields => "\x7b" ++ ", ".intercalate (reprFields fields) ++ "\x7d"

def reprItems : List Json → List String
  | [] => []
  | x :: xs => repr x :: reprItems xs

def reprFields : List (String × Json) → List String
  | [] => []
  | (k, x) :: xs => (quoted k ++ ": " ++ repr x) :: reprFields xs

end

/-- `str(value)`. -/
def text : Json → String
  | .str s => s
  | value => value.repr

theorem text_ne_of_truthy {value : Json} (h : value.truthy = true) : value.text ≠ "" := by
  cases value with
  | null => cases h
  | bool b => cases b <;> simp [text, repr]
  | int n =>
      cases n with
      | ofNat n => exact Nat.repr_ne_empty
      | negSucc n => simp [text, repr, toString, Int.repr]
  | float x => simpa [text, repr] using x.written
  | str s => simpa [truthy, text] using h
  | list items => simp [text, repr]
  | dict fields => simp [text, repr]

end Json

/-- `s.strip()`. -/
def stripped (s : String) : String := String.ofList (strip s.toList)

/-- The blanks around a number for `int`, to which the separators of ASCII are none. -/
def isIntSpace (c : Char) : Bool := isSpace c && !(0x1c ≤ c.toNat && c.toNat ≤ 0x1f)

def intStrip (cs : List Char) : List Char := ((cs.dropWhile isIntSpace).reverse.dropWhile isIntSpace).reverse

/-- The digits that `int` reads in a text, in groups that one underscore parts. -/
def intDigits (cs : List Char) : Option (List Nat) :=
  let groups := cs.splitOn '_'
  if groups.any List.isEmpty then none else groups.flatten.mapM digit

def intText (s : String) : Option Int :=
  let (negative, cs) := splitSign (intStrip s.toList)
  (intDigits cs).bind fun ds => if 4300 < ds.length then none else some (signed negative (natOf ds))

/-- `max(0, int(value))`, and zero when the value is of the wrong kind. -/
def intOf : Json → Except Failure Int
  | .bool b => .ok (if b then 1 else 0)
  | .int n => .ok (max 0 n)
  | .float x =>
      if x.text = "nan" then .ok 0
      else if x.text = "inf" ∨ x.text = "-inf" then
        .error (.exception "OverflowError" "cannot convert float infinity to integer")
      else .ok (max 0 x.whole)
  | .str s => .ok (max 0 ((intText s).getD 0))
  | _ => .ok 0

end CodeZard.Values
