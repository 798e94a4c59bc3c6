import CodeZard.Columns
import CodeZard.Documents
import CodeZard.Percents

namespace CodeZard.JsonTexts

open RunLogs Values Documents Columns Percents

def blank (c : Char) : Bool := c = ' ' || c = '\t' || c = '\n' || c = '\r'

def skip (cs : List Char) : List Char := cs.dropWhile blank

def high (n : Nat) : Bool := 0xd800 ≤ n && n < 0xdc00

def low (n : Nat) : Bool := 0xdc00 ≤ n && n < 0xe000

def joined (n m : Nat) : Char := Char.ofNat (0x10000 + (n - 0xd800) * 0x400 + (m - 0xdc00))

def unicodeAt : List Char → Option (Nat × List Char)
  | w :: x :: y :: z :: rest => do
      let a ← hexValue w
      let b ← hexValue x
      let c ← hexValue y
      let d ← hexValue z
      return (((a * 16 + b) * 16 + c) * 16 + d, rest)
  | _ => none

def escapeOf (c : Char) : Option Char :=
  if c = '"' ∨ c = '\\' ∨ c = '/' then some c
  else if c = 'b' then some (.ofNat 0x8)
  else if c = 'f' then some (.ofNat 0xc)
  else if c = 'n' then some (.ofNat 0xa)
  else if c = 'r' then some (.ofNat 0xd)
  else if c = 't' then some (.ofNat 0x9)
  else none

def escapeAt : List Char → Option (Char × List Char)
  | [] => none
  | c :: cs =>
      if c = 'u' then (unicodeAt cs).bind fun (n, rest) =>
        if high n then match rest with
          | b :: u :: rest =>
              if b = '\\' ∧ u = 'u' then (unicodeAt rest).bind fun (m, rest) =>
                if low m then some (joined n m, rest) else none
              else none
          | _ => none
        else if low n then none
        else some (Char.ofNat n, rest)
      else (escapeOf c).map fun c => (c, cs)

def scanString : Nat → List Char → Option (List Char × List Char)
  | n + 1, c :: cs =>
      if c = '"' then some ([], cs)
      else if c = '\\' then (escapeAt cs).bind fun (c, rest) => (scanString n rest).map fun (s, rest) => (c :: s, rest)
      else if c.toNat < 0x20 then none
      else (scanString n cs).map fun (s, rest) => (c :: s, rest)
  | _, _ => none

def scanWhole : List Char → Option (List Char × List Char)
  | [] => none
  | c :: cs =>
      if c = '0' then some ([c], cs)
      else if c.isDigit then some (c :: cs.takeWhile Char.isDigit, cs.dropWhile Char.isDigit)
      else none

def scanFraction : List Char → List Char × List Char
  | p :: d :: cs =>
      if p = '.' ∧ d.isDigit then (p :: d :: cs.takeWhile Char.isDigit, cs.dropWhile Char.isDigit)
      else ([], p :: d :: cs)
  | cs => ([], cs)

def scanSign : List Char → List Char × List Char
  | s :: cs => if s = '+' ∨ s = '-' then ([s], cs) else ([], s :: cs)
  | [] => ([], [])

def scanExponent : List Char → List Char × List Char
  | e :: cs =>
      if (e = 'e' ∨ e = 'E') ∧ (scanSign cs).2.takeWhile Char.isDigit ≠ [] then
        (e :: (scanSign cs).1 ++ (scanSign cs).2.takeWhile Char.isDigit, (scanSign cs).2.dropWhile Char.isDigit)
      else ([], e :: cs)
  | [] => ([], [])

def nan : Values.Real := ⟨"nan", 0, by decide⟩

def infinity (negative : Bool) : Values.Real := if negative then ⟨"-inf", 0, by decide⟩ else ⟨"inf", 0, by decide⟩

def words : List (List Char × Json) :=
  [("null".toList, .null), ("true".toList, .bool true), ("false".toList, .bool false), ("NaN".toList, .float nan),
    ("Infinity".toList, .float (infinity false)), ("-Infinity".toList, .float (infinity true))]

def scanWord (cs : List Char) : Option (Json × List Char) :=
  words.findSome? fun (word, value) => if word.isPrefixOf cs then some (value, cs.drop word.length) else none

def dictOf (fields : Fields) : Fields := fields.foldl (fun d x => Dict.set d x.1 x.2) []

/-- `float(text)` of the numbers that are not whole. -/
abbrev Floats := List Char → Values.Real

section Scanner

variable (real : Floats)

def scanUnsigned (sign : List Char) (cs : List Char) : Option (Json × List Char) :=
  (scanWhole cs).bind fun (whole, rest) =>
    let (part, rest) := scanFraction rest
    let (exponent, rest) := scanExponent rest
    if part = [] ∧ exponent = [] then
      if 4300 < whole.length then none
      else some (.int (Decimals.signed (sign ≠ []) (Nat.ofDigitChars 10 whole 0)), rest)
    else some (.float (real (sign ++ whole ++ part ++ exponent)), rest)

def scanNumber : List Char → Option (Json × List Char)
  | [] => none
  | c :: cs => if c = '-' then scanUnsigned real [c] cs else scanUnsigned real [] (c :: cs)

mutual

def scan : Nat → List Char → Option (Json × List Char)
  | n + 1, c :: cs =>
      if c = '"' then (scanString n cs).map fun (s, rest) => (.str (String.ofList s), rest)
      else if c = '{' then match skip cs with
        | [] => none
        | d :: rest =>
            if d = '}' then some (.dict [], rest)
            else if d = '"' then (scanFields n rest).map fun (fields, rest) => (.dict (dictOf fields), rest)
            else none
      else if c = '[' then match skip cs with
        | [] => none
        | d :: rest =>
            if d = ']' then some (.list [], rest)
            else (scanItems n (d :: rest)).map fun (items, rest) => (.list items, rest)
      else (scanWord (c :: cs)).or (scanNumber real (c :: cs))
  | _, _ => none

def scanItems : Nat → List Char → Option (List Json × List Char)
  | n + 1, cs => (scan n cs).bind fun (x, rest) => match skip rest with
      | [] => none
      | d :: rest =>
          if d = ']' then some ([x], rest)
          else if d = ',' then (scanItems n (skip rest)).map fun (xs, rest) => (x :: xs, rest)
          else none
  | 0, _ => none

def scanFields : Nat → List Char → Option (Fields × List Char)
  | n + 1, cs => (scanString n cs).bind fun (k, rest) => match skip rest with
      | [] => none
      | d :: rest =>
          if d = ':' then (scan n (skip rest)).bind fun (x, rest) => match skip rest with
            | [] => none
            | d :: rest =>
                if d = '}' then some ([(String.ofList k, x)], rest)
                else if d = ',' then match skip rest with
                  | [] => none
                  | d :: rest =>
                      if d = '"' then (scanFields n rest).map fun (xs, rest) => ((String.ofList k, x) :: xs, rest)
                      else none
                else none
          else none
  | 0, _ => none

end

/-- A document of one value. -/
def parse (cs : List Char) : Option Json :=
  (scan real (2 * cs.length + 1) (skip cs)).bind fun (value, rest) => if skip rest = [] then some value else none

end Scanner

section Encodings

def readUtf8 (bs : Bytes) : Option (List Char) := bs.toByteArray.utf8Decode?.map Array.toList

def unitsOf (big : Bool) (width : Nat) : Nat → Bytes → Option (List Nat)
  | _, [] => some []
  | 0, _ => none
  | n + 1, bs =>
      if bs.length < width then none
      else
        let group := if big then bs.take width else (bs.take width).reverse
        (unitsOf big width n (bs.drop width)).map (group.foldl (fun k b => k * 256 + b.toNat) 0 :: ·)

def fromUtf16 : List Nat → Option (List Char)
  | [] => some []
  | [n] => if high n || low n then none else some [Char.ofNat n]
  | n :: m :: rest =>
      if high n then if low m then (fromUtf16 rest).map (joined n m :: ·) else none
      else if low n then none
      else (fromUtf16 (m :: rest)).map (Char.ofNat n :: ·)

def readUtf16 (big : Bool) (bs : Bytes) : Option (List Char) := (unitsOf big 2 bs.length bs).bind fromUtf16

def readUtf32 (big : Bool) (bs : Bytes) : Option (List Char) := (unitsOf big 4 bs.length bs).bind fun units =>
  units.mapM fun n => if n.isValidChar then some (Char.ofNat n) else none

def decoded (data : Bytes) : Option (List Char) :=
  if [0, 0, 0xfe, 0xff] <+: data then readUtf32 true (data.drop 4)
  else if [0xff, 0xfe, 0, 0] <+: data then readUtf32 false (data.drop 4)
  else if [0xfe, 0xff] <+: data then readUtf16 true (data.drop 2)
  else if [0xff, 0xfe] <+: data then readUtf16 false (data.drop 2)
  else if [0xef, 0xbb, 0xbf] <+: data then readUtf8 (data.drop 3)
  else match data with
    | a :: b :: c :: d :: _ =>
        if a = 0 then if b = 0 then readUtf32 true data else readUtf16 true data
        else if b = 0 then if c = 0 ∧ d = 0 then readUtf32 false data else readUtf16 false data
        else readUtf8 data
    | [a, b] => if a = 0 then readUtf16 true data else if b = 0 then readUtf16 false data else readUtf8 data
    | _ => readUtf8 data

end Encodings

/-- `json.loads(data)`, unless it raises. -/
def loads (real : Floats) (data : Bytes) : Option Json := (decoded data).bind (parse real)

end CodeZard.JsonTexts
