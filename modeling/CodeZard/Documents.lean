import CodeZard.RunLogs
import CodeZard.Values
import Mathlib.Data.List.Sort

namespace CodeZard.Documents

open RunLogs Values

def hex (n : Nat) : List Char := [n / 4096, n / 256, n / 16, n].map fun digit => Nat.digitChar (digit % 16)

def utf16 (c : Char) : List Char :=
  let n := c.toNat
  if n < 0x10000 then Json.backslash :: 'u' :: hex n
  else Json.backslash :: 'u' :: hex (0xd800 + (n - 0x10000) / 0x400) ++
    Json.backslash :: 'u' :: hex (0xdc00 + (n - 0x10000) % 0x400)

def escaped (c : Char) : List Char :=
  if c = Json.double ∨ c = Json.backslash then [Json.backslash, c]
  else if c.toNat = 0x8 then [Json.backslash, 'b']
  else if c.toNat = 0x9 then [Json.backslash, 't']
  else if c.toNat = 0xa then [Json.backslash, 'n']
  else if c.toNat = 0xc then [Json.backslash, 'f']
  else if c.toNat = 0xd then [Json.backslash, 'r']
  else if c.toNat < 0x20 ∨ 0x7e < c.toNat then utf16 c
  else [c]

def quoted (s : String) : List Char := Json.double :: s.toList.flatMap escaped ++ [Json.double]

def number (x : Values.Real) : String :=
  if x.text = "nan" then "NaN" else if x.text = "inf" then "Infinity" else if x.text = "-inf" then "-Infinity" else x.text

section Dumps

variable (comma colon : List Char)

mutual

def dumped : Json → List Char
  | .null => "null".toList
  | .bool b => if b then "true".toList else "false".toList
  | .int n => (toString n).toList
  | .float x => (number x).toList
  | .str s => quoted s
  | .list items => '[' :: List.intercalate comma (dumpedItems items) ++ [']']
  | .dict fields => '{' :: List.intercalate comma (dumpedFields fields) ++ ['}']

def dumpedItems : List Json → List (List Char)
  | [] => []
  | x :: xs => dumped x :: dumpedItems xs

def dumpedFields : List (String × Json) → List (List Char)
  | [] => []
  | (k, x) :: xs => (quoted k ++ colon ++ dumped x) :: dumpedFields xs

end

end Dumps

def encoded (cs : List Char) : Bytes := cs.flatMap String.utf8EncodeChar

/-- `json.dumps(value).encode("utf-8")`. -/
def dumps (value : Json) : Bytes := encoded (dumped [',', ' '] [':', ' '] value)

/-- `json.dumps(claims, separators=(",", ":"), sort_keys=True).encode("utf-8")`,
for claims that hold no claims themselves. -/
def compact (claims : Fields) : Bytes :=
  encoded (dumped [','] [':'] (.dict (claims.insertionSort fun x y => x.1 ≤ y.1)))

/-- The URL-safe alphabet. -/
def sextet (n : Nat) : Char :=
  let n := n % 64
  if n < 26 then Char.ofNat (n + 65)
  else if n < 52 then Char.ofNat (n + 71)
  else if n < 62 then Char.ofNat (n - 4)
  else if n = 62 then '-'
  else '_'

/-- `base64.urlsafe_b64encode(data).rstrip(b"=")`. -/
def b64 : Bytes → List Char
  | [] => []
  | [a] => [sextet (a.toNat / 4), sextet (a.toNat * 16)]
  | [a, b] => [sextet (a.toNat / 4), sextet (a.toNat * 16 + b.toNat / 16), sextet (b.toNat * 4)]
  | a :: b :: c :: rest =>
      sextet (a.toNat / 4) :: sextet (a.toNat * 16 + b.toNat / 16) :: sextet (b.toNat * 4 + c.toNat / 64) ::
        sextet c.toNat :: b64 rest

/-- What a character counts for: the URL-safe alphabet is translated to the
standard one, which is understood as well. -/
def valueOf (c : Char) : Option Nat :=
  let n := c.toNat
  if 65 ≤ n ∧ n ≤ 90 then some (n - 65)
  else if 97 ≤ n ∧ n ≤ 122 then some (n - 71)
  else if 48 ≤ n ∧ n ≤ 57 then some (n + 4)
  else if c = '-' ∨ c = '+' then some 62
  else if c = '_' ∨ c = '/' then some 63
  else none

/-- The state of `binascii.a2b_base64`: the place in a group of four, the bits
left over, the pads in a row and the bytes so far, the newest first. -/
structure Reading where
  place : Nat := 0
  left : Nat := 0
  pads : Nat := 0
  bytes : Bytes := []

def Reading.take (r : Reading) (n : Nat) : Reading :=
  match r.place with
  | 0 => { r with place := 1, left := n, pads := 0 }
  | 1 => ⟨2, n % 16, 0, UInt8.ofNat (r.left * 4 + n / 16) :: r.bytes⟩
  | 2 => ⟨3, n % 4, 0, UInt8.ofNat (r.left * 16 + n / 4) :: r.bytes⟩
  | _ => ⟨0, 0, 0, UInt8.ofNat (r.left * 64 + n) :: r.bytes⟩

def a2b (r : Reading) : List Char → Option Bytes
  | [] => if r.place = 0 then some r.bytes.reverse else none
  | c :: cs =>
      if c = '=' then
        if 2 ≤ r.place then
          if 4 ≤ r.place + (r.pads + 1) then some r.bytes.reverse else a2b { r with pads := r.pads + 1 } cs
        else a2b r cs
      else match valueOf c with
        | some n => a2b (r.take n) cs
        | none => a2b r cs

/-- `base64.urlsafe_b64decode(text + "=" * (-len(text) % 4))`. -/
def unb64 (text : List Char) : Option Bytes :=
  if text.all fun c => c.toNat < 128 then a2b {} (text ++ List.replicate ((4 - text.length % 4) % 4) '=') else none

end CodeZard.Documents
