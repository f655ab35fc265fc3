import ForestPager.Json.Basic
import ForestPager.Number.Shortest

/-!
# Writing JSON text

Compact text in ASCII: no white space, and every character outside the printable
ASCII range as an escape with its code units.

Results:

* `Json.text`: the written form of a value.
* `Json.keyText`: the field name that a key is written as.
-/

namespace ForestPager.Json

/-- A code unit as an escape. -/
def unitEscape (n : Nat) : List Char :=
  let digits := Nat.toDigits 16 n
  '\\' :: 'u' :: (List.replicate (4 - digits.length) '0' ++ digits)

/-- A character inside a text. -/
def charText (c : Char) : List Char :=
  if c = '"' then ['\\', '"']
  else if c = '\\' then ['\\', '\\']
  else if 0x20 ≤ c.toNat ∧ c.toNat < 0x7f then [c]
  else if c.toNat < 0x10000 then unitEscape c.toNat
  else
    let n := c.toNat - 0x10000
    unitEscape (0xd800 + n / 0x400) ++ unitEscape (0xdc00 + n % 0x400)

/-- A double-precision value: a decimal or a word. -/
def floatText : Binary64 → String
  | .infinite negative => if negative then "-Infinity" else "Infinity"
  | .nan => "NaN"
  | x => x.text

/-- A text between quotes. -/
def quotedText (s : String) : String :=
  String.ofList ('"' :: (s.toList.flatMap charText ++ ['"']))

mutual

/-- The written form of a value. -/
def text : Json → String
  | null => "null"
  | bool b => if b then "true" else "false"
  | int n => toString n
  | float x => floatText x
  | str s => quotedText s
  | arr vs => "[" ++ ",".intercalate (elementTexts vs) ++ "]"
  | obj fs => "\x7b" ++ ",".intercalate (fieldTexts fs) ++ "\x7d"

/-- The written form of each element. -/
def elementTexts : List Json → List String
  | [] => []
  | v :: vs => v.text :: elementTexts vs

/-- The written form of each field. -/
def fieldTexts : List (String × Json) → List String
  | [] => []
  | (k, v) :: fs => (quotedText k ++ ":" ++ v.text) :: fieldTexts fs

end

/-- The field name that a key is written as: a text stands for itself. -/
def keyText : Json → String
  | str s => s
  | key => key.text

end ForestPager.Json
