import ForestPager.Json.Basic

/-!
# Reading JSON text

One value, with white space around it. Of several fields of one name the last
value counts, at the place of the first. A number with a point or an exponent is
read as the nearest double-precision value, any other as a whole number; the
infinities and the value that is no number have words. The surrogate halves of a
character outside the first plane have to come as a pair.

Results:

* `Json.parse?`: the value that a text writes, if it writes one.
-/

namespace ForestPager.Json

/-- Drop white space at the front. -/
def skipSpace (cs : List Char) : List Char :=
  cs.dropWhile fun c => c = ' ' ∨ c = '\t' ∨ c = '\n' ∨ c = '\r'

/-- The value of a hexadecimal digit. -/
def hexValue? (c : Char) : Option Nat :=
  if '0' ≤ c ∧ c ≤ '9' then some (c.toNat - 48)
  else if 'a' ≤ c ∧ c ≤ 'f' then some (c.toNat - 87)
  else if 'A' ≤ c ∧ c ≤ 'F' then some (c.toNat - 55)
  else none

/-- Four hexadecimal digits at the front. -/
def readUnit? : List Char → Option (Nat × List Char)
  | a :: b :: c :: d :: rest => do
    let a ← hexValue? a
    let b ← hexValue? b
    let c ← hexValue? c
    let d ← hexValue? d
    pure (((a * 16 + b) * 16 + c) * 16 + d, rest)
  | _ => none

/-- The character of an escape with code units, behind the letter `u`. -/
def readCodePoint? (cs : List Char) : Option (Char × List Char) := do
  let (high, rest) ← readUnit? cs
  if 0xd800 ≤ high ∧ high < 0xdc00 then
    match rest with
    | '\\' :: 'u' :: rest => do
      let (low, rest) ← readUnit? rest
      if 0xdc00 ≤ low ∧ low < 0xe000 then
        pure (Char.ofNat (0x10000 + (high - 0xd800) * 0x400 + (low - 0xdc00)), rest)
      else none
    | _ => none
  else if 0xdc00 ≤ high ∧ high < 0xe000 then none
  else pure (Char.ofNat high, rest)

/-- The character of an escape, behind the backslash. -/
def readEscape? : List Char → Option (Char × List Char)
  | '"' :: rest => some ('"', rest)
  | '\\' :: rest => some ('\\', rest)
  | '/' :: rest => some ('/', rest)
  | 'b' :: rest => some ('\x08', rest)
  | 'f' :: rest => some ('\x0c', rest)
  | 'n' :: rest => some ('\n', rest)
  | 'r' :: rest => some ('\r', rest)
  | 't' :: rest => some ('\t', rest)
  | 'u' :: rest => readCodePoint? rest
  | _ => none

/-- A text, behind the opening quote. `read` holds the characters so far, last
first. -/
def readText? : (steps : Nat) → (read : List Char) → List Char → Option (String × List Char)
  | 0, _, _ => none
  | _ + 1, _, [] => none
  | n + 1, read, c :: rest =>
    if c = '"' then some (String.ofList read.reverse, rest)
    else if c = '\\' then do
      let (d, rest) ← readEscape? rest
      readText? n (d :: read) rest
    else if c.toNat < 0x20 then none
    else readText? n (c :: read) rest

/-- The ASCII digits at the front, as a whole number and their count. -/
def readDigits (cs : List Char) : Nat × Nat × List Char :=
  let digits := cs.takeWhile Char.isDigit
  (digits.foldl (fun n d => n * 10 + (d.toNat - 48)) 0, digits.length, cs.dropWhile Char.isDigit)

/-- A number: digits without a needless zero in front, an optional fraction and an
optional exponent. -/
def readNumber? (cs : List Char) : Option (Json × List Char) :=
  let negative := cs.head? = some '-'
  let afterSign := if negative then cs.drop 1 else cs
  let (whole, wholeCount, rest) := readDigits afterSign
  if wholeCount = 0 ∨ (1 < wholeCount ∧ afterSign.head? = some '0') then none
  else do
    let (digits, places, hasPoint, rest) ←
      match rest with
      | '.' :: cs =>
        let (fraction, count, cs) := readDigits cs
        if count = 0 then none else some (whole * Nat.pow 10 count + fraction, count, true, cs)
      | _ => some (whole, 0, false, rest)
    let (power, hasPower, rest) ←
      match rest with
      | c :: cs =>
        if c = 'e' ∨ c = 'E' then
          let down := cs.head? = some '-'
          let cs := if down ∨ cs.head? = some '+' then cs.drop 1 else cs
          let (power, count, cs) := readDigits cs
          if count = 0 then none else some (if down then -(power : Int) else power, true, cs)
        else some (0, false, c :: cs)
      | [] => some (0, false, [])
    if hasPoint ∨ hasPower then
      pure (float (.ofDecimal ⟨negative, digits, power - places⟩), rest)
    else pure (int (if negative then -(digits : Int) else digits), rest)

/-- The words, and what they stand for. -/
def words : List (String × Json) :=
  [("null", null), ("true", bool true), ("false", bool false), ("NaN", float .nan),
    ("Infinity", float (.infinite false)), ("-Infinity", float (.infinite true))]

/-- One of the words. -/
def readWord? (cs : List Char) : Option (Json × List Char) :=
  (words.find? fun w => w.1.toList.isPrefixOf cs).map fun w => (w.2, cs.drop w.1.length)

mutual

/-- A value at the front. -/
def readValue? : (steps : Nat) → List Char → Option (Json × List Char)
  | 0, _ => none
  | n + 1, cs =>
    match skipSpace cs with
    | [] => none
    | '"' :: rest => do
      let (s, rest) ← readText? n [] rest
      pure (str s, rest)
    | '[' :: rest =>
      match skipSpace rest with
      | ']' :: rest => some (arr [], rest)
      | rest => do
        let (vs, rest) ← readElements? n rest
        pure (arr vs, rest)
    | '{' :: rest =>
      match skipSpace rest with
      | '}' :: rest => some (obj [], rest)
      | rest => do
        let (fs, rest) ← readFields? n rest
        pure (obj (OrderedMap.ofList fs).entries, rest)
    | c :: rest => readNumber? (c :: rest) <|> readWord? (c :: rest)

/-- The elements of an array, up to its closing bracket. -/
def readElements? : (steps : Nat) → List Char → Option (List Json × List Char)
  | 0, _ => none
  | n + 1, cs => do
    let (v, rest) ← readValue? n cs
    match skipSpace rest with
    | ',' :: rest => do
      let (vs, rest) ← readElements? n rest
      pure (v :: vs, rest)
    | ']' :: rest => pure ([v], rest)
    | _ => none

/-- The fields of an object, up to its closing brace. -/
def readFields? : (steps : Nat) → List Char → Option (Fields × List Char)
  | 0, _ => none
  | n + 1, cs => do
    match skipSpace cs with
    | '"' :: rest => do
      let (name, rest) ← readText? n [] rest
      match skipSpace rest with
      | ':' :: rest => do
        let (v, rest) ← readValue? n rest
        match skipSpace rest with
        | ',' :: rest => do
          let (fs, rest) ← readFields? n rest
          pure ((name, v) :: fs, rest)
        | '}' :: rest => pure ([(name, v)], rest)
        | _ => none
      | _ => none
    | _ => none

end

/-- The value that a text writes. Every step of reading takes a character or opens
the next value, so twice the length of the text is enough steps. -/
def parse? (text : String) : Option Json := do
  let cs := text.toList
  let (v, rest) ← readValue? (2 * cs.length + 2) cs
  if (skipSpace rest).isEmpty then pure v else none

example : parse? "[1, NaN, \"\\u00e9\"]" = some (arr [int 1, float .nan, str "é"]) := by
  cbv

end ForestPager.Json
