import ForestPager.Failure
import ForestPager.Json.Writer
import ForestPager.Scalar

/-!
# Payloads read as pairs

Where an object is wanted, a list of pairs will do: each element has two parts, a
key and a value, and is an array, a text of two characters or an object with two
fields (read as the two names). Of several equal keys the first one stands and
the last value counts. A key may be any scalar here; that it has to be a text is
checked afterwards.

Results:

* `Pairs.ofPayload_obj`: an object is read as its own fields.
-/

namespace ForestPager

/-- Keys and values, in order. -/
abbrev Pairs := List (Json × Json)

namespace Pairs

/-- The parts of one element of a list of pairs. -/
def parts (index : Nat) (v : Json) : Except Failure (Json × Json) :=
  match v.elements? with
  | none => .error (.notPair index)
  | some [k, w] => .ok (k, w)
  | some vs => .error (.pairLength index vs.length)

/-- Add a pair. An equal key that is there already keeps its place and form. -/
def add (m : OrderedMap Scalar (Json × Json)) (k v : Json) :
    Except Failure (OrderedMap Scalar (Json × Json)) :=
  match k.scalar? with
  | none => .error (.notKey k.typeName)
  | some s =>
    match m.get? s with
    | some old => .ok (m.insert s (old.1, v))
    | none => .ok (m.insert s (k, v))

/-- Add the pairs of a list, counting its elements from `index`. -/
def addAll (m : OrderedMap Scalar (Json × Json)) :
    Nat → List Json → Except Failure (OrderedMap Scalar (Json × Json))
  | _, [] => .ok m
  | index, v :: vs => do
    let (k, w) ← parts index v
    addAll (← add m k w) (index + 1) vs

/-- Read a payload as pairs. -/
def ofPayload : Json → Except Failure Pairs
  | .obj fields => .ok (fields.map fun f => (.str f.1, f.2))
  | v =>
    match v.elements? with
    | none => .error (.notIterable v.typeName)
    | some vs => (addAll ∅ 0 vs).map OrderedMap.values

/-- Read an optional payload as pairs: a void one has none. -/
def ofOptional (v : Json) : Except Failure Pairs := if v.isVoid then .ok [] else ofPayload v

/-- Whether a whole number fits into 64 bits with its sign. -/
def fitsWord (n : Int) : Bool := decide (-Int.pow 2 63 ≤ n) && decide (n < Int.pow 2 63)

/-- A key as a step of a path, in its written form where it is neither a text nor a
whole number that fits into 64 bits. -/
def keyStep : Json → PathStep
  | .str s => .name s
  | .int n => if fitsWord n then .number n else .name (toString n)
  | .bool b => .number (if b then 1 else 0)
  | .null => .name "None"
  | .float x => .name x.text
  | .arr _ => .name "[...]"
  | .obj _ => .name "(...)"

/-- Pairs as the fields of an object, with an issue for each key that is no text. -/
def fields (path : List PathStep) (pairs : Pairs) : Json.Fields × List Issue :=
  (pairs.filterMap fun e => match e.1 with
    | .str s => some (s, e.2)
    | _ => none,
   pairs.filterMap fun e => match e.1 with
    | .str _ => none
    | k => some ⟨path ++ [keyStep k, .name "[key]"], .notText⟩)

/-- Pairs as the fields of an object, with each key as it is written. -/
def written (pairs : Pairs) : Json.Fields :=
  (OrderedMap.ofList (pairs.map fun e => (e.1.keyText, e.2))).entries

@[simp] theorem ofPayload_obj (fs : Json.Fields) :
    ofPayload (.obj fs) = .ok (fs.map fun f => (.str f.1, f.2)) := rfl

/-- The fields of an object, read as pairs and back, are the same. -/
theorem fields_obj (path : List PathStep) (fs : Json.Fields) :
    fields path (fs.map fun f => (.str f.1, f.2)) = (fs, []) := by
  unfold fields
  rw [List.filterMap_map, List.filterMap_map]
  exact Prod.ext List.filterMap_some (List.filterMap_eq_nil_iff.2 fun _ _ => rfl)

end Pairs

end ForestPager
