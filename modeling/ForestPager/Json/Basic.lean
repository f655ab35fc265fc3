import ForestPager.OrderedMap
import ForestPager.Number.Binary64

/-!
# JSON values

The payloads that pass through a query: definitions, selects, parameters, items
and answers. Objects list their fields in order. Whole numbers are exact; all
other numbers are double-precision values.

A value is *void* when it is null, false, zero or an empty text, array or object.
Void values count as absent where a field is optional.

Results:

* `Json.WellFormed`: no object, at any depth, lists a field twice.
* `Json.elements?`: what it means to go through a value one element at a time.
-/

namespace ForestPager

/-- A JSON value. -/
inductive Json
  | null
  | bool (b : Bool)
  | int (n : Int)
  | float (x : Binary64)
  | str (s : String)
  | arr (elements : List Json)
  | obj (fields : List (String × Json))
deriving Inhabited

namespace Json

/-- The fields of an object, in order. -/
abbrev Fields := List (String × Json)

mutual

/-- Whether two values are the same, field order included. -/
def decEq : (a b : Json) → Decidable (a = b)
  | null, null => isTrue rfl
  | bool a, bool b => if h : a = b then isTrue (h ▸ rfl) else isFalse fun e => h (by cases e; rfl)
  | int a, int b => if h : a = b then isTrue (h ▸ rfl) else isFalse fun e => h (by cases e; rfl)
  | float a, float b => if h : a = b then isTrue (h ▸ rfl) else isFalse fun e => h (by cases e; rfl)
  | str a, str b => if h : a = b then isTrue (h ▸ rfl) else isFalse fun e => h (by cases e; rfl)
  | arr a, arr b =>
    match decEqElements a b with
    | isTrue h => isTrue (h ▸ rfl)
    | isFalse h => isFalse fun e => h (by cases e; rfl)
  | obj a, obj b =>
    match decEqFields a b with
    | isTrue h => isTrue (h ▸ rfl)
    | isFalse h => isFalse fun e => h (by cases e; rfl)
  | null, bool _ | null, int _ | null, float _ | null, str _ | null, arr _ | null, obj _
  | bool _, null | bool _, int _ | bool _, float _ | bool _, str _ | bool _, arr _ | bool _, obj _
  | int _, null | int _, bool _ | int _, float _ | int _, str _ | int _, arr _ | int _, obj _
  | float _, null | float _, bool _ | float _, int _ | float _, str _ | float _, arr _
  | float _, obj _
  | str _, null | str _, bool _ | str _, int _ | str _, float _ | str _, arr _ | str _, obj _
  | arr _, null | arr _, bool _ | arr _, int _ | arr _, float _ | arr _, str _ | arr _, obj _
  | obj _, null | obj _, bool _ | obj _, int _ | obj _, float _ | obj _, str _ | obj _, arr _ =>
    isFalse nofun

/-- Whether two lists of values are the same. -/
def decEqElements : (a b : List Json) → Decidable (a = b)
  | [], [] => isTrue rfl
  | [], _ :: _ => isFalse nofun
  | _ :: _, [] => isFalse nofun
  | a :: as, b :: bs =>
    match decEq a b, decEqElements as bs with
    | isTrue h, isTrue hs => isTrue (h ▸ hs ▸ rfl)
    | isFalse h, _ => isFalse fun e => h (by cases e; rfl)
    | _, isFalse hs => isFalse fun e => hs (by cases e; rfl)

/-- Whether two lists of fields are the same. -/
def decEqFields : (a b : List (String × Json)) → Decidable (a = b)
  | [], [] => isTrue rfl
  | [], _ :: _ => isFalse nofun
  | _ :: _, [] => isFalse nofun
  | (k, a) :: as, (l, b) :: bs =>
    if h : k = l then
      match decEq a b, decEqFields as bs with
      | isTrue hv, isTrue hs => isTrue (h ▸ hv ▸ hs ▸ rfl)
      | isFalse hv, _ => isFalse fun e => hv (by cases e; rfl)
      | _, isFalse hs => isFalse fun e => hs (by cases e; rfl)
    else isFalse fun e => h (by cases e; rfl)

end

instance : DecidableEq Json := decEq

mutual

/-- No object, at any depth, lists a field twice. -/
def WellFormed : Json → Prop
  | arr elements => WellFormedElements elements
  | obj fields => (fields.map Prod.fst).Nodup ∧ WellFormedFields fields
  | _ => True

/-- All elements are well formed. -/
def WellFormedElements : List Json → Prop
  | [] => True
  | v :: vs => v.WellFormed ∧ WellFormedElements vs

/-- The values of all fields are well formed. -/
def WellFormedFields : List (String × Json) → Prop
  | [] => True
  | (_, v) :: fs => v.WellFormed ∧ WellFormedFields fs

end

/-- Whether a value is null. -/
def isNull : Json → Bool
  | null => true
  | _ => false

/-- Whether a value is null, false, zero or empty. -/
def isVoid : Json → Bool
  | null => true
  | bool b => !b
  | int n => n == 0
  | float x => x.isZero
  | str s => s == ""
  | arr elements => elements.isEmpty
  | obj fields => fields.isEmpty

/-- The value of a field. -/
def field? (name : String) (fields : Fields) : Option Json := fields.lookup name

/-- The value of a field that may be left out: an absent field is null. -/
def fieldOrNull (name : String) (fields : Fields) : Json := (field? name fields).getD null

/-- The elements of a value that can be gone through: those of an array, the
characters of a text, the field names of an object. -/
def elements? : Json → Option (List Json)
  | arr elements => some elements
  | str s => some (s.toList.map fun c => str (String.singleton c))
  | obj fields => some (fields.map fun f => str f.1)
  | _ => none

/-- The name of a value's type in messages. -/
def typeName : Json → String
  | null => "NoneType"
  | bool _ => "bool"
  | int _ => "int"
  | float _ => "float"
  | str _ => "str"
  | arr _ => "list"
  | obj _ => "dict"

theorem wellFormedFields_iff {fs : Fields} : WellFormedFields fs ↔ ∀ f ∈ fs, f.2.WellFormed := by
  induction fs with
  | nil => simp [WellFormedFields]
  | cons f fs ih => simp [WellFormedFields, ih]

/-- The fields of well-formed objects are well formed. -/
theorem WellFormed.fieldOrNull {fs : Fields} (h : (obj fs).WellFormed) (name : String) :
    (fieldOrNull name fs).WellFormed := by
  rw [WellFormed, wellFormedFields_iff] at h
  cases hv : fs.lookup name with
  | none => simp [Json.fieldOrNull, field?, hv, WellFormed]
  | some v =>
    obtain ⟨l₁, l₂, hl, -⟩ := List.lookup_eq_some_iff.1 hv
    simpa [Json.fieldOrNull, field?, hv] using h.2 (name, v) (by simp [hl])

theorem elements?_arr (vs : List Json) : (arr vs).elements? = some vs := rfl

end Json

end ForestPager
