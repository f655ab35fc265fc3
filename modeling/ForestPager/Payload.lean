import ForestPager.Failure

/-!
# Payloads where an object or a list is wanted

Answers and bodies are read leniently: a void value counts as an empty object or
list, and a value of another type fails in the way in which it is used.

Results:

* `Payload.optionalFields_ok_iff`: which values are read as the fields of an
  optional object.
-/

namespace ForestPager.Payload

/-- An object's fields, or the failure to ask another value for a method of
objects. -/
def fields (method : String) : Json → Except Failure Json.Fields
  | .obj fields => .ok fields
  | v => .error (.notObject v.typeName method)

/-- The fields of an optional object: a void value has none. -/
def optionalFields (method : String) (v : Json) : Except Failure Json.Fields :=
  if v.isVoid then .ok [] else fields method v

/-- The elements of a value that can be gone through. -/
def elements (v : Json) : Except Failure (List Json) :=
  match v.elements? with
  | some vs => .ok vs
  | none => .error (.notIterable v.typeName)

/-- The elements of an optional list: a void value has none. -/
def optionalElements (v : Json) : Except Failure (List Json) :=
  if v.isVoid then .ok [] else elements v

theorem fields_ok_iff {method : String} {v : Json} {fs : Json.Fields} :
    fields method v = .ok fs ↔ v = .obj fs := by
  cases v <;> simp [fields]

/-- An optional object is void or an object. -/
theorem optionalFields_ok_iff {method : String} {v : Json} {fs : Json.Fields} :
    optionalFields method v = .ok fs ↔
      (v.isVoid = true ∧ fs = []) ∨ (v.isVoid = false ∧ v = .obj fs) := by
  unfold optionalFields
  split
  · next h => simp [h, eq_comm]
  · next h => simp [h, fields_ok_iff]

end ForestPager.Payload
