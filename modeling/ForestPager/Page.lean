import ForestPager.Payload
import ForestPager.Request

/-!
# Answers and pages

A `Reply` is what a service answers to one request. A `Page` is what the caller
of a run sees of it. Items arrive as payloads that are gone through element by
element.

Results:

* `Reply.listItems_ok_iff`: the items can be listed when every payload can.
-/

namespace ForestPager

/-- The answer to one request (`RoundResult`). The items of a sub-query are a payload to go
through; `nextCursors` says where to go on. -/
structure Reply where
  items : OrderedMap QueryId Json := ∅
  nextCursors : NextCursors := ∅
deriving DecidableEq, Inhabited

/-- What asking a service comes to. -/
abbrev Outcome := Except Failure Reply

/-- Items by sub-query. -/
abbrev Items := OrderedMap QueryId (List Json)

namespace Items

/-- The number of items of all sub-queries together. -/
def total (items : Items) : Nat := items.values.foldl (fun n vs => n + vs.length) 0

end Items

namespace Reply

/-- The first payload that cannot be gone through, if there is one. -/
def unlistable? (r : Reply) : Option Json := r.items.values.find? fun v => v.elements?.isNone

/-- The items of a reply, sub-query by sub-query. -/
def listItems (r : Reply) : Except Failure Items :=
  match r.unlistable? with
  | some v => .error (.notIterable v.typeName)
  | none => .ok (r.items.mapValues fun _ v => v.elements?.getD [])

/-- The items can be listed when every payload can be gone through. -/
theorem listItems_ok_iff (r : Reply) :
    (∃ items, r.listItems = .ok items) ↔ ∀ v ∈ r.items.values, v.elements? ≠ none := by
  unfold listItems unlistable?
  cases h : r.items.values.find? fun v => v.elements?.isNone with
  | none =>
    simp only [List.find?_eq_none, Option.isNone_iff_eq_none] at h
    simpa using h
  | some v =>
    simp only [reduceCtorEq, exists_false, false_iff]
    intro hall
    have hp := List.find?_some h
    exact hall v (List.mem_of_find?_eq_some h) (by simpa using hp)

end Reply

/-- What one round came to, as its caller sees it (`PageResult`). A run counts its rounds from
zero, and the first one advances no leaves. -/
structure Page where
  items : Items := ∅
  finished : Bool
  index : Int := 0
  leaves : List QueryId := []
deriving DecidableEq

namespace Page

/-- The number of items on the page (`PageResult.total_items`). -/
def totalItems (p : Page) : Nat := p.items.total

end Page

end ForestPager
