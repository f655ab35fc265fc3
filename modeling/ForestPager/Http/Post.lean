import ForestPager.Json.Basic

/-!
# Posting over a connection

What goes out with one POST and what may come back: a decoded answer, or one of
the ways in which posting fails.

Results:

* `header?_cons`: the first header of a name counts, whatever the case of its
  letters.
-/

namespace ForestPager.Http

/-- Header names and values, in order. -/
abbrev Headers := List (String × String)

/-- A text in lower-case ASCII letters. -/
def foldCase (s : String) : String := String.ofList (s.toList.map Char.toLower)

/-- The value of a header. Names are compared without regard to case. -/
def header? (headers : Headers) (name : String) : Option String :=
  (headers.find? fun h => foldCase h.1 == foldCase name).map Prod.snd

theorem header?_cons (h : String × String) (headers : Headers) (name : String) :
    header? (h :: headers) name =
      if foldCase h.1 = foldCase name then some h.2 else header? headers name := by
  unfold header?
  by_cases hn : foldCase h.1 = foldCase name <;> simp [hn]

/-- One POST. -/
structure Post where
  /-- The number of the connection that it goes through. -/
  connection : Nat
  url : String
  headers : Option Headers := none
  body : Json
deriving DecidableEq

/-- The ways in which a POST fails: the service refuses with a status, or answers with a type that
cannot be decoded; the answer claims to be JSON and is not; no answer comes in time, or the
connection fails, in a way named by the transport. -/
inductive PostFailure
  | rejected (status : Int) (message : String) (headers : Option Headers)
  | undecodable (status : Int) (message : String) (headers : Option Headers)
  | malformed (text : String)
  | timedOut (kind : String)
  | transport (kind text : String)
deriving DecidableEq

end ForestPager.Http
