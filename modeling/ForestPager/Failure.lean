import ForestPager.Forest.Build
import ForestPager.Http.Post
import ForestPager.Number.Numeral

/-!
# Failures

Everything that can go wrong, by its cause, with the wording of each cause. The
first five are the library's own family and may also be raised by whoever answers
requests; the others say what is wrong with a value that was handed over, or pass
on what happened elsewhere.

Results:

* `Failure.families`: the families that a failure belongs to.
* `Failure.message`: the wording.
-/

namespace ForestPager

/-- A step on the way to a part of a value: a field or a key that is a text, or a key that is a
whole number. -/
inductive PathStep
  | name (s : String)
  | number (n : Int)
deriving DecidableEq

/-- What is wrong with a part of a value: it has to be a text, an object, or an object that stands
for the named model, or it is a blank id. -/
inductive IssueKind
  | notText
  | notObject
  | notModel (model : String)
  | blankId
deriving DecidableEq

namespace IssueKind

/-- The short name of an issue. -/
def code : IssueKind → String
  | notText => "string_type"
  | notObject => "dict_type"
  | notModel _ => "model_type"
  | blankId => "value_error"

/-- The wording of an issue. -/
def message : IssueKind → String
  | notText => "Input should be a valid string"
  | notObject => "Input should be a valid dictionary"
  | notModel model => "Input should be a valid dictionary or instance of " ++ model
  | blankId => "Value error, sub-query ids must be non-empty"

end IssueKind

/-- A fault in a value, and the path to it. -/
structure Issue where
  path : List PathStep
  kind : IssueKind
deriving DecidableEq

/-- Everything that can go wrong. The first five are `GraphQueryError`, `ShapeError`,
`ExecutorError`, `RateLimitError` and `UseAfterFinishedError`. Up to `nan` follows what can be
wrong with a value that was handed over; a value of the wrong type is told by the name of its
type, and an element of a list of pairs by its index. The last three are passed on: a POST that
failed, a failure from elsewhere by its name and wording, and a cancellation. -/
inductive Failure
  | query (message : String)
  | shape (message : String) (queryIds : List QueryId)
  | executor (message : String) (status : Option Int) (requestId : Option String)
  | rateLimited (message : String) (retryAfter : Int) (requestId : Option String)
  | finished (message : String)
  | missingKey (key : String)
  | invalid (issues : List Issue)
  | roundLimit
  | emptyProject
  | notObject (typeName method : String)
  | notIterable (typeName : String)
  | notIndexable (typeName : String)
  | notKey (typeName : String)
  | notPair (index : Nat)
  | pairLength (index length : Nat)
  | notWhole (text : String)
  | tooManyDigits (count : Nat)
  | notNumeric (typeName : String)
  | infinite
  | nan
  | post (failure : Http.PostFailure)
  | foreign (name message : String)
  | cancelled (message : String)
deriving DecidableEq

/-- The families of failures: `GraphQueryError` and the four classes below it. -/
inductive FailureFamily
  | query
  | shape
  | executor
  | rateLimited
  | finished
deriving DecidableEq

namespace Failure

/-- Whether a failure is an ordinary one; a cancellation is not. -/
def isOrdinary : Failure → Bool
  | cancelled _ => false
  | _ => true

theorem isOrdinary_iff {e : Failure} :
    e.isOrdinary = true ↔ ¬ ∃ message, e = cancelled message := by
  cases e <;> simp [isOrdinary]

/-- The families that a failure belongs to, the narrowest first. -/
def families : Failure → List FailureFamily
  | query _ => [.query]
  | shape _ _ => [.shape, .query]
  | executor _ _ _ => [.executor, .query]
  | rateLimited _ _ _ => [.rateLimited, .executor, .query]
  | finished _ => [.finished, .query]
  | _ => []

/-- The most characters of a quoted text that a message shows. -/
def quotedWidth : Nat := 200

/-- A quoted text, cut to what a message shows of it. -/
def quoted (s : String) : String := String.ofList ((Text.quote s).toList.take quotedWidth)

/-- The wording of a failure. -/
def message : Failure → String
  | query message => message
  | shape message _ => message
  | executor message _ _ => message
  | rateLimited message _ _ => message
  | finished message => message
  | missingKey key => key
  | invalid issues => "\n".intercalate (issues.map fun i => i.kind.message)
  | roundLimit => "max_rounds must be at least 1"
  | emptyProject => "project must be non-empty"
  | notObject typeName method => "'" ++ typeName ++ "' object has no attribute '" ++ method ++ "'"
  | notIterable typeName => "'" ++ typeName ++ "' object is not iterable"
  | notIndexable typeName => "a value of type " ++ typeName ++ " has no fields"
  | notKey typeName => "a value of type " ++ typeName ++ " cannot be a key"
  | notPair index => "element " ++ toString index ++ " is no pair"
  | pairLength index length =>
    "element " ++ toString index ++ " has " ++ toString length ++ " parts instead of two"
  | notWhole text => "invalid literal for int() with base 10: " ++ quoted text
  | tooManyDigits count =>
    "Exceeds the limit (" ++ toString digitsAllowed ++
      " digits) for integer string conversion: value has " ++ toString count ++
      " digits; use sys.set_int_max_str_digits() to increase the limit"
  | notNumeric typeName =>
    "int() argument must be a string, a bytes-like object or a real number, not '" ++ typeName ++
      "'"
  | infinite => "cannot convert float infinity to integer"
  | nan => "cannot convert float NaN to integer"
  | post (.rejected _ message _) => message
  | post (.undecodable _ message _) => message
  | post (.malformed text) => text
  | post (.timedOut _) => ""
  | post (.transport _ text) => text
  | foreign _ message => message
  | cancelled message => message

/-- The `ShapeError` for a defect of the forest. -/
def ofDefect (d : Forest.Defect) : Failure := shape d.message d.queryIds

/-- The failure of `LeafSelector.collect_leaves` for a finished round. -/
def noLeavesLeft : Failure := finished "Attempted to select leaves from a finished round"

/-- The failure of `RoundExecutor.execute` for a finished round. -/
def roundOver : Failure := finished "Attempted to query using a finished cursor round"

/-- The failure of `PaginationSession.next_page` for a finished session. -/
def sessionOver : Failure := finished "Attempted to fetch a page from a finished session"

/-- The failure of `query_all` after the last round allowed. -/
def tooManyRounds (limit : Int) : Failure :=
  query ("Pagination did not finish within " ++ toString limit ++ " rounds")

end Failure

end ForestPager
