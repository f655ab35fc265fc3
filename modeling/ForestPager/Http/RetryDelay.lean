import ForestPager.Failure
import ForestPager.Number.Numeral

/-!
# The delay before asking again

A service that wants to be asked later may say when, in seconds, as a written
number. What is no number counts as nothing said, and so does the number that is
none. Fractions are cut, and nobody is asked earlier than now.

Results:

* `retryDelay_none`: without a header the delay is the usual one.
* `retryDelay_eq_error_iff`: the reading fails exactly for what is infinite.
* `retryDelay_nonneg`: a delay is never negative.
-/

namespace ForestPager.Http

/-- The delay in seconds when a service names none (`DEFAULT_RETRY_AFTER`). -/
def usualDelay : Int := 60

/-- A delay of a given number of seconds. -/
def delayOf : Binary64 → Except Failure Int
  | .infinite _ => .error .infinite
  | .nan => .ok usualDelay
  | .finite negative m e => .ok (max 0 (((Binary64.finite negative m e).truncate?).getD 0))

/-- The delay that the value of a header asks for (`_parse_retry_after`). -/
def retryDelay : Option String → Except Failure Int
  | none => .ok usualDelay
  | some s =>
    match readNumeral? s with
    | none => .ok usualDelay
    | some n => delayOf n.toBinary64

theorem retryDelay_none : retryDelay none = .ok usualDelay := rfl

theorem delayOf_nonneg {x : Binary64} {d : Int} (h : delayOf x = .ok d) : 0 ≤ d := by
  cases x with
  | finite negative m e => cases h; exact Int.le_max_left _ _
  | infinite negative => cases h
  | nan => cases h; decide

/-- A delay is never negative. -/
theorem retryDelay_nonneg {value : Option String} {d : Int} (h : retryDelay value = .ok d) :
    0 ≤ d := by
  unfold retryDelay at h
  split at h
  · cases h; decide
  · split at h
    · cases h; decide
    · exact delayOf_nonneg h

/-- The reading fails exactly for what is infinite. -/
theorem retryDelay_eq_error_iff (value : Option String) :
    (∃ failure, retryDelay value = .error failure) ↔
      ∃ s n negative, value = some s ∧ readNumeral? s = some n ∧
        n.toBinary64 = .infinite negative := by
  cases value with
  | none => simp [retryDelay]
  | some s =>
    cases hn : readNumeral? s with
    | none => simp [retryDelay, hn]
    | some n => cases hb : n.toBinary64 <;> simp [retryDelay, hn, delayOf, hb]

end ForestPager.Http
