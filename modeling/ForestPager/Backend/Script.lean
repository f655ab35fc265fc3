import ForestPager.Http.Client
import ForestPager.Page

/-!
# Answers from a script

Backends that answer from a list: the first request gets the first entry, and so
on. When the list is used up, every further request fails in a way of the script's
own. All requests are kept.

Results:

* `Script.take_nil`: past its end a script fails.
* `Script.asked_take`: every request is kept, answered or not.
-/

namespace ForestPager

/-- The answers still to be given to requests of one type, and the requests so far, in order. -/
structure Script (α β : Type) where
  answers : List (Except Failure β)
  asked : List α := []

namespace Script

variable {α β : Type}

/-- The failure past the end of a script. -/
def exhausted : Failure := .foreign "ScriptExhausted" ""

/-- Answer a request with the next entry. -/
def take (request : α) (s : Script α β) : Except Failure β × Script α β :=
  match s.answers with
  | [] => (.error exhausted, { s with asked := s.asked ++ [request] })
  | answer :: rest => (answer, ⟨rest, s.asked ++ [request]⟩)

/-- Answer a request with the next entry, as a step of a program. -/
def fetch (request : α) : StateM (Script α β) (Except Failure β) := fun s => s.take request

@[simp] theorem asked_take (request : α) (s : Script α β) :
    (s.take request).2.asked = s.asked ++ [request] := by
  unfold take
  split <;> rfl

theorem take_nil (request : α) {s : Script α β} (h : s.answers = []) :
    (s.take request).1 = .error exhausted := by
  simp [take, h]

end Script

end ForestPager
