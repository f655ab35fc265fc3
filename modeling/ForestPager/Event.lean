import ForestPager.Failure

/-!
# Events

What a run reports while it goes on, as data: the runs return their events and
leave it to the program whether and where to write them.

Results:

* `Event.severity`: how much attention an event asks for.
-/

namespace ForestPager

/-- Something that happened during a run, in the order of the functions that log it:
`log_forest_built`, `log_round_planned`, `log_round_completed`, `log_round_error`,
`log_cursor_dropped` and `log_pagination_finished`. The cursors that a run gives up at its end are
the `excluded` ones. -/
inductive Event
  | forestBuilt (size : Nat) (roots : List QueryId)
  | roundPlanned (index : Int) (leaves queryIds cursorIds : List QueryId)
  | roundCompleted (index : Int) (items cursors : Nat)
  | roundFailed (index : Int) (failure : Failure)
  | cursorsDropped (ids : List QueryId)
  | runFinished (rounds : Int) (excluded : List QueryId)
deriving DecidableEq

/-- How much attention an event asks for. -/
inductive Severity
  | debug
  | info
  | warning
deriving DecidableEq

namespace Event

/-- Plans are for debugging, results for information, mishaps are warnings. -/
def severity : Event → Severity
  | forestBuilt _ _ => .debug
  | roundPlanned _ _ _ _ => .debug
  | roundCompleted _ _ _ => .info
  | roundFailed _ _ => .warning
  | cursorsDropped _ => .warning
  | runFinished _ _ => .info

end Event

end ForestPager
