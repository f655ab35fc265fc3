import ForestPager.Proofs.Bookkeeping
import Mathlib.Data.List.Induction

/-!
# What a run reports

The events of a call tell what kind of call it was, and the events of all calls together tell
the run: a request that is made again is announced in the same words, the completed rounds are
numbered without a gap, and the end is reported once, last, and with the number of rounds.

Results:

* `Session.existsUnique_reports`: the events of one call.
* `Session.completed_trace`: the numbers of the completed rounds.
* `Session.told_trace`: what the events of a run tell of its end.
* `Session.announcements_trace`: the announcements of one round.
* `trace_tells_run`: all of it, at every point of a run.
-/

namespace ForestPager

/-- The kinds of calls, where the items of every answer can be gone through: the session is
finished, no leaf is left, or the request is cancelled, fails or is answered. -/
inductive CallKind
  | refused
  | ended
  | cancelled
  | failed
  | answered
deriving DecidableEq

/-- The ids that a reply names in its cursors, though they are not of the query. -/
def Reply.strangers (shape : Shape) (reply : Reply) : List QueryId :=
  reply.nextCursors.keys.filter fun x => !shape.contains x

theorem Reply.strangers_eq_nil_iff {shape : Shape} {reply : Reply} :
    reply.strangers shape = [] ↔ ¬ ∃ x ∈ reply.nextCursors.keys, x ∉ shape.ids := by
  have hmem : ∀ x, shape.contains x = true ↔ x ∈ shape.ids := shape.queries.contains_iff
  simp [strangers, ← hmem]

/-- Cursors are reported as dropped exactly if some of them are for ids outside the query. -/
theorem Traversal.dropped_eq (t : Traversal) (reply : Reply) :
    t.dropped reply =
      if ∃ x ∈ reply.nextCursors.keys, x ∉ t.shape.ids then
        [.cursorsDropped (sortIds (reply.strangers t.shape))] else [] := by
  have hnone := @Reply.strangers_eq_nil_iff t.shape reply
  have hstrangers : (reply.nextCursors.keys.filter fun x => !t.within x) =
      reply.strangers t.shape := rfl
  unfold dropped
  rw [hstrangers]
  cases h : reply.strangers t.shape with
  | nil => rw [if_neg (hnone.1 h)]
  | cons x xs =>
    rw [if_pos]
    by_contra hno
    rw [hnone.2 hno] at h
    cases h

/-- Nothing else is reported of the cursors of a reply. -/
theorem Traversal.exists_of_mem_dropped {t : Traversal} {reply : Reply} {e : Event}
    (he : e ∈ t.dropped reply) : ∃ ids, e = .cursorsDropped ids := by
  rw [dropped_eq] at he
  split at he
  · exact ⟨_, List.mem_singleton.1 he⟩
  · cases he

/-- The round after a reply is finished exactly if no cursor remains. -/
theorem Session.finished_nextRound_iff (s : Session) (reply : Reply) :
    (s.nextRound reply).finished = true ↔ (s.nextRound reply).cursors = ∅ :=
  OrderedMap.isEmpty_iff_eq_empty _

namespace Event

/-- The number of the round that an event reports as completed. -/
def completed? : Event → Option Int
  | roundCompleted index _ _ => some index
  | _ => none

/-- The number of the round whose request an event announces. -/
def planned? : Event → Option Int
  | roundPlanned index _ _ _ => some index
  | _ => none

/-- Whether an event reports the end of a run. -/
def isEnd : Event → Bool
  | runFinished _ _ => true
  | _ => false

end Event

namespace Session

variable {s : Session} {answer : Request → Outcome} {answers : List (Request → Outcome)}

/-! ## One call -/

/-- What is reported in a call of each kind, given the outcome of the request if there is one:
nothing when the session is finished; the end alone, with the cursors given up, when no leaf is
left; the plan alone for a cancellation; the plan and the failure for any other failure. For a
reply it is the plan, the cursors dropped if there are ids outside the query among them, the
completed round, and the end if no cursor remains. -/
inductive Reports (s : Session) : CallKind → Option Outcome → List Event → Prop
  | refused (hf : s.isFinished = true) : s.Reports .refused none []
  | ended (h : s.NoLeafLeft) :
    s.Reports .ended none [.runFinished (s.roundsRun + 1) (sortIds s.round.cursors.keys)]
  | cancelled {leaves : List QueryId} {q : Request} {message : String}
    (hq : s.traversal.opening s.round = .asking leaves q) :
    s.Reports .cancelled (some (.error (.cancelled message)))
      [.roundPlanned s.roundsRun leaves q.ids q.cursors.keys]
  | failed {leaves : List QueryId} {q : Request} {e : Failure}
    (hq : s.traversal.opening s.round = .asking leaves q) (he : ∀ message, e ≠ .cancelled message) :
    s.Reports .failed (some (.error e))
      [.roundPlanned s.roundsRun leaves q.ids q.cursors.keys, .roundFailed s.roundsRun e]
  | answered {leaves : List QueryId} {q : Request} {reply : Reply} {items : Items}
    (hq : s.traversal.opening s.round = .asking leaves q) (hi : reply.listItems = .ok items) :
    s.Reports .answered (some (.ok reply))
      ([.roundPlanned s.roundsRun leaves q.ids q.cursors.keys] ++
        (if ∃ x ∈ reply.nextCursors.keys, x ∉ s.traversal.shape.ids then
          [.cursorsDropped (sortIds (reply.strangers s.traversal.shape))] else []) ++
        [.roundCompleted s.roundsRun items.total (s.nextRound reply).cursors.size] ++
        if (s.nextRound reply).cursors = ∅ then [.runFinished (s.roundsRun + 1) []] else [])

/-- What is reported tells the kind of a call. -/
theorem Reports.unique {kind kind' : CallKind} {o : Option Outcome} {es es' : List Event}
    (h : s.Reports kind o es) (h' : s.Reports kind' o es') : kind = kind' := by
  cases h with
  | refused hf =>
    cases h' with
    | refused => rfl
    | ended hno => exact absurd hno (not_noLeafLeft_of_finished hf)
  | ended hno =>
    cases h' with
    | refused hf => exact absurd hno (not_noLeafLeft_of_finished hf)
    | ended => rfl
  | cancelled =>
    cases h' with
    | cancelled => rfl
    | failed _ he => exact absurd rfl (he _)
  | failed _ he =>
    cases h' with
    | cancelled => exact absurd rfl (he _)
    | failed => rfl
  | answered =>
    cases h' with
    | answered => rfl

/-- A call is of one kind exactly, and reports what belongs to it, unless its request is
answered with items that cannot be gone through. -/
theorem existsUnique_reports (s : Session) (answer : Request → Outcome)
    (hlist : ∀ reply, s.request?.map answer = some (.ok reply) →
      ∃ items, reply.listItems = .ok items) :
    ∃! kind, s.Reports kind (s.request?.map answer) (s.turn answer).call.events := by
  -- the kinds exclude each other, so one is enough
  suffices hex : ∃ kind, s.Reports kind (s.request?.map answer) (s.turn answer).call.events by
    obtain ⟨kind, h⟩ := hex
    exact ⟨kind, h, fun kind' h' => h'.unique h⟩
  have h := s.step_turn answer
  generalize s.turn answer = u at h ⊢
  generalize s.request?.map answer = o at h hlist ⊢
  cases h with
  | refused hf => exact ⟨_, .refused hf⟩
  | ended hno => exact ⟨_, .ended hno⟩
  | @failed leaves q e hq =>
    by_cases he : ∃ message, e = .cancelled message
    · obtain ⟨message, rfl⟩ := he
      exact ⟨_, .cancelled hq⟩
    · rw [if_pos (Failure.isOrdinary_iff.2 he)]
      exact ⟨_, .failed hq fun message h => he ⟨message, h⟩⟩
  | unlistable hq hi =>
    obtain ⟨items, hitems⟩ := hlist _ rfl
    rw [hi] at hitems
    cases hitems
  | answered hq hi =>
    refine ⟨.answered, ?_⟩
    have hreports := Reports.answered hq hi
    simp only [← finished_nextRound_iff, ← Traversal.dropped_eq] at hreports
    simpa using hreports

/-! ## All calls of a run -/

/-- The events of calls with given ways of answering, in order. -/
def trace (s : Session) (answers : List (Request → Outcome)) : List Event :=
  (s.history answers).flatMap fun u => u.call.events

theorem trace_cons (s : Session) (answer : Request → Outcome) (rest : List (Request → Outcome)) :
    s.trace (answer :: rest) =
      (s.turn answer).call.events ++ (s.turn answer).call.session.trace rest := by
  simp [trace, history]

theorem trace_append_singleton (s : Session) (init : List (Request → Outcome))
    (last : Request → Outcome) :
    s.trace (init ++ [last]) = s.trace init ++ ((s.after init).turn last).call.events := by
  simp [trace, history_append, history]

theorem trace_of_finished (hf : s.isFinished = true) : s.trace answers = [] := by
  induction answers with
  | nil => rfl
  | cons answer rest ih =>
    rw [trace_cons, call_turn_of_finished hf, ih]
    rfl

/-- The rounds that a call reports as completed: one of the present number, if the request is
answered and makes a page. -/
theorem completed_step {o : Option Outcome} {u : Turn} (h : s.Step o u) :
    u.call.events.filterMap Event.completed? =
      (List.range' s.roundsRun (o.toList.countP Outcome.succeeds)).map Int.ofNat := by
  have hdropped : ∀ reply, (s.traversal.dropped reply).filterMap Event.completed? = [] := by
    intro reply
    refine List.filterMap_eq_nil_iff.2 fun e he => ?_
    obtain ⟨ids, rfl⟩ := Traversal.exists_of_mem_dropped he
    rfl
  cases h with
  | refused | ended => rfl
  | @failed _ _ e =>
    rw [List.filterMap_cons_none rfl]
    split <;> rfl
  | @unlistable _ _ reply e hq hi =>
    have hfails : [(.ok reply : Outcome)].countP Outcome.succeeds = 0 := by
      simp [Outcome.succeeds_of_unlistable hi]
    rw [List.filterMap_cons_none rfl, hdropped, Option.toList_some, hfails]
    rfl
  | @answered _ _ reply items hq hi =>
    have hsucceeds : [(.ok reply : Outcome)].countP Outcome.succeeds = 1 := by
      simp [Outcome.succeeds_of_listed hi]
    have hend : (if (s.nextRound reply).finished then [Event.runFinished (s.roundsRun + 1) []]
        else []).filterMap Event.completed? = [] := by
      split <;> rfl
    rw [List.filterMap_cons_none rfl, List.filterMap_append, List.filterMap_append, hdropped, hend,
      Option.toList_some, hsucceeds]
    rfl

/-- The completed rounds are those of the replies that make a page, numbered one after the
other. -/
theorem completed_trace (s : Session) (answers : List (Request → Outcome)) :
    (s.trace answers).filterMap Event.completed? =
      (List.range' s.roundsRun ((s.fetched answers).countP Outcome.succeeds)).map Int.ofNat := by
  induction answers generalizing s with
  | nil => rfl
  | cons answer rest ih =>
    rw [trace_cons, fetched, List.filterMap_append, List.countP_append,
      completed_step (s.step_turn answer), ← List.range'_append_1, List.map_append]
    congr 1
    have h := s.step_turn answer
    generalize s.turn answer = u at h ⊢
    generalize s.request?.map answer = o at h ⊢
    cases h with
    | refused hf => exact ih s
    | ended hno =>
      have hf : s.ended.isFinished = true := rfl
      dsimp only
      rw [trace_of_finished hf, fetched_of_finished hf]
      rfl
    | failed hq => exact ih s
    | unlistable hq hi => simpa [Outcome.succeeds_of_unlistable hi] using ih s
    | @answered _ _ reply _ hq hi =>
      have hrest := ih (s.proceed reply)
      rw [show (s.proceed reply).roundsRun = s.roundsRun + 1 from rfl] at hrest
      simpa [Outcome.succeeds_of_listed hi] using hrest

/-- What the events so far tell of the end: nothing as long as the run goes on; when it is
over, its end is the last event, and the ids in it are excluded. -/
inductive Told (s : Session) (told : List Event) : Prop
  | going (hf : s.isFinished = false) (hopen : ∀ e ∈ told, e.isEnd = false)
  | closed (before : List Event) (ids : List QueryId) (hf : s.isFinished = true)
    (hopen : ∀ e ∈ before, e.isEnd = false)
    (hlast : told = before ++ [.runFinished s.roundsRun ids])
    (hex : ∀ x ∈ ids, s.round.isExcluded x = true)

/-- More events of a run that goes on, none of which is its end. -/
theorem Told.more {told es : List Event} (h : s.Told told) (hf : s.isFinished = false)
    (hes : ∀ e ∈ es, e.isEnd = false) : ∀ e ∈ told ++ es, e.isEnd = false := by
  cases h with
  | going _ hopen =>
    intro e he
    exact (List.mem_append.1 he).elim (hopen e) (hes e)
  | closed _ _ hfin =>
    rw [hf] at hfin
    cases hfin

/-- No end is reported before a round is completed. -/
theorem isEnd_of_mem_planned {t : Traversal} {reply : Reply} {index : Int}
    {leaves ids cursorIds : List QueryId} {e : Event}
    (he : e ∈ .roundPlanned index leaves ids cursorIds :: t.dropped reply) : e.isEnd = false := by
  rcases List.mem_cons.1 he with rfl | he
  · rfl
  · obtain ⟨ids, rfl⟩ := Traversal.exists_of_mem_dropped he
    rfl

/-- One call. -/
theorem Told.turn {told : List Event} (h : s.Told told) (ht : s.traversal.Own)
    (hr : s.round.Holds s.traversal.within) (answer : Request → Outcome) :
    (s.turn answer).call.session.Told (told ++ (s.turn answer).call.events) := by
  have hstep := s.step_turn answer
  generalize s.turn answer = u at hstep ⊢
  generalize s.request?.map answer = o at hstep
  cases hstep with
  | refused hf => simpa using h
  | ended hno =>
    have hf : s.isFinished = false := by
      rw [← Bool.not_eq_true]
      exact fun hf => not_noLeafLeft_of_finished hf hno
    refine .closed told _ rfl ?_ rfl fun x hx => ?_
    · have hopen : ∀ e ∈ told ++ [], e.isEnd = false := h.more hf (by simp)
      rwa [List.append_nil] at hopen
    · exact (ht.leaves_eq_nil_iff_excluded hr).1 hno.2 x ((mem_sortIds _ x).1 hx)
  | @failed _ _ e hq =>
    have hf := isFinished_of_asking hq
    refine .going hf (h.more hf fun e' he' => ?_)
    rcases List.mem_cons.1 he' with rfl | he'
    · rfl
    · split at he'
      · rw [List.mem_singleton.1 he']
        rfl
      · cases he'
  | unlistable hq hi =>
    have hf := isFinished_of_asking hq
    exact .going hf (h.more hf fun e he => isEnd_of_mem_planned he)
  | @answered leaves q reply items hq hi =>
    have hf := isFinished_of_asking hq
    -- the events up to the completed round, whether or not the end follows
    have hround : ∀ e ∈ told ++ (.roundPlanned s.roundsRun leaves q.ids q.cursors.keys ::
        s.traversal.dropped reply ++
          [.roundCompleted s.roundsRun items.total (s.nextRound reply).cursors.size]),
        e.isEnd = false := by
      refine h.more hf fun e he => ?_
      rcases List.mem_append.1 he with he | he
      · exact isEnd_of_mem_planned he
      · rw [List.mem_singleton.1 he]
        rfl
    cases hfin : (s.nextRound reply).finished with
    | false =>
      refine .going hfin ?_
      simpa using hround
    | true =>
      refine .closed _ [] hfin hround ?_ (fun x hx => by cases hx)
      show _ = _ ++ [Event.runFinished ((s.roundsRun + 1 : ℕ) : Int) []]
      simp

/-- What the events of a run tell of its end. -/
theorem told_trace {t : Traversal} (ht : t.Own) (excluded : IdSet)
    (answers : List (Request → Outcome)) :
    ((start t excluded).after answers).Told ((start t excluded).trace answers) := by
  induction answers using List.reverseRecOn with
  | nil => exact .going rfl (by simp [trace, history])
  | append_singleton init last ih =>
    rw [after_append, trace_append_singleton]
    refine ih.turn ?_ ?_ last
    · rwa [after_traversal]
    · rw [after_traversal]
      exact holds_after t excluded init

/-- As long as no round is run the session stays as it was. -/
theorem after_eq_self_of_roundsRun {more : List (Request → Outcome)}
    (h : (s.after more).roundsRun = s.roundsRun) : s.after more = s := by
  induction more generalizing s with
  | nil => rfl
  | cons answer rest ih =>
    have hpages := (s.turn answer).call.session.roundsRun_after rest
    have hstep := s.step_turn answer
    rw [after] at h ⊢
    generalize s.turn answer = u at h hpages hstep ⊢
    generalize s.request?.map answer = o at hstep
    cases hstep with
    | refused | failed | unlistable => exact ih h
    | ended =>
      have hmore : s.ended.roundsRun = s.roundsRun + 1 := rfl
      dsimp only at h hpages
      omega
    | @answered _ _ reply =>
      have hmore : (s.proceed reply).roundsRun = s.roundsRun + 1 := rfl
      dsimp only at h hpages
      omega

/-- Two points of a run at which equally many rounds were run are of the same session. -/
theorem after_eq_of_roundsRun {pre pre' post post' : List (Request → Outcome)}
    (h : pre ++ post = pre' ++ post')
    (hrounds : (s.after pre).roundsRun = (s.after pre').roundsRun) :
    s.after pre = s.after pre' := by
  rcases List.append_eq_append_iff.1 h with ⟨more, rfl, -⟩ | ⟨more, rfl, -⟩
  · rw [after_append] at hrounds ⊢
    exact (after_eq_self_of_roundsRun hrounds.symm).symm
  · rw [after_append] at hrounds ⊢
    exact after_eq_self_of_roundsRun hrounds

/-- The end is reported at most once. -/
theorem Told.countP_isEnd_le {told : List Event} (h : s.Told told) :
    told.countP Event.isEnd ≤ 1 := by
  cases h with
  | going _ hopen =>
    rw [List.countP_eq_zero.2 (by simpa using hopen)]
    exact Nat.zero_le 1
  | closed _ _ _ hopen hlast =>
    rw [hlast, List.countP_append, List.countP_eq_zero.2 (by simpa using hopen), Nat.zero_add]
    exact List.countP_le_length

/-- The end is reported when the run is over, and not before. -/
theorem Told.exists_isEnd_iff {told : List Event} (h : s.Told told) :
    (∃ e ∈ told, e.isEnd = true) ↔ s.isFinished = true := by
  cases h with
  | going hf hopen =>
    rw [hf]
    refine iff_of_false ?_ Bool.false_ne_true
    rintro ⟨e, he, hend⟩
    rw [hopen e he] at hend
    cases hend
  | closed _ ids hf _ hlast =>
    refine iff_of_true ⟨.runFinished s.roundsRun ids, ?_, rfl⟩ hf
    rw [hlast]
    exact List.mem_append_right _ List.mem_cons_self

/-- The report of the end is the last event. -/
theorem Told.getLast?_eq {told : List Event} (h : s.Told told) {rounds : Int} {ids : List QueryId}
    (he : .runFinished rounds ids ∈ told) :
    told.getLast? = some (.runFinished rounds ids) ∧ rounds = s.roundsRun ∧
      ∀ x ∈ ids, s.round.isExcluded x = true := by
  cases h with
  | going _ hopen => cases hopen _ he
  | closed _ _ _ hopen hlast hex =>
    rw [hlast, List.mem_append, List.mem_singleton] at he
    rcases he with he | he
    · cases hopen _ he
    · cases he
      exact ⟨by rw [hlast, List.getLast?_concat], rfl, hex⟩

/-- A request is announced by a session that goes on, in words that it alone decides. -/
theorem announcement_of_turn {e : Event} (he : e ∈ (s.turn answer).call.events) {index : Int}
    (hi : e.planned? = some index) :
    index = s.roundsRun ∧ ∃ leaves q, s.traversal.opening s.round = .asking leaves q ∧
      e = .roundPlanned s.roundsRun leaves q.ids q.cursors.keys := by
  have hdropped : ∀ reply, ∀ e ∈ s.traversal.dropped reply, e.planned? = none := by
    intro reply e he
    obtain ⟨ids, rfl⟩ := Traversal.exists_of_mem_dropped he
    rfl
  have hstep := s.step_turn answer
  generalize s.turn answer = u at he hstep
  generalize s.request?.map answer = o at hstep
  -- in each kind of call no event but the first announces a request
  have hfirst : ∃ leaves q rest, s.traversal.opening s.round = .asking leaves q ∧
      u.call.events = .roundPlanned s.roundsRun leaves q.ids q.cursors.keys :: rest ∧
      ∀ e ∈ rest, e.planned? = none := by
    cases hstep with
    | refused => cases he
    | ended =>
      rw [List.mem_singleton.1 he] at hi
      cases hi
    | @failed leaves q e' hq =>
      refine ⟨leaves, q, _, hq, rfl, fun e he => ?_⟩
      split at he
      · rw [List.mem_singleton.1 he]
        rfl
      · cases he
    | @unlistable leaves q reply _ hq => exact ⟨leaves, q, _, hq, rfl, hdropped reply⟩
    | @answered leaves q reply items hq =>
      refine ⟨leaves, q, _, hq, rfl, fun e he => ?_⟩
      rcases List.mem_append.1 he with he | he
      · rcases List.mem_append.1 he with he | he
        · exact hdropped reply e he
        · rw [List.mem_singleton.1 he]
          rfl
      · split at he
        · rw [List.mem_singleton.1 he]
          rfl
        · cases he
  obtain ⟨leaves, q, rest, hq, hevents, hrest⟩ := hfirst
  rw [hevents] at he
  rcases List.mem_cons.1 he with rfl | he
  · cases hi
    exact ⟨rfl, leaves, q, hq, rfl⟩
  · rw [hrest e he] at hi
    cases hi

/-- Every event is reported in a call of a session that the run has reached. -/
theorem mem_trace {e : Event} (he : e ∈ s.trace answers) :
    ∃ pre answer post, answers = pre ++ answer :: post ∧
      e ∈ ((s.after pre).turn answer).call.events := by
  obtain ⟨u, hu, he⟩ := List.mem_flatMap.1 he
  obtain ⟨us, vs, h⟩ := List.append_of_mem hu
  obtain ⟨pre, answer, post, hanswers, -, rfl, -⟩ := history_eq_append_cons h
  exact ⟨pre, answer, post, hanswers, he⟩

/-- The announcements of one round are all equal, however often it is tried. -/
theorem announcements_trace {e e' : Event} (he : e ∈ s.trace answers) (he' : e' ∈ s.trace answers)
    {index : Int} (hi : e.planned? = some index) (hi' : e'.planned? = some index) : e = e' := by
  obtain ⟨pre, answer, post, h, hturn⟩ := mem_trace he
  obtain ⟨pre', answer', post', h', hturn'⟩ := mem_trace he'
  obtain ⟨hindex, leaves, q, hq, rfl⟩ := announcement_of_turn hturn hi
  obtain ⟨hindex', leaves', q', hq', rfl⟩ := announcement_of_turn hturn' hi'
  have hrounds : (s.after pre).roundsRun = (s.after pre').roundsRun := by omega
  have hsame := after_eq_of_roundsRun (h.symm.trans h') hrounds
  rw [hsame] at hq ⊢
  rw [hq] at hq'
  cases hq'
  rfl

end Session

/-- The events of a run tell the run. A call reports nothing; or the end alone; or its plan,
and then nothing for a cancellation, the failure for any other failure, and for a reply the
cursors dropped exactly if there are any, the completed round, and the end exactly if no
cursor remains. Of the five it is exactly one, where the items of the reply can be gone
through. Over the whole run the end is reported at most once, and exactly if the session is
finished; it is the last event and has the number of rounds run, and the ids in it are
excluded. The completed rounds are numbered one after the other from zero, and are as many
as there are replies whose items can be gone through. The announcements of one round are
equal. -/
theorem trace_tells_run {shape : Shape} {t : Traversal} (ht : Traversal.ofShape shape = .ok t)
    (excluded : IdSet) (answers : List (Request → Outcome)) :
    let start := Session.start t excluded
    let s := start.after answers
    let trace := start.trace answers
    (∀ pre answer post, answers = pre ++ answer :: post →
      let r := start.after pre
      (∀ reply, r.request?.map answer = some (.ok reply) → ∃ items, reply.listItems = .ok items) →
        ∃! kind, r.Reports kind (r.request?.map answer) (r.turn answer).call.events) ∧
    trace.countP Event.isEnd ≤ 1 ∧
    ((∃ e ∈ trace, e.isEnd = true) ↔ s.isFinished = true) ∧
    (∀ rounds ids, .runFinished rounds ids ∈ trace →
      trace.getLast? = some (.runFinished rounds ids) ∧ rounds = s.roundsRun ∧
        ∀ x ∈ ids, excluded.contains x = true) ∧
    trace.filterMap Event.completed? =
      (List.range ((start.fetched answers).countP Outcome.succeeds)).map Int.ofNat ∧
    ∀ e ∈ trace, ∀ e' ∈ trace, ∀ index, e.planned? = some index → e'.planned? = some index →
      e = e' := by
  intro start s trace
  have htold : s.Told trace :=
    Session.told_trace (Traversal.own_of_ofShape ht).1 excluded answers
  refine ⟨fun pre answer post _ => (start.after pre).existsUnique_reports answer,
    htold.countP_isEnd_le, htold.exists_isEnd_iff, fun rounds ids he => ?_, ?_,
    fun e he e' he' index => Session.announcements_trace he he'⟩
  · obtain ⟨hlast, hrounds, hex⟩ := htold.getLast?_eq he
    refine ⟨hlast, hrounds, fun x hx => ?_⟩
    rw [← hex x hx, Round.isExcluded, Session.after_excluded]
    rfl
  · rw [List.range_eq_range']
    exact start.completed_trace answers

/-- With the upper sub-query excluded, these four calls report seven events. Three of them announce
a request, one of them again, two complete a round, and the last one says that three rounds were
run and that the cursor of the upper sub-query is given up. -/
theorem trace_tells_run_twoLevels :
    let start := Session.start twoLevels (.ofList ["A"])
    (start.trace upperStaysBehind).length = 7 ∧
      .runFinished 3 ["A"] ∈ start.trace upperStaysBehind ∧
      (start.trace upperStaysBehind).getLast? = some (.runFinished 3 ["A"]) ∧
      (start.trace upperStaysBehind).filterMap Event.completed? = [0, 1] ∧
      (start.trace upperStaysBehind).filterMap Event.planned? = [0, 1, 1] := by
  intro start
  have hend : .runFinished 3 ["A"] ∈ start.trace upperStaysBehind := by decide +kernel
  have hreplies : (start.fetched upperStaysBehind).countP Outcome.succeeds = 2 := by decide +kernel
  obtain ⟨-, -, -, hlast, hcompleted, -⟩ :=
    trace_tells_run ofShape_twoLevels (.ofList ["A"]) upperStaysBehind
  refine ⟨by decide +kernel, hend, (hlast 3 ["A"] hend).1, ?_, by decide +kernel⟩
  rw [hcompleted, hreplies]
  rfl

end ForestPager
