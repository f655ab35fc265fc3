import ForestPager.History
import ForestPager.Proofs.Composition

/-!
# What a turn can do

A turn of a session finds the session finished, ends the run without a request, or
asks for something. What it comes to is said once for each of the three, so that no
later proof has to look into a turn again.

Results:

* `Traversal.opening_eq_asking`: what asking for something tells about the round.
* `Traversal.queries_of_asking`: what is asked for, sub-query by sub-query.
* `Session.turn_of_reply`: a turn with a reply whose items can be listed.
* `Session.turn_ok_cases`: what a turn that made a page was.
* `Session.after_traversal`, `Session.after_excluded`: what never changes.
* `Session.history_eq_append_cons`: every entry of a history is a turn of a session
  that the run has reached.
-/

namespace ForestPager

/-! ## Openings -/

namespace Traversal

variable {t : Traversal} {r : Round}

theorem opening_of_leaves (hn : r.isNew = false) (hf : r.finished = false)
    (hl : r.leaves t.forest t.within ≠ []) :
    t.opening r = .asking (r.leaves t.forest t.within)
      (.advancing t.forest t.shape r (r.leaves t.forest t.within)) := by
  obtain ⟨l, ls, h⟩ := List.exists_cons_of_ne_nil hl
  simp [opening, hf, hn, h]

theorem opening_of_no_leaves (hn : r.isNew = false) (hf : r.finished = false)
    (hl : r.leaves t.forest t.within = []) : t.opening r = .closing := by
  simp [opening, hf, hn, hl]

/-- A round that ends the run has no leaf left. -/
theorem opening_eq_closing (h : t.opening r = .closing) :
    r.isNew = false ∧ r.finished = false ∧ r.leaves t.forest t.within = [] := by
  unfold opening at h
  split at h
  · cases h
  · next hf =>
    split at h
    · cases h
    · next hn =>
      split at h
      · next hl => exact ⟨Bool.not_eq_true _ ▸ hn, Bool.not_eq_true _ ▸ hf, hl⟩
      · cases h

/-- A round that asks for something is new and asks for everything, or advances its
leaves. -/
theorem opening_eq_asking {leaves : List QueryId} {q : Request}
    (h : t.opening r = .asking leaves q) :
    (r.isNew = true ∧ leaves = [] ∧ q = .full t.shape) ∨
      (r.isNew = false ∧ leaves = r.leaves t.forest t.within ∧
        q = .advancing t.forest t.shape r (r.leaves t.forest t.within)) := by
  unfold opening at h
  split at h
  · cases h
  · split at h
    · next hn =>
      cases h
      exact .inl ⟨hn, rfl, rfl⟩
    · next hn =>
      refine .inr ⟨Bool.not_eq_true _ ▸ hn, ?_⟩
      split at h
      · cases h
      · next hl =>
        cases h
        exact ⟨hl.symm, by rw [hl]⟩

/-- A round that is not new asks for something only if it has a leaf. -/
theorem leaves_ne_nil_of_asking {leaves : List QueryId} {q : Request}
    (h : t.opening r = .asking leaves q) (hn : r.isNew = false) : leaves ≠ [] := by
  rcases opening_eq_asking h with ⟨hnew, -, -⟩ | ⟨-, rfl, -⟩
  · rw [hn] at hnew
    cases hnew
  · intro hnil
    have hf : r.finished = false := by
      rw [← Bool.not_eq_true, ← t.opening_eq_refused_iff, h]
      exact fun hr => by cases hr
    rw [opening_of_no_leaves hn hf hnil] at h
    cases h

/-- A request goes through the sub-queries of the shape and takes those for which something
is submitted. -/
theorem queries_of_asking {leaves : List QueryId} {q : Request}
    (h : t.opening r = .asking leaves q) :
    q.queries = t.shape.queries.filterMap fun x s => (q.submitted? x).map fun c => ⟨s, c⟩ := by
  have hids : ∀ e ∈ t.shape.queries.entries, e.1 ∈ t.shape.ids := fun e he =>
    List.mem_map_of_mem he
  rcases opening_eq_asking h with ⟨-, -, rfl⟩ | ⟨-, -, rfl⟩
  · have hfull : (Request.full t.shape).queries = t.shape.queries.mapValues fun _ s => ⟨s, none⟩ :=
      rfl
    rw [hfull, OrderedMap.mapValues_eq_filterMap]
    refine OrderedMap.filterMap_congr fun e he => ?_
    rw [Request.submitted?_full t.shape (hids e he)]
    rfl
  · have hadvancing : (Request.advancing t.forest t.shape r (r.leaves t.forest t.within)).queries =
        t.shape.queries.filterMap fun x s =>
          ((Request.assignedCursors t.forest r (r.leaves t.forest t.within)).get? x).map
            fun c => ⟨s, c⟩ := rfl
    rw [hadvancing]
    refine OrderedMap.filterMap_congr fun e he => ?_
    rw [Request.submitted?_advancing _ (hids e he)]

theorem parameters_of_asking {leaves : List QueryId} {q : Request}
    (h : t.opening r = .asking leaves q) :
    q.parameters = t.shape.parameters := by
  rcases opening_eq_asking h with ⟨-, -, rfl⟩ | ⟨-, -, rfl⟩ <;> rfl

end Traversal

namespace Session

/-! ## Turns -/

variable {s : Session} {answer : Request → Outcome}

/-- The round after a reply. -/
def nextRound (s : Session) (reply : Reply) : Round :=
  s.round.advance reply.nextCursors s.traversal.within

/-- The page that a reply makes. -/
def pageOf (s : Session) (leaves : List QueryId) (reply : Reply) (items : Items) : Page where
  items := items
  finished := (s.nextRound reply).finished
  index := s.roundsRun
  leaves := leaves

/-- The session after a reply. -/
def proceed (s : Session) (reply : Reply) : Session :=
  { s with round := s.nextRound reply, roundsRun := s.roundsRun + 1 }

/-- The session after a run was ended without a request. -/
def ended (s : Session) : Session :=
  { s with round := s.round.finish, roundsRun := s.roundsRun + 1 }

theorem request?_of_asking {leaves : List QueryId} {q : Request}
    (h : s.traversal.opening s.round = .asking leaves q) : s.request? = some q := by
  rw [request?, h]

theorem isFinished_of_asking {leaves : List QueryId} {q : Request}
    (h : s.traversal.opening s.round = .asking leaves q) : s.isFinished = false :=
  s.isFinished_eq_false_iff.2 (by simp [h])

/-- A finished session refuses. -/
theorem call_turn_of_finished (hf : s.isFinished = true) (answer : Request → Outcome) :
    (s.turn answer).call = ⟨.error Failure.sessionOver, s, []⟩ := by
  simp [turn, nextPage_of_finished _ hf]

theorem turn_of_closing (h : s.traversal.opening s.round = .closing) :
    (s.turn answer).request = none ∧ (s.turn answer).call.session = s.ended ∧
      (s.turn answer).call.result = .ok { finished := true, index := s.roundsRun } := by
  have hf : s.isFinished = false := s.isFinished_eq_false_iff.2 (by simp [h])
  simp [turn, request?, nextPage, Traversal.runRound, h, hf, commit, Traversal.close, ended]

theorem turn_of_asking {leaves : List QueryId} {q : Request}
    (h : s.traversal.opening s.round = .asking leaves q) :
    s.turn answer =
      ⟨some q, s.commit
        { s.traversal.settle s.round s.roundsRun leaves (answer q) with
          events := Traversal.planned s.roundsRun leaves q ::
            (s.traversal.settle s.round s.roundsRun leaves (answer q)).events }⟩ := by
  have hf : s.isFinished = false := isFinished_of_asking h
  simp [turn, request?, nextPage, Traversal.runRound, h, hf]

/-- Of the answers only the one to the request that is made counts. -/
theorem turn_eq_of_asking {leaves : List QueryId} {q : Request}
    (h : s.traversal.opening s.round = .asking leaves q) :
    s.turn answer = s.turn fun _ => answer q := by
  rw [turn_of_asking h, turn_of_asking h]

/-- A turn with a reply whose items can be listed makes a page of them and goes on. -/
theorem turn_of_reply {leaves : List QueryId} {q : Request} {reply : Reply} {items : Items}
    (h : s.traversal.opening s.round = .asking leaves q) (ha : answer q = .ok reply)
    (hi : reply.listItems = .ok items) :
    (s.turn answer).request = some q ∧ (s.turn answer).call.session = s.proceed reply ∧
      (s.turn answer).call.result = .ok (s.pageOf leaves reply items) := by
  rw [turn_of_asking h, ha]
  simp [Traversal.settle, hi, commit, proceed, pageOf, nextRound]

/-- A turn that made a page ended the run without a request, or had a reply. -/
theorem turn_ok_cases {page : Page} (h : (s.turn answer).call.result = .ok page) :
    s.traversal.opening s.round = .closing ∨
      ∃ leaves q reply items, s.traversal.opening s.round = .asking leaves q ∧
        answer q = .ok reply ∧ reply.listItems = .ok items := by
  cases ho : s.traversal.opening s.round with
  | refused =>
    rw [← isFinished_iff_refused] at ho
    rw [call_turn_of_finished ho] at h
    cases h
  | closing => exact .inl rfl
  | asking leaves q =>
    refine .inr ⟨leaves, q, ?_⟩
    rw [turn_of_asking ho] at h
    cases ha : answer q with
    | error e => simp [ha, commit] at h
    | ok reply =>
      cases hi : reply.listItems with
      | error e => simp [ha, hi, Traversal.settle, commit] at h
      | ok items => exact ⟨reply, items, rfl, rfl, hi⟩

/-- What a turn does to the session: nothing, ending it, or going on. -/
theorem session_turn_cases (s : Session) (answer : Request → Outcome) :
    (s.turn answer).call.session = s ∨ (s.turn answer).call.session = s.ended ∨
      ∃ reply, (s.turn answer).call.session = s.proceed reply := by
  cases hr : (s.turn answer).call.result with
  | error e => exact .inl (session_turn_of_error hr)
  | ok page =>
    rcases turn_ok_cases hr with hc | ⟨leaves, q, reply, items, ho, ha, hi⟩
    · exact .inr (.inl (turn_of_closing hc).2.1)
    · exact .inr (.inr ⟨reply, (turn_of_reply ho ha hi).2.1⟩)

/-! ## Runs -/

/-- What every turn keeps holds after any turns. -/
theorem after_induction {P : Session → Prop}
    (step : ∀ s answer, P s → P (Session.turn answer s).call.session) (hs : P s)
    (answers : List (Request → Outcome)) : P (s.after answers) := by
  induction answers generalizing s with
  | nil => exact hs
  | cons answer rest ih => exact ih (step s answer hs)

theorem turn_traversal (s : Session) (answer : Request → Outcome) :
    (s.turn answer).call.session.traversal = s.traversal := by
  rcases session_turn_cases s answer with h | h | ⟨reply, h⟩ <;> rw [h] <;> rfl

theorem turn_excluded (s : Session) (answer : Request → Outcome) :
    (s.turn answer).call.session.round.excluded = s.round.excluded := by
  rcases session_turn_cases s answer with h | h | ⟨reply, h⟩ <;> rw [h] <;> rfl

theorem after_traversal (s : Session) (answers : List (Request → Outcome)) :
    (s.after answers).traversal = s.traversal := by
  induction answers generalizing s with
  | nil => rfl
  | cons answer rest ih => exact (ih _).trans (s.turn_traversal answer)

theorem after_excluded (s : Session) (answers : List (Request → Outcome)) :
    (s.after answers).round.excluded = s.round.excluded := by
  induction answers generalizing s with
  | nil => rfl
  | cons answer rest ih => exact (ih _).trans (s.turn_excluded answer)

@[simp] theorem length_history (s : Session) (answers : List (Request → Outcome)) :
    (s.history answers).length = answers.length := by
  induction answers generalizing s with
  | nil => rfl
  | cons answer rest ih => simp [history, ih]

/-- Turns that fail leave the session as it was. -/
theorem after_of_errors {answers : List (Request → Outcome)}
    (h : ∀ u ∈ s.history answers, ∃ e, u.call.result = .error e) : s.after answers = s := by
  induction answers generalizing s with
  | nil => rfl
  | cons answer rest ih =>
    obtain ⟨⟨e, he⟩, hrest⟩ := List.forall_mem_cons.1 h
    rw [session_turn_of_error he] at hrest
    rw [after, session_turn_of_error he, ih hrest]

/-- A finished session stays as it is. -/
theorem after_of_finished (hf : s.isFinished = true) (answers : List (Request → Outcome)) :
    s.after answers = s := by
  induction answers with
  | nil => rfl
  | cons answer rest ih => rw [after, call_turn_of_finished hf, ih]

/-- Every entry of a history is a turn of a session that the run has reached. -/
theorem history_eq_append_cons {answers : List (Request → Outcome)} {us vs : List Turn} {u : Turn}
    (h : s.history answers = us ++ u :: vs) :
    ∃ pre answer post, answers = pre ++ answer :: post ∧ s.history pre = us ∧
      u = (s.after pre).turn answer ∧
      vs = ((s.after pre).turn answer).call.session.history post := by
  induction us generalizing s answers with
  | nil =>
    cases answers with
    | nil => simp [history] at h
    | cons answer rest =>
      simp only [history, List.nil_append, List.cons.injEq] at h
      exact ⟨[], answer, rest, rfl, rfl, h.1.symm, h.2.symm⟩
  | cons w ws ih =>
    cases answers with
    | nil => simp [history] at h
    | cons a rest =>
      simp only [history, List.cons_append, List.cons.injEq] at h
      obtain ⟨pre, answer, post, rfl, hus, hu, hvs⟩ := ih h.2
      exact ⟨a :: pre, answer, post, rfl, by rw [history, hus, h.1], hu, hvs⟩

end Session

end ForestPager
