import ForestPager.Backend.Script
import ForestPager.Proofs.Driving

/-!
# Failed calls leave no trace

A service whose outcomes are given beforehand uses up one of them for each request. Some
are failures, and some replies have items that cannot be gone through; a call that meets
either fails, and the next call makes the same request again. The *course* of a session
over some outcomes is the list of its calls until it is finished or an outcome is missing.

Results:

* `Session.turn_of_failure`, `Session.turn_of_success`: what one outcome comes to.
* `Session.run_calls_script`: a course is the calls with the outcomes as a script.
* `Session.course_maximal`: where a course ends.
* `Session.course_eq_cons`: what the first call of a course is.
* `Session.course_filter`: without the failing outcomes the course is the same, less the
  calls that failed.
* `Session.failed_calls_invisible`: failed calls leave no trace.
-/

namespace ForestPager

/-- What makes a call fail: the failure to answer, or a payload that cannot be gone
through; nothing when the outcome is a reply that can be listed. -/
def Outcome.failure? : Outcome → Option Failure
  | .error failure => some failure
  | .ok reply =>
    match reply.listItems with
    | .error failure => some failure
    | .ok _ => none

/-- An outcome that makes a page is a reply that can be listed. -/
theorem Outcome.failure?_eq_none_iff {o : Outcome} :
    o.failure? = none ↔ ∃ reply items, o = .ok reply ∧ reply.listItems = .ok items := by
  unfold Outcome.failure?
  cases o with
  | error failure => simp
  | ok reply => cases hi : reply.listItems <;> simp [hi]

/-- Whether an outcome makes a page. -/
def Outcome.succeeds (o : Outcome) : Bool := o.failure?.isNone

@[simp] theorem Outcome.succeeds_error (e : Failure) : Outcome.succeeds (.error e) = false := rfl

theorem Outcome.succeeds_of_listed {reply : Reply} {items : Items}
    (hi : reply.listItems = .ok items) : Outcome.succeeds (.ok reply) = true := by
  simp [succeeds, failure?, hi]

theorem Outcome.succeeds_of_unlistable {reply : Reply} {e : Failure}
    (hi : reply.listItems = .error e) : Outcome.succeeds (.ok reply) = false := by
  simp [succeeds, failure?, hi]

/-- Whether a call made a page. -/
def Turn.madePage (u : Turn) : Bool := u.call.result.isOk

theorem Turn.madePage_of_ok {u : Turn} {page : Page} (h : u.call.result = .ok page) :
    u.madePage = true := by
  rw [madePage, h]
  rfl

theorem Turn.madePage_of_error {u : Turn} {e : Failure} (h : u.call.result = .error e) :
    u.madePage = false := by
  rw [madePage, h]
  rfl

namespace Session

/-- The call that ends the run without a request, where the session is at that point. -/
def lastCall (s : Session) : List Turn :=
  match s.traversal.opening s.round with
  | .closing => [s.turn fun _ => .error Failure.sessionOver]
  | _ => []

/-- The calls of a session whose requests use up the given outcomes one by one, until the
session is finished or a request finds no outcome. -/
def course : Session → List Outcome → List Turn
  | s, [] => s.lastCall
  | s, o :: rest =>
    match s.request? with
    | none => s.lastCall
    | some _ => s.turn (fun _ => o) :: (s.turn fun _ => o).call.session.course rest

/-- A number of calls one after the other, each of the session that the one before it left. -/
def calls {m : Type → Type} [Monad m] (fetch : Request → m Outcome) : ℕ → Session → m (List Call)
  | 0, _ => pure []
  | n + 1, s => do
    let call ← s.nextPage fetch
    let rest ← calls fetch n call.session
    pure (call :: rest)

/-- The session after some calls. -/
def afterTurns (s : Session) (us : List Turn) : Session := us.foldl (fun _ u => u.call.session) s

variable {s : Session} {q : Request} {o : Outcome} {w : List Outcome} {e : Failure}

@[simp] theorem afterTurns_nil (s : Session) : s.afterTurns [] = s := rfl

@[simp] theorem afterTurns_cons (s : Session) (u : Turn) (us : List Turn) :
    s.afterTurns (u :: us) = u.call.session.afterTurns us := rfl

/-! ## One call -/

/-- A session that asks for something is going to advance some leaves. -/
theorem exists_asking (h : s.request? = some q) :
    ∃ leaves, s.traversal.opening s.round = .asking leaves q := by
  unfold request? at h
  cases ho : s.traversal.opening s.round with
  | refused => simp [ho] at h
  | closing => simp [ho] at h
  | asking leaves q' =>
    simp only [ho, Option.some.injEq] at h
    exact ⟨leaves, by rw [h]⟩

/-- A service that takes its outcomes from a script answers a call with the next one. -/
theorem run_nextPage_script (h : s.request? = some q) (o : Outcome) (rest : List Outcome)
    (asked : List Request) :
    (s.nextPage Script.fetch).run ⟨o :: rest, asked⟩ =
      ((s.turn fun _ => o).call, ⟨rest, asked ++ [q]⟩) := by
  obtain ⟨leaves, ho⟩ := exists_asking h
  rw [run_nextPage_of_asking ho]
  rfl

/-- A failing outcome is the failure of its call, which leaves the session as it was. -/
theorem turn_of_failure (h : s.request? = some q) (hf : o.failure? = some e) :
    (s.turn fun _ => o).request = some q ∧ (s.turn fun _ => o).call.result = .error e ∧
      (s.turn fun _ => o).call.session = s := by
  obtain ⟨leaves, ho⟩ := exists_asking h
  have hres : (s.turn fun _ => o).call.result = .error e := by
    rw [turn_of_asking ho]
    unfold Outcome.failure? at hf
    cases o with
    | error failure => simpa [Traversal.settle, commit] using hf
    | ok reply =>
      cases hi : reply.listItems with
      | error failure => simpa [hi, Traversal.settle, commit] using hf
      | ok items => simp [hi] at hf
  exact ⟨h, hres, session_turn_of_error hres⟩

/-- Any other outcome makes a page. -/
theorem turn_of_success (h : s.request? = some q) (hf : o.failure? = none) :
    ∃ page, (s.turn fun _ => o).call.result = .ok page := by
  obtain ⟨leaves, ho⟩ := exists_asking h
  obtain ⟨reply, items, rfl, hi⟩ := Outcome.failure?_eq_none_iff.1 hf
  exact ⟨_, (turn_of_reply ho rfl hi).2.2⟩

/-! ## Courses -/

theorem lastCall_of_asking (h : s.request? = some q) : s.lastCall = [] := by
  obtain ⟨leaves, ho⟩ := exists_asking h
  simp [lastCall, ho]

theorem course_of_no_request (h : s.request? = none) (w : List Outcome) :
    s.course w = s.lastCall := by
  cases w with
  | nil => rfl
  | cons o rest => simp [course, h]

theorem course_of_asking (h : s.request? = some q) (o : Outcome) (rest : List Outcome) :
    s.course (o :: rest) =
      s.turn (fun _ => o) :: (s.turn fun _ => o).call.session.course rest := by
  simp [course, h]

/-- The last call makes an empty page and finishes the session. -/
theorem lastCall_cases (s : Session) :
    s.lastCall = [] ∧ (s.isFinished = true ∨ ∃ q, s.request? = some q) ∨
      ∃ u page, s.lastCall = [u] ∧ u.request = none ∧ u.call.result = .ok page ∧
        u.call.session.isFinished = true := by
  unfold lastCall
  cases ho : s.traversal.opening s.round with
  | refused => exact .inl ⟨rfl, .inl ((isFinished_iff_refused s).2 ho)⟩
  | asking leaves q => exact .inl ⟨rfl, .inr ⟨q, request?_of_asking ho⟩⟩
  | closing =>
    obtain ⟨hreq, hsess, hres⟩ := @turn_of_closing s (fun _ => .error Failure.sessionOver) ho
    exact .inr ⟨_, _, rfl, hreq, hres, by rw [hsess]; rfl⟩

theorem filter_lastCall (s : Session) : s.lastCall.filter Turn.madePage = s.lastCall := by
  rcases lastCall_cases s with ⟨hl, -⟩ | ⟨u, page, hl, -, hres, -⟩
  · simp [hl]
  · simp [hl, Turn.madePage_of_ok hres]

theorem request_lastCall (s : Session) : s.lastCall.filterMap Turn.request = [] := by
  rcases lastCall_cases s with ⟨hl, -⟩ | ⟨u, page, hl, hreq, -, -⟩
  · simp [hl]
  · simp [hl, hreq]

/-- A session that makes no last call is finished or asks for something. -/
theorem afterTurns_lastCall (s : Session) :
    (s.afterTurns s.lastCall).isFinished = true ∨ s.lastCall = [] ∧ ∃ q, s.request? = some q := by
  rcases lastCall_cases s with ⟨hl, h⟩ | ⟨u, page, hl, -, -, hf⟩
  · rw [hl]
    exact h.imp_right fun hq => ⟨rfl, hq⟩
  · rw [hl]
    exact .inl hf

theorem run_calls_succ {σ : Type} {fetch : Request → StateM σ Outcome} {call : Call} {st st' : σ}
    (hcall : (s.nextPage fetch).run st = (call, st')) (n : ℕ) :
    (calls fetch (n + 1) s).run st =
      (call :: ((calls fetch n call.session).run st').1,
        ((calls fetch n call.session).run st').2) := by
  have hcall' : (s.nextPage fetch).run st = (pure (call, st') : Id _) := hcall
  rw [calls, StateT.run_bind, hcall', pure_bind]
  rfl

/-- The last call asks nobody. -/
theorem run_calls_lastCall {σ : Type} (fetch : Request → StateM σ Outcome) (s : Session) (st : σ) :
    (calls fetch s.lastCall.length s).run st = (s.lastCall.map Turn.call, st) := by
  unfold lastCall
  cases ho : s.traversal.opening s.round with
  | refused => rfl
  | asking leaves q => rfl
  | closing =>
    exact run_calls_succ (run_nextPage_of_closing ho fun _ => .error Failure.sessionOver) 0

/-- A course is what calls come to with a service that takes its outcomes from a script: each
request uses up one of them, and is kept. -/
theorem run_calls_script (s : Session) (w : List Outcome) (asked : List Request) :
    (calls Script.fetch (s.course w).length s).run ⟨w, asked⟩ =
      ((s.course w).map Turn.call,
        ⟨w.drop ((s.course w).filterMap Turn.request).length,
          asked ++ (s.course w).filterMap Turn.request⟩) := by
  induction w generalizing s asked with
  | nil => rw [course, run_calls_lastCall, request_lastCall, List.append_nil, List.drop_nil]
  | cons o rest ih =>
    cases hq : s.request? with
    | none =>
      -- the outcomes that are left stay in the script
      rw [course_of_no_request hq, run_calls_lastCall, request_lastCall, List.append_nil]
      rfl
    | some q =>
      have hreq : (s.turn fun _ => o).request = some q := hq
      rw [course_of_asking hq, List.length_cons,
        run_calls_succ (run_nextPage_script hq o rest asked), ih, List.filterMap_cons_some hreq,
        List.append_assoc]
      rfl

/-- A course ends with the session finished, or all outcomes are used up and the session
asks for something. -/
theorem course_maximal (s : Session) (w : List Outcome) :
    (s.afterTurns (s.course w)).isFinished = true ∨
      (s.course w).length = w.length ∧ ∃ q, (s.afterTurns (s.course w)).request? = some q := by
  induction w generalizing s with
  | nil =>
    refine s.afterTurns_lastCall.imp_right fun ⟨hl, hq⟩ => ?_
    rw [course, hl]
    exact ⟨rfl, hq⟩
  | cons o rest ih =>
    cases hq : s.request? with
    | none =>
      rw [course_of_no_request hq]
      refine .inl (s.afterTurns_lastCall.resolve_right fun ⟨_, q, hq'⟩ => ?_)
      rw [hq] at hq'
      cases hq'
    | some q =>
      rw [course_of_asking hq]
      simpa using ih (s.turn fun _ => o).call.session

/-- The first call of a course takes the first outcome, or it is the last call of all. -/
theorem course_eq_cons {u : Turn} {vs : List Turn} (h : s.course w = u :: vs) :
    (∃ q o rest, s.request? = some q ∧ w = o :: rest ∧ u = s.turn (fun _ => o) ∧
        vs = u.call.session.course rest) ∨
      (s.request? = none ∧ vs = [] ∧ u.madePage = true) := by
  cases hq : s.request? with
  | none =>
    right
    rw [course_of_no_request hq] at h
    rcases lastCall_cases s with ⟨hl, -⟩ | ⟨u', page, hl, -, hres, -⟩
    · simp [hl] at h
    · rw [hl, List.cons.injEq] at h
      obtain ⟨rfl, rfl⟩ := h
      exact ⟨rfl, rfl, Turn.madePage_of_ok hres⟩
  | some q =>
    left
    cases w with
    | nil =>
      rw [course, lastCall_of_asking hq] at h
      cases h
    | cons o rest =>
      rw [course_of_asking hq, List.cons.injEq] at h
      obtain ⟨rfl, rfl⟩ := h
      exact ⟨q, o, rest, rfl, rfl, rfl, rfl⟩

/-- The first call of a course makes the request that the session is about to make. -/
theorem request_of_head {v : Turn} (hq : s.request? = some q) (h : v ∈ (s.course w).head?) :
    v.request = some q := by
  obtain ⟨vs, hvs⟩ := List.head?_eq_some_iff.1 h
  rcases course_eq_cons hvs with ⟨-, o, -, -, -, rfl, -⟩ | ⟨hno, -, -⟩
  · exact hq
  · rw [hq] at hno
    cases hno

/-- A course whose first call fails has used up a failing outcome and goes on with the same
session, which makes the same request. -/
theorem course_eq_cons_of_error {u : Turn} {vs : List Turn} (h : s.course w = u :: vs)
    (he : u.call.result = .error e) :
    (∃ o ∈ w.head?, o.failure? = some e) ∧ u.call.session = s ∧
      ∃ q, u.request = some q ∧ ∀ v ∈ vs.head?, v.request = some q := by
  rcases course_eq_cons h with ⟨q, o, rest, hq, rfl, rfl, rfl⟩ | ⟨-, -, hmade⟩
  · cases hf : o.failure? with
    | none =>
      obtain ⟨page, hres⟩ := turn_of_success hq hf
      rw [hres] at he
      cases he
    | some e' =>
      obtain ⟨hreq, hres, hsess⟩ := turn_of_failure hq hf
      rw [hres, Except.error.injEq] at he
      rw [hsess]
      exact ⟨⟨o, rfl, by rw [hf, he]⟩, rfl, q, hreq, fun v hv => request_of_head hq hv⟩
  · rw [Turn.madePage_of_error he] at hmade
    cases hmade

/-- A failed call of a course, wherever it stands: it fails with the failure of its outcome,
leaves the session as it was, and the next call makes its request again. -/
theorem failed_call_of_course {us vs : List Turn} {u : Turn} (h : s.course w = us ++ u :: vs)
    (he : u.call.result = .error e) :
    w[us.length]?.bind Outcome.failure? = some e ∧ u.call.session = s.afterTurns us ∧
      ∃ q, u.request = some q ∧ ∀ v ∈ vs.head?, v.request = some q := by
  induction us generalizing s w with
  | nil =>
    obtain ⟨⟨o, ho, hf⟩, hsess, hnext⟩ := course_eq_cons_of_error h he
    rw [List.head?_eq_getElem?] at ho
    exact ⟨Option.bind_eq_some_iff.2 ⟨o, ho, hf⟩, hsess, hnext⟩
  | cons u' us ih =>
    rcases course_eq_cons h with ⟨q, o, rest, -, rfl, rfl, hrest⟩ | ⟨-, hnil, -⟩
    · simpa using ih hrest.symm
    · simp at hnil

/-- Without the failing outcomes the course is the same, less the calls that failed, and it
comes to the same session. -/
theorem course_filter (s : Session) (w : List Outcome) :
    s.course (w.filter Outcome.succeeds) = (s.course w).filter Turn.madePage ∧
      s.afterTurns (s.course (w.filter Outcome.succeeds)) = s.afterTurns (s.course w) := by
  induction w generalizing s with
  | nil => exact ⟨(filter_lastCall s).symm, rfl⟩
  | cons o rest ih =>
    cases hq : s.request? with
    | none =>
      rw [course_of_no_request hq, course_of_no_request hq]
      exact ⟨(filter_lastCall s).symm, rfl⟩
    | some q =>
      rw [course_of_asking hq]
      cases hf : o.failure? with
      | some e =>
        -- the outcome is dropped, and so is the call
        obtain ⟨-, hres, hsess⟩ := turn_of_failure hq hf
        have hdrop : (o :: rest).filter Outcome.succeeds = rest.filter Outcome.succeeds := by
          simp [Outcome.succeeds, hf]
        rw [hdrop, List.filter_cons_of_neg (by simp [Turn.madePage_of_error hres]), afterTurns_cons,
          hsess]
        exact ih s
      | none =>
        obtain ⟨page, hres⟩ := turn_of_success hq hf
        have hkeep : (o :: rest).filter Outcome.succeeds = o :: rest.filter Outcome.succeeds := by
          simp [Outcome.succeeds, hf]
        obtain ⟨hcourse, hlast⟩ := ih (s.turn fun _ => o).call.session
        rw [hkeep, course_of_asking hq, List.filter_cons_of_pos (Turn.madePage_of_ok hres),
          afterTurns_cons, afterTurns_cons, hcourse]
        exact ⟨rfl, hcourse ▸ hlast⟩

/-- Failed calls leave no trace. The course of a session over any outcomes goes on until the
session is finished or asks for something when all outcomes are used up. A call in it that
fails does so with the failure of its outcome, leaves the session as it was, and the next
call makes the same request. The calls that make a page, and the session in the end, are
those of the course without the failing outcomes. -/
theorem failed_calls_invisible (s : Session) (w : List Outcome) :
    ((s.afterTurns (s.course w)).isFinished = true ∨
      (s.course w).length = w.length ∧ ∃ q, (s.afterTurns (s.course w)).request? = some q) ∧
    (∀ us u vs e, s.course w = us ++ u :: vs → u.call.result = .error e →
      w[us.length]?.bind Outcome.failure? = some e ∧ u.call.session = s.afterTurns us ∧
        ∃ q, u.request = some q ∧ ∀ v ∈ vs.head?, v.request = some q) ∧
    (s.course w).filter Turn.madePage = s.course (w.filter Outcome.succeeds) ∧
    s.afterTurns (s.course w) = s.afterTurns (s.course (w.filter Outcome.succeeds)) := by
  obtain ⟨hcourse, hlast⟩ := course_filter s w
  exact ⟨course_maximal s w, fun us u vs e h he => failed_call_of_course h he, hcourse.symm,
    hlast.symm⟩

end Session

end ForestPager
