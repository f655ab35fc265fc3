import ForestPager.Proofs.Attempts
import ForestPager.Proofs.Replay

/-!
# Excluding is withholding

The cursors of an excluded sub-query stay in the round, in the last answer and in the one
before, and are passed over wherever cursors are used. A run that excludes some sub-queries
is the run that excludes none, of a service that never gives their cursors: the rounds of
the one, with the excluded cursors left out, are the rounds of the other. Only the end may
differ. Where nothing but excluded cursors is left, the first run makes one more page,
without a request and without items.

Results:

* `Traversal.opening_withheld`: both rounds come to the same, or one of them ends the run
  when the other has ended it.
* `Session.turn_withheld`: a call, step by step.
* `Session.alike_course`: all calls of a run over some outcomes.
* `endingOf_withheld`: what is gathered.
* `excluding_eq_withholding`: both together, from the start of a run.
-/

namespace ForestPager

/-- A reply less the cursors that are empty, those of ids outside the query and those of
some ids of the query. -/
def Reply.withheld (shape : Shape) (excluded : IdSet) (reply : Reply) : Reply where
  items := reply.items
  nextCursors := reply.nextCursors.filterMap fun x c =>
    if shape.contains x && !excluded.contains x then c.map some else none

/-- An outcome of a service that withholds some cursors. -/
def Outcome.withheld (shape : Shape) (excluded : IdSet) (o : Outcome) : Outcome :=
  o.map (Reply.withheld shape excluded)

/-! ## Rounds -/

namespace Round

variable {r : Round} {x : QueryId} {f : Forest} {within : QueryId → Bool}

/-- The round without the cursors of its excluded ids. -/
def withheld (r : Round) : Round where
  isNew := r.isNew
  cursors := r.cursors.filterKeys fun x => !r.isExcluded x
  earlier := r.earlier.filterKeys fun x => !r.isExcluded x

@[simp] theorem get?_cursors_withheld (r : Round) (x : QueryId) :
    r.withheld.cursors.get? x = if r.isExcluded x then none else r.cursors.get? x := by
  unfold withheld
  rw [OrderedMap.get?_filterKeys]
  cases r.isExcluded x <;> rfl

@[simp] theorem isEligible_withheld (r : Round) : r.withheld.isEligible = r.isEligible := by
  funext x
  show (!false && r.withheld.cursors.contains x) = (!r.isExcluded x && r.cursors.contains x)
  rw [OrderedMap.contains, get?_cursors_withheld]
  cases r.isExcluded x <;> rfl

@[simp] theorem leaves_withheld (r : Round) (f : Forest) (within : QueryId → Bool) :
    r.withheld.leaves f within = r.leaves f within := by
  unfold leaves
  rw [isEligible_withheld]

@[simp] theorem replayCursor_withheld (r : Round) (x : QueryId) :
    r.withheld.replayCursor x = r.replayCursor x := by
  show (r.withheld.earlier.get? x).join = _
  unfold replayCursor withheld
  rw [OrderedMap.get?_filterKeys]
  cases r.isExcluded x <;> rfl

/-- The leaves of a round are not excluded, so their cursors are not withheld. -/
theorem cursor_withheld_of_mem_leaves (h : x ∈ r.leaves f within) :
    r.withheld.cursors.get? x = r.cursors.get? x := by
  rw [get?_cursors_withheld, ((isEligible_iff r x).1 (isEligible_of_mem_leaves h)).1]
  rfl

/-- Taking in an answer and then withholding is withholding the answer. -/
theorem advance_withheld (r : Round) (shape : Shape) (reply : Reply) :
    (r.advance reply.nextCursors shape.contains).withheld =
      r.withheld.advance (reply.withheld shape r.excluded).nextCursors shape.contains := by
  have hcursors :
      (r.advance reply.nextCursors shape.contains).cursors.filterKeys (fun x => !r.isExcluded x) =
        (reply.withheld shape r.excluded).nextCursors.filterMap fun x c =>
          if shape.contains x then c.map some else none := by
    unfold advance Reply.withheld OrderedMap.filterKeys isExcluded
    rw [OrderedMap.filterMap_filterMap, OrderedMap.filterMap_filterMap]
    congr 1
    funext x c
    beta_reduce
    cases shape.contains x <;> cases r.excluded.contains x <;> cases c <;> rfl
  exact congrArg (fun cursors => Round.mk false cursors r.withheld.cursors ∅) hcursors

theorem finished_withheld (hf : r.finished = true) : r.withheld.finished = true := by
  unfold finished OrderedMap.isEmpty at hf ⊢
  rw [Bool.and_eq_true, List.isEmpty_iff] at hf
  show (!r.isNew && (List.filterMap _ r.cursors.entries).isEmpty) = true
  rw [hf.2, hf.1]
  rfl

/-- A round of which nothing is left when its excluded cursors are withheld has no leaves. -/
theorem leaves_of_finished_withheld (hf : r.withheld.finished = true) :
    r.leaves f within = [] := by
  refine List.eq_nil_iff_forall_not_mem.2 fun x hx => ?_
  rw [← leaves_withheld] at hx
  have hkey := ((isEligible_iff _ x).1 (isEligible_of_mem_leaves hx)).2
  unfold finished OrderedMap.isEmpty at hf
  rw [Bool.and_eq_true, List.isEmpty_iff] at hf
  unfold OrderedMap.keys at hkey
  rw [hf.2] at hkey
  cases hkey

end Round

/-! ## Openings -/

namespace Traversal

/-- The request that advances the leaves of a round uses none of the cursors that are
withheld. -/
theorem advancing_withheld (t : Traversal) (r : Round) :
    Request.advancing t.forest t.shape r.withheld (r.leaves t.forest t.within) =
      Request.advancing t.forest t.shape r (r.leaves t.forest t.within) := by
  have hleaf : ∀ l ∈ r.leaves t.forest t.within,
      Request.leafCursors t.forest r.withheld l = Request.leafCursors t.forest r l := by
    intro l hl
    unfold Request.leafCursors
    simp only [Round.cursor_withheld_of_mem_leaves hl, Round.replayCursor_withheld]
  unfold Request.advancing Request.assignedCursors
  rw [List.flatMap_congr hleaf]

/-- A round and the same round less its excluded cursors come to the same, or else the first
ends the run where the second has ended. -/
theorem opening_withheld (t : Traversal) (r : Round) :
    t.opening r.withheld = t.opening r ∨
      t.opening r = .closing ∧ t.opening r.withheld = .refused := by
  by_cases hn : r.isNew = true
  · left
    have hf : r.finished = false := by simp [Round.finished, hn]
    have hf' : r.withheld.finished = false := by simp [Round.finished, Round.withheld, hn]
    have hn' : r.withheld.isNew = true := hn
    simp [opening, hf, hf', hn, hn']
  rw [Bool.not_eq_true] at hn
  have hn' : r.withheld.isNew = false := hn
  cases hf' : r.withheld.finished with
  | true =>
    have hrefused := (t.opening_eq_refused_iff _).2 hf'
    cases hf : r.finished with
    | true => exact .inl (hrefused.trans ((t.opening_eq_refused_iff r).2 hf).symm)
    | false =>
      -- all cursors that are left are excluded
      exact .inr ⟨opening_of_no_leaves hn hf (Round.leaves_of_finished_withheld hf'), hrefused⟩
  | false =>
    left
    have hf : r.finished = false := by
      rw [← Bool.not_eq_true]
      intro hf
      simp [Round.finished_withheld hf] at hf'
    by_cases hl : r.leaves t.forest t.within = []
    · have hl' : r.withheld.leaves t.forest t.within = [] := by rw [Round.leaves_withheld, hl]
      rw [opening_of_no_leaves hn hf hl, opening_of_no_leaves hn' hf' hl']
    · have hl' : r.withheld.leaves t.forest t.within ≠ [] := by rwa [Round.leaves_withheld]
      rw [opening_of_leaves hn hf hl, opening_of_leaves hn' hf' hl', Round.leaves_withheld,
        advancing_withheld]

end Traversal

/-! ## Calls -/

/-- What the caller and the service see of a call: its request, the items and the leaves of
its page. -/
def Turn.content (u : Turn) : Option Request × Except Failure (Items × List QueryId) :=
  (u.request, u.call.result.map fun page => (page.items, page.leaves))

/-- What is seen of a call that ends a run without a request. -/
def Turn.emptyContent : Option Request × Except Failure (Items × List QueryId) :=
  (none, .ok (∅, []))

namespace Session

variable {s s' : Session} {q : Request} {us us' : List Turn} {u u' : Turn}

/-- The session without the cursors of its excluded ids. -/
def withheld (s : Session) : Session := { s with round := s.round.withheld }

/-- An outcome for a session less the cursors that the session would not follow. -/
def cut (s : Session) (o : Outcome) : Outcome := o.withheld s.traversal.shape s.round.excluded

theorem failure?_cut (s : Session) (o : Outcome) : (s.cut o).failure? = o.failure? := by
  cases o <;> rfl

theorem proceed_withheld (s : Session) (reply : Reply) :
    (s.proceed reply).withheld =
      s.withheld.proceed (reply.withheld s.traversal.shape s.round.excluded) :=
  congrArg (fun r => Session.mk s.traversal r (s.roundsRun + 1))
    (s.round.advance_withheld s.traversal.shape reply)

/-- A call with the excluded cursors withheld looks the same, and so does the session that
it comes to. -/
theorem turn_withheld {leaves : List QueryId} (h : s.traversal.opening s.round = .asking leaves q)
    (h' : s.withheld.traversal.opening s.withheld.round = .asking leaves q) (o : Outcome) :
    (s.withheld.turn fun _ => s.cut o).content = (s.turn fun _ => o).content ∧
      (s.withheld.turn fun _ => s.cut o).call.session =
        (s.turn fun _ => o).call.session.withheld := by
  unfold Turn.content
  cases hf : o.failure? with
  | some e =>
    have hf' : (s.cut o).failure? = some e := by rw [failure?_cut, hf]
    obtain ⟨hreq, hres, hsess⟩ := turn_of_failure (request?_of_asking h) hf
    obtain ⟨hreq', hres', hsess'⟩ := turn_of_failure (request?_of_asking h') hf'
    rw [hreq, hres, hsess, hreq', hres', hsess']
    exact ⟨rfl, rfl⟩
  | none =>
    obtain ⟨reply, items, rfl, hi⟩ := Outcome.failure?_eq_none_iff.1 hf
    obtain ⟨hreq, hsess, hres⟩ := @turn_of_reply s (fun _ => .ok reply) _ _ _ _ h rfl hi
    obtain ⟨hreq', hsess', hres'⟩ := @turn_of_reply _ (fun _ => s.cut (.ok reply)) _ _
      (reply.withheld s.traversal.shape s.round.excluded) _ h' rfl hi
    rw [hreq, hres, hsess, hreq', hres', hsess', proceed_withheld]
    exact ⟨rfl, rfl⟩

/-! ## Runs over the same outcomes -/

/-- The calls of two sessions look alike, up to a last call of the first session that makes
no request and an empty page, and both sessions are finished after them or both are not. -/
structure Alike (s s' : Session) (us us' : List Turn) : Prop where
  content : (us.map Turn.content = us'.map Turn.content ∧
      (s.afterTurns us).roundsRun = (s'.afterTurns us').roundsRun) ∨
    (us.map Turn.content = us'.map Turn.content ++ [Turn.emptyContent] ∧
      (s.afterTurns us).roundsRun = (s'.afterTurns us').roundsRun + 1)
  finished : (s.afterTurns us).isFinished = (s'.afterTurns us').isFinished

theorem Alike.cons (hc : u'.content = u.content) (h : Alike u.call.session u'.call.session us us') :
    Alike s s' (u :: us) (u' :: us') := by
  refine ⟨?_, h.finished⟩
  rw [List.map_cons, List.map_cons, hc, List.cons_append, List.cons_inj_right, List.cons_inj_right]
  exact h.content

/-- With its excluded cursors withheld a session asks for the same. -/
theorem request?_withheld (s : Session) : s.withheld.request? = s.request? := by
  have hopening : s.withheld.traversal.opening s.withheld.round =
      s.traversal.opening s.round.withheld := rfl
  unfold request?
  rw [hopening]
  rcases s.traversal.opening_withheld s.round with heq | ⟨hc, hr⟩
  · rw [heq]
  · rw [hc, hr]

/-- A session that asks for something does so with its excluded cursors withheld, too. -/
theorem asking_withheld (h : s.request? = some q) :
    ∃ leaves, s.traversal.opening s.round = .asking leaves q ∧
      s.withheld.traversal.opening s.withheld.round = .asking leaves q := by
  obtain ⟨leaves, ho⟩ := exists_asking h
  rcases s.traversal.opening_withheld s.round with heq | ⟨hc, -⟩
  · exact ⟨leaves, ho, heq.trans ho⟩
  · rw [ho] at hc
    cases hc

theorem cut_turn (s : Session) (answer : Request → Outcome) :
    (s.turn answer).call.session.cut = s.cut := by
  unfold cut
  rw [turn_traversal, turn_excluded]

theorem content_of_closing (h : s.traversal.opening s.round = .closing)
    (answer : Request → Outcome) : (s.turn answer).content = Turn.emptyContent := by
  obtain ⟨hreq, -, hres⟩ := @turn_of_closing s answer h
  unfold Turn.content
  rw [hreq, hres]
  rfl

theorem alike_lastCall (s : Session) : Alike s s.withheld s.lastCall s.withheld.lastCall := by
  rcases s.traversal.opening_withheld s.round with heq | ⟨hc, hr⟩
  · have heq' : s.withheld.traversal.opening s.withheld.round = s.traversal.opening s.round := heq
    have hfin : s.isFinished = s.withheld.isFinished := by
      rw [Bool.eq_iff_iff, isFinished_iff_refused, isFinished_iff_refused, heq']
    unfold lastCall
    rw [heq']
    cases hc : s.traversal.opening s.round with
    | refused => exact ⟨.inl ⟨rfl, rfl⟩, hfin⟩
    | asking leaves q => exact ⟨.inl ⟨rfl, rfl⟩, hfin⟩
    | closing =>
      have hc' := heq'.trans hc
      refine Alike.cons ((content_of_closing hc' _).trans (content_of_closing hc _).symm) ?_
      rw [(turn_of_closing hc).2.1, (turn_of_closing hc').2.1]
      exact ⟨.inl ⟨rfl, rfl⟩, rfl⟩
  · -- nothing but excluded cursors is left
    have hr' : s.withheld.traversal.opening s.withheld.round = .refused := hr
    unfold lastCall
    rw [hc, hr']
    refine ⟨.inr ⟨congrArg (fun c => [c]) (content_of_closing hc _), ?_⟩, ?_⟩
    · show (s.turn _).call.session.roundsRun = s.roundsRun + 1
      rw [(turn_of_closing hc).2.1]
      rfl
    · show (s.turn _).call.session.isFinished = s.withheld.isFinished
      rw [(turn_of_closing hc).2.1, (isFinished_iff_refused _).2 hr']
      rfl

/-- The calls of a run look like those of the run over the same outcomes without the
excluded cursors. -/
theorem alike_course (s : Session) (w : List Outcome) :
    Alike s s.withheld (s.course w) (s.withheld.course (w.map s.cut)) := by
  induction w generalizing s with
  | nil => exact alike_lastCall s
  | cons o rest ih =>
    cases hq : s.request? with
    | none =>
      rw [course_of_no_request hq, course_of_no_request (s.request?_withheld.trans hq)]
      exact alike_lastCall s
    | some q =>
      obtain ⟨leaves, ho, ho'⟩ := asking_withheld hq
      obtain ⟨hcontent, hsess⟩ := turn_withheld ho ho' o
      rw [course_of_asking hq, List.map_cons, course_of_asking (s.request?_withheld.trans hq)]
      refine Alike.cons hcontent ?_
      rw [hsess, ← s.cut_turn fun _ => o]
      exact ih _

end Session

/-! ## Gathering from the same outcomes -/

/-- A service that answers with given outcomes, one after the other; its state is the number
of requests so far. -/
def serving (outcomes : ℕ → Outcome) (_ : Request) : StateM ℕ Outcome :=
  fun n => (outcomes n, n + 1)

section Gathering

variable {κ : Type} [DecidableEq κ] (key : Option (Json → Except Failure κ))
  (outcomes : ℕ → Outcome) {s : Session} {met : KeysMet κ}

/-- How gathering from given outcomes ends, with a number of calls and after a number of
requests. -/
def endingOf (calls : ℕ) (s : Session) (met : KeysMet κ) (asked : ℕ) : Ending :=
  ((gather (serving outcomes) key none calls s met).run asked).1.ending

theorem endingOf_of_finished (h : s.isFinished = true) (n asked : ℕ) :
    endingOf key outcomes n s met asked = .complete ∅ := by
  unfold endingOf
  rw [gather_of_finished _ _ _ _ h]
  rfl

theorem endingOf_zero (h : s.isFinished = false) (asked : ℕ) :
    endingOf key outcomes 0 s met asked = .unfinished := by
  unfold endingOf gather
  rw [if_neg (by simp [h])]
  rfl

/-- A session that asks for nothing more ends with at most one call, and nothing is gathered
in it. -/
theorem endingOf_of_no_request (h : s.request? = none) (n asked : ℕ) :
    endingOf key outcomes (n + 1) s met asked = .complete ∅ := by
  cases ho : s.traversal.opening s.round with
  | refused => exact endingOf_of_finished key outcomes ((s.isFinished_iff_refused).2 ho) _ asked
  | asking leaves q =>
    rw [Session.request?_of_asking ho] at h
    cases h
  | closing =>
    obtain ⟨-, hsess, hres⟩ := @Session.turn_of_closing s (fun _ => .error Failure.sessionOver) ho
    have hkeep : gatherPage key met ∅ = .ok (met, ∅) := by cases key <;> rfl
    have hrest : endingOf key outcomes n s.ended met asked = .complete ∅ :=
      endingOf_of_finished key outcomes rfl n asked
    unfold endingOf at hrest ⊢
    rw [run_gather_succ (s.isFinished_eq_false_iff.2 (by simp [ho]))
      (Session.run_nextPage_of_closing ho _) hres hkeep, hsess, hrest]
    rfl

/-- What is gathered in a call that asks for something is decided by what is seen of it. -/
theorem endingOf_of_asking {leaves : List QueryId} {q : Request}
    (h : s.traversal.opening s.round = .asking leaves q) (n asked : ℕ) :
    endingOf key outcomes (n + 1) s met asked =
      match (s.turn fun _ => outcomes asked).content.2 with
      | .error failure => .failed failure
      | .ok (items, _) =>
        match gatherPage key met items with
        | .error failure => .failed failure
        | .ok (met, items) =>
          (endingOf key outcomes n (s.turn fun _ => outcomes asked).call.session met
            (asked + 1)).after items := by
  have hcall : (s.nextPage (serving outcomes)).run asked =
      ((s.turn fun _ => outcomes asked).call, asked + 1) := Session.run_nextPage_of_asking h
  unfold endingOf Turn.content
  rw [run_gather_call (Session.isFinished_of_asking h) hcall]
  cases (s.turn fun _ => outcomes asked).call.result <;> rfl

/-- With the excluded cursors withheld gathering ends in the same way, with as many calls or
with one less. -/
theorem endingOf_withheld (n : ℕ) (s : Session) (met : KeysMet κ) (asked : ℕ) :
    endingOf key outcomes n s met asked =
        endingOf key (fun k => s.cut (outcomes k)) n s.withheld met asked ∨
      endingOf key outcomes n s met asked = .unfinished ∧
        endingOf key outcomes (n + 1) s met asked =
          endingOf key (fun k => s.cut (outcomes k)) n s.withheld met asked := by
  induction n generalizing s met asked with
  | zero =>
    cases hf' : s.withheld.isFinished with
    | false =>
      left
      have hf : s.isFinished = false := by
        rw [← Bool.not_eq_true]
        intro hf
        have hwithheld : s.withheld.isFinished = true := Round.finished_withheld hf
        simp [hwithheld] at hf'
      rw [endingOf_zero _ _ hf, endingOf_zero _ _ hf']
    | true =>
      rw [endingOf_of_finished _ _ hf']
      cases hf : s.isFinished with
      | true => exact .inl (endingOf_of_finished _ _ hf _ _)
      | false =>
        -- the session that holds excluded cursors still has its empty last call to make
        have hq : s.request? = none :=
          s.request?_withheld.symm.trans (Session.request?_of_finished hf')
        exact .inr ⟨endingOf_zero _ _ hf _, endingOf_of_no_request _ _ hq _ _⟩
  | succ n ih =>
    cases hq : s.request? with
    | none =>
      left
      rw [endingOf_of_no_request _ _ hq, endingOf_of_no_request _ _ (s.request?_withheld.trans hq)]
    | some q =>
      obtain ⟨leaves, ho, ho'⟩ := Session.asking_withheld hq
      obtain ⟨hcontent, hsess⟩ := Session.turn_withheld ho ho' (outcomes asked)
      rw [endingOf_of_asking _ _ ho, endingOf_of_asking _ _ ho, endingOf_of_asking _ _ ho',
        hcontent, hsess]
      cases (s.turn fun _ => outcomes asked).content.2 with
      | error failure => exact .inl rfl
      | ok seen =>
        cases hkeep : gatherPage key met seen.1 with
        | error failure => simp only [hkeep, true_or]
        | ok kept =>
          have hrest := ih (s.turn fun _ => outcomes asked).call.session kept.1 (asked + 1)
          rw [Session.cut_turn] at hrest
          simp only [hkeep]
          rcases hrest with heq | ⟨hmore, heq⟩
          · exact .inl (congrArg (Ending.after kept.2) heq)
          · exact .inr ⟨congrArg (Ending.after kept.2) hmore, congrArg (Ending.after kept.2) heq⟩

end Gathering

/-- Excluding some sub-queries and never being given their cursors come to the same. Over the
same outcomes, the calls of the run that excludes them and those of the run that excludes
nothing have the same requests, items and leaves, and both runs are finished after them or
both are not; the first run may have one more call, at the end, without a request and
without items. Gathering all items ends in the same way. -/
theorem excluding_eq_withholding {shape : Shape} {t : Traversal}
    (ht : Traversal.ofShape shape = .ok t) (excluded : IdSet) :
    (∀ w : List Outcome,
      (Session.start t excluded).Alike (Session.start t ∅) ((Session.start t excluded).course w)
        ((Session.start t ∅).course (w.map (Outcome.withheld shape excluded)))) ∧
    ∀ (outcomes : ℕ → Outcome) (κ : Type) [DecidableEq κ] (key : Option (Json → Except Failure κ))
      (ending : Ending),
      Gathers shape excluded (serving outcomes) key none 0 ending ↔
        Gathers shape ∅ (serving fun n => (outcomes n).withheld shape excluded) key none 0
          ending := by
  obtain ⟨-, rfl⟩ := Traversal.own_of_ofShape ht
  refine ⟨fun w => (Session.start t excluded).alike_course w, ?_⟩
  intro outcomes κ _ key ending
  unfold Gathers
  refine and_congr_right fun hending => ?_
  simp only [run_gatherAll ht]
  have hends := fun n => endingOf_withheld key outcomes n (Session.start t excluded) ∅ 0
  constructor
  · rintro ⟨n, hn⟩
    rcases hends n with heq | ⟨hmore, -⟩
    · exact ⟨n, heq.symm.trans hn⟩
    · exact absurd (hn.symm.trans hmore) hending
  · rintro ⟨n, hn⟩
    rcases hends n with heq | ⟨-, heq⟩
    · exact ⟨n, heq.trans hn⟩
    · exact ⟨n + 1, heq.trans hn⟩

/-- Two answers of which the first one has a cursor for each sub-query of `twoLevels` and the
second one for the upper sub-query only. -/
def upperStaysOpen : List Outcome :=
  [.ok { nextCursors := .ofList [("A", some (.ofText "1")), ("B", some (.ofText "1"))] },
    .ok { nextCursors := .ofList [("A", some (.ofText "1"))] }]

/-- Without the upper sub-query of `twoLevels` the run over these answers has a third call, in
which nothing is asked for. -/
theorem excluding_eq_withholding_twoLevels :
    ((Session.start twoLevels (.ofList ["A"])).course upperStaysOpen).length = 3 ∧
      ((Session.start twoLevels ∅).course
        (upperStaysOpen.map (Outcome.withheld twoLevels.shape (.ofList ["A"])))).length = 2 ∧
      (Session.start twoLevels (.ofList ["A"])).Alike (Session.start twoLevels ∅)
        ((Session.start twoLevels (.ofList ["A"])).course upperStaysOpen)
        ((Session.start twoLevels ∅).course
          (upperStaysOpen.map (Outcome.withheld twoLevels.shape (.ofList ["A"])))) :=
  ⟨by decide +kernel, by decide +kernel,
    (excluding_eq_withholding ofShape_twoLevels (.ofList ["A"])).1 upperStaysOpen⟩

end ForestPager
