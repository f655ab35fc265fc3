import ForestPager.Proofs.Provenance

/-!
# No cursor is abandoned

A cursor that came with the last answer waits in the round until its turn comes. Only the
deepest cursors of a branch are followed at once, but whatever waits is asked for again with
them, so it will be answered again; and a run is ended only when nothing waits but what is
excluded. A session that is finished has therefore followed everything that the last reply
offered and that may be followed.

Results:

* `Session.holds_after`: a round holds cursors of ids of the query, and none that is empty.
* `Traversal.Own.served_of_held`: a cursor that is held is followed, or one below it is.
* `Session.ends_iff`: when a call ends the run without a request.
* `Session.keeps_after`: what the last reply offered is held or excluded.
* `no_cursor_abandoned`: all of it, at every point of a run.
-/

namespace ForestPager

/-! ## What a round holds -/

/-- The cursors of a round are for ids of the query, and none of them is empty. -/
def Round.Holds (r : Round) (within : QueryId → Bool) : Prop :=
  ∀ x v, r.cursors.get? x = some v → within x = true ∧ ∃ c, v = some c

theorem Round.holds_advance (r : Round) (returned : NextCursors) (within : QueryId → Bool) :
    (r.advance returned within).Holds within := by
  intro x v hv
  rw [get?_advance] at hv
  split at hv
  · next hx =>
    obtain ⟨c, -, rfl⟩ := Option.map_eq_some_iff.1 hv
    exact ⟨hx, c, rfl⟩
  · cases hv

/-- Where nothing is held there is nothing to say. -/
theorem Round.holds_of_cursors_eq_empty {r : Round} (h : r.cursors = ∅)
    (within : QueryId → Bool) : r.Holds within := by
  intro x v hv
  rw [h, OrderedMap.get?_empty] at hv
  cases hv

/-- Every round of a run holds cursors of ids of the query. -/
theorem Session.holds_after (t : Traversal) (excluded : IdSet)
    (answers : List (Request → Outcome)) :
    ((start t excluded).after answers).round.Holds t.within := by
  have hrun : ((start t excluded).after answers).round.Holds
      ((start t excluded).after answers).traversal.within := by
    refine after_induction (P := fun s => s.round.Holds s.traversal.within) ?_
      (Round.holds_of_cursors_eq_empty rfl _) answers
    intro s answer hs
    rw [turn_traversal]
    rcases session_turn_cases s answer with h | h | ⟨reply, h⟩
    · rwa [h]
    · rw [h]
      exact Round.holds_of_cursors_eq_empty rfl _
    · rw [h]
      exact s.round.holds_advance _ _
  rwa [after_traversal] at hrun

/-! ## What the next request does for it -/

namespace Traversal.Own

variable {t : Traversal} {r : Round} {x : QueryId} {c : Cursor}

/-- A cursor that is held and not excluded is followed by the next request, or else the
request follows one below it; in either case it asks for the id. -/
theorem served_of_held (ht : t.Own) (hn : r.isNew = false) (hx : x ∈ t.forest.ids)
    (hc : r.cursors.get? x = some (some c)) (hex : r.isExcluded x = false) :
    ∃ leaves q, t.opening r = .asking leaves q ∧ x ∈ q.ids ∧
      ((x ∈ leaves ∧ q.cursors.get? x = some c) ∨ ∃ l ∈ leaves, l ∈ t.forest.descendants x) := by
  have heligible : r.isEligible x = true :=
    (r.isEligible_iff x).2 ⟨hex, (OrderedMap.mem_keys_iff _ x).2 ⟨_, hc⟩⟩
  obtain ⟨l, hl, hlx⟩ := ht.exists_leaf hx heligible
  have hf : r.finished = false :=
    Round.finished_eq_false_of_mem ((OrderedMap.mem_keys_iff _ x).2 ⟨_, hc⟩)
  refine ⟨_, _, opening_of_leaves hn hf (List.ne_nil_of_mem hl), ?_, ?_⟩
  · rw [Request.mem_ids_iff]
    rcases hlx with rfl | hlx
    · exact ⟨_, ht.submitted?_leaf hl⟩
    · exact ⟨_, ht.submitted?_above hl hlx⟩
  · rcases hlx with rfl | hlx
    · left
      refine ⟨hl, ?_⟩
      rw [Request.get?_cursors, ht.submitted?_leaf hl, hc]
      rfl
    · exact .inr ⟨l, hl, ht.sound.mem_descendants.2 hlx⟩

/-- A run has no leaf left exactly if all that the round holds is excluded. -/
theorem leaves_eq_nil_iff_excluded (ht : t.Own) (hr : r.Holds t.within) :
    r.leaves t.forest t.within = [] ↔ ∀ x ∈ r.cursors.keys, r.isExcluded x = true := by
  rw [ht.leaves_eq_nil_iff]
  constructor
  · intro h x hx
    obtain ⟨v, hv⟩ := (OrderedMap.mem_keys_iff _ x).1 hx
    have hno := h x (ht.within_iff.1 (hr x v hv).1)
    by_contra hex
    rw [Bool.not_eq_true] at hex
    rw [(r.isEligible_iff x).2 ⟨hex, hx⟩] at hno
    cases hno
  · intro h x _
    by_contra he
    rw [Bool.not_eq_false, Round.isEligible_iff] at he
    rw [h x he.2] at he
    cases he.1

end Traversal.Own

/-! ## The end of a run -/

/-- A reply offers what it gives to ids of the query. -/
theorem Reply.get?_offers_eq_some_iff {shape : Shape} {reply : Reply} {x : QueryId} {c : Cursor} :
    (reply.offers shape).get? x = some c ↔
      x ∈ shape.ids ∧ reply.nextCursors.get? x = some (some c) := by
  have hmem : shape.contains x = true ↔ x ∈ shape.ids := shape.queries.contains_iff x
  unfold offers
  rw [OrderedMap.get?_filterMap, Option.bind_eq_some_iff, ← hmem]
  cases shape.contains x <;> simp

namespace Session

variable {s : Session} {answer : Request → Outcome} {replies : List Reply}

/-- A call of a session that is neither new nor finished ends the run without a request
exactly if all that the round holds is excluded. -/
theorem ends_iff (ht : s.traversal.Own) (hr : s.round.Holds s.traversal.within)
    (hs : s.state = .active) :
    ((s.turn answer).request = none ∧ (s.turn answer).call.session.isFinished = true) ↔
      ∀ x ∈ s.round.cursors.keys, s.round.isExcluded x = true := by
  obtain ⟨hn, hf⟩ := (Round.state_eq_active_iff _).1 hs
  rw [← ht.leaves_eq_nil_iff_excluded hr]
  constructor
  · rintro ⟨hreq, -⟩
    by_contra hl
    have hasks : (s.turn answer).request = some _ :=
      request?_of_asking (Traversal.opening_of_leaves hn hf hl)
    rw [hreq] at hasks
    cases hasks
  · intro hl
    have hc := Traversal.opening_of_no_leaves hn hf hl
    obtain ⟨hreq, hsess, -⟩ := @turn_of_closing s answer hc
    rw [hsess]
    exact ⟨hreq, rfl⟩

/-- The round is new as long as there was no reply, and what the last reply offers is held
by it, unless it is excluded. -/
structure Keeps (s : Session) (replies : List Reply) : Prop where
  isNew : s.round.isNew = replies.isEmpty
  kept : ∀ reply ∈ replies.getLast?, ∀ x c,
    (reply.offers s.traversal.shape).get? x = some c →
      s.round.cursors.get? x = some (some c) ∨ s.round.isExcluded x = true

/-- What a round keeps when the run is ended without a request. -/
theorem Keeps.ended (h : s.Keeps replies) (ht : s.traversal.Own)
    (hc : s.traversal.opening s.round = .closing) : s.ended.Keeps replies := by
  obtain ⟨hn, -, hl⟩ := Traversal.opening_eq_closing hc
  refine ⟨hn.symm.trans h.isNew, fun reply hreply x c hx => .inr ?_⟩
  rcases h.kept reply hreply x c hx with hheld | hex
  · -- a cursor that waits and is not excluded would have made a leaf
    by_contra hex
    rw [Bool.not_eq_true] at hex
    have hx := ht.ids_eq.symm ▸ (Reply.get?_offers_eq_some_iff.1 hx).1
    have hne := ht.leaves_eq_nil_iff.1 hl x hx
    rw [(s.round.isEligible_iff x).2 ⟨hex, (OrderedMap.mem_keys_iff _ x).2 ⟨_, hheld⟩⟩] at hne
    cases hne
  · exact hex

/-- What a round keeps of a new reply. -/
theorem keeps_proceed (s : Session) (replies : List Reply) (reply : Reply) :
    (s.proceed reply).Keeps (replies ++ [reply]) := by
  refine ⟨?_, fun last hlast x c hx => .inl ?_⟩
  · show false = (replies ++ [reply]).isEmpty
    simp
  · rw [List.getLast?_concat, Option.mem_some_iff] at hlast
    subst hlast
    have hround : (s.proceed reply).round.cursors = (reply.offers s.traversal.shape).held :=
      (Reply.held_offers _ _).symm
    rw [hround, Cursors.held, OrderedMap.get?_mapValues]
    exact congrArg _ hx

/-- One call. -/
theorem Keeps.turn (h : s.Keeps replies) (ht : s.traversal.Own) (answer : Request → Outcome) :
    (s.turn answer).call.session.Keeps (replies ++ (s.replyTaken answer).toList) := by
  cases hr : (s.turn answer).call.result with
  | error e =>
    rw [session_turn_of_error hr, replyTaken_of_error hr, Option.toList_none, List.append_nil]
    exact h
  | ok page =>
    rcases turn_ok_cases hr with hc | ⟨leaves, q, reply, items, hq, ha, hi⟩
    · obtain ⟨hreq, hsess, -⟩ := @turn_of_closing s answer hc
      have hnone : s.replyTaken answer = none := by
        unfold replyTaken
        rw [show s.request? = none from hreq]
        rfl
      rw [hsess, hnone, Option.toList_none, List.append_nil]
      exact h.ended ht hc
    · rw [(turn_of_reply hq ha hi).2.1, replyTaken_of_reply hq ha hi]
      exact s.keeps_proceed replies reply

/-- What the last reply offered is held or excluded, after any calls. -/
theorem keeps_after (h : s.Keeps replies) (ht : s.traversal.Own)
    (answers : List (Request → Outcome)) :
    (s.after answers).Keeps (replies ++ s.repliesTaken answers) := by
  induction answers generalizing s replies with
  | nil =>
    rw [repliesTaken, List.append_nil]
    exact h
  | cons answer rest ih =>
    rw [after, repliesTaken, ← List.append_assoc]
    exact ih (h.turn ht answer) ((s.turn_traversal answer).symm ▸ ht)

/-- A finished session has had a reply, and the last one offers nothing but what is
excluded. -/
theorem Keeps.of_finished (h : s.Keeps replies) (hf : s.isFinished = true) :
    ∃ reply, replies.getLast? = some reply ∧
      ∀ x c, (reply.offers s.traversal.shape).get? x = some c → s.round.isExcluded x = true := by
  have hne : replies ≠ [] := by
    rintro rfl
    have hnew : s.round.isNew = true := h.isNew
    have hfin : (!s.round.isNew && s.round.cursors.isEmpty) = true := hf
    rw [hnew] at hfin
    cases hfin
  refine ⟨replies.getLast hne, List.getLast?_eq_some_getLast hne, fun x c hx => ?_⟩
  rcases h.kept _ (List.getLast?_eq_some_getLast hne) x c hx with hheld | hex
  · rw [Round.get?_of_finished hf] at hheld
    cases hheld
  · exact hex

end Session

/-- No cursor is abandoned. Take any calls of a session, failed ones among them. If the
session is then neither new nor finished, every id with a cursor in its round that is not
excluded is asked for by the next request, and is a leaf of it and has just that cursor there
or has a leaf below it; and the next call ends the run without a request exactly if every id
with a cursor is excluded. If the session is finished, there was a reply, and the last one has
no cursor for any id of the query that is not excluded. -/
theorem no_cursor_abandoned {shape : Shape} {t : Traversal} (ht : Traversal.ofShape shape = .ok t)
    (excluded : IdSet) (answers : List (Request → Outcome)) :
    let s := (Session.start t excluded).after answers
    (s.state = .active →
      (∀ x v, s.round.cursors.get? x = some v → excluded.contains x = false →
        ∃ leaves q c, s.traversal.opening s.round = .asking leaves q ∧ v = some c ∧ x ∈ q.ids ∧
          ((x ∈ leaves ∧ q.cursors.get? x = some c) ∨
            ∃ l ∈ leaves, l ∈ t.forest.descendants x)) ∧
      ∀ answer, ((s.turn answer).request = none ∧
          (s.turn answer).call.session.isFinished = true) ↔
        ∀ x ∈ s.round.cursors.keys, excluded.contains x = true) ∧
    (s.isFinished = true →
      ∃ reply, ((Session.start t excluded).repliesTaken answers).getLast? = some reply ∧
        ∀ x ∈ shape.ids, excluded.contains x = false →
          (reply.nextCursors.get? x).join = none) := by
  obtain ⟨hown, rfl⟩ := Traversal.own_of_ofShape ht
  intro s
  have htrav : s.traversal = t := Session.after_traversal _ answers
  have hexcl : s.round.excluded = excluded := Session.after_excluded _ answers
  have hholds : s.round.Holds t.within := Session.holds_after t excluded answers
  refine ⟨fun hactive => ⟨fun x v hv hex => ?_, fun answer => ?_⟩, fun hf => ?_⟩
  · obtain ⟨hn, -⟩ := (Round.state_eq_active_iff _).1 hactive
    obtain ⟨hx, c, rfl⟩ := hholds x v hv
    have hex' : s.round.isExcluded x = false := by rwa [Round.isExcluded, hexcl]
    obtain ⟨leaves, q, hq, hserved⟩ := hown.served_of_held hn (hown.within_iff.1 hx) hv hex'
    rw [htrav]
    exact ⟨leaves, q, c, hq, rfl, hserved⟩
  · have hiff := @Session.ends_iff s answer (htrav.symm ▸ hown) (htrav.symm ▸ hholds) hactive
    unfold Round.isExcluded at hiff
    rwa [hexcl] at hiff
  · -- a finished round holds nothing, so whatever the last reply has offered is excluded
    have hstart : (Session.start t excluded).Keeps [] :=
      ⟨rfl, fun _ h => absurd h (Option.not_mem_none _)⟩
    obtain ⟨reply, hlast, hoffers⟩ := (Session.keeps_after hstart hown answers).of_finished hf
    refine ⟨reply, hlast, fun x hx hex => ?_⟩
    by_contra hc
    obtain ⟨c, hc⟩ := Option.ne_none_iff_exists'.1 hc
    have hoffer := Reply.get?_offers_eq_some_iff.2 ⟨hx, Option.join_eq_some_iff.1 hc⟩
    have hexcluded := hoffers x c (htrav.symm ▸ hoffer)
    rw [Round.isExcluded, hexcl, hex] at hexcluded
    cases hexcluded

/-- After the first page of `twoLevels` the upper sub-query waits for the lower one; after the
third one nothing waits any more. -/
theorem no_cursor_abandoned_twoLevels :
    ((twoLevelsAfter 1).state = .active ∧
      (twoLevelsAfter 1).round.cursors.get? "A" = some (some (.ofText "1")) ∧
      ∃ leaves q c, (twoLevelsAfter 1).traversal.opening (twoLevelsAfter 1).round =
          .asking leaves q ∧ some (Cursor.ofText "1") = some c ∧ "A" ∈ q.ids ∧
        (("A" ∈ leaves ∧ q.cursors.get? "A" = some c) ∨
          ∃ l ∈ leaves, l ∈ twoLevels.forest.descendants "A")) ∧
    (twoLevelsAfter 3).isFinished = true ∧
      ∃ reply, ((Session.start twoLevels ∅).repliesTaken
          (List.replicate 3 twoAndThree.answer)).getLast? = some reply ∧
        ∀ x ∈ twoLevels.shape.ids, (∅ : IdSet).contains x = false →
          (reply.nextCursors.get? x).join = none := by
  have hone := no_cursor_abandoned ofShape_twoLevels ∅ (List.replicate 1 twoAndThree.answer)
  have hthree := no_cursor_abandoned ofShape_twoLevels ∅ (List.replicate 3 twoAndThree.answer)
  have hactive : (twoLevelsAfter 1).state = .active := by decide +kernel
  have hheld : (twoLevelsAfter 1).round.cursors.get? "A" = some (some (.ofText "1")) := by
    decide +kernel
  have hfinished : (twoLevelsAfter 3).isFinished = true := by decide +kernel
  exact ⟨⟨hactive, hheld, (hone.1 hactive).1 "A" _ hheld rfl⟩, hfinished, hthree.2 hfinished⟩

end ForestPager
