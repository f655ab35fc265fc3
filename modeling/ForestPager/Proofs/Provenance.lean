import ForestPager.Proofs.Attempts
import ForestPager.Proofs.Replay

/-!
# Where cursors come from

A round remembers the cursors of the last two answers and nothing older. Whatever calls have
failed in between, the cursors in it are those that the last successful request returned for
ids of the query, and the earlier ones are those of the request before. Every cursor in a
request is therefore one of these: a leaf has its cursor from the last answer, and what is
above a leaf has its cursor from the answer before.

Results:

* `Traversal.Own.cursor_advancing_iff`: which cursors a request holds, by role.
* `Session.remembers_after`: what a round remembers after any calls.
* `cursors_from_last_answers`: both together, from the start of a run.
-/

namespace ForestPager

/-- The cursors of a reply that are for ids of the query. -/
def Reply.offers (shape : Shape) (reply : Reply) : Cursors :=
  reply.nextCursors.filterMap fun x c => if shape.contains x then c else none

/-- Cursors as a round holds them. -/
def Cursors.held (cursors : Cursors) : NextCursors := cursors.mapValues fun _ c => some c

/-- A round takes from a reply what it offers. -/
theorem Reply.held_offers (shape : Shape) (reply : Reply) :
    (reply.offers shape).held =
      reply.nextCursors.filterMap fun x c => if shape.contains x then c.map some else none := by
  unfold Cursors.held offers
  rw [OrderedMap.mapValues_filterMap]
  congr 1
  funext x c
  cases shape.contains x <;> rfl

theorem Cursors.join_get?_held (cursors : Cursors) (x : QueryId) :
    (cursors.held.get? x).join = cursors.get? x := by
  unfold held
  rw [OrderedMap.get?_mapValues]
  cases cursors.get? x <;> rfl

/-- The cursors that the reply with a given number offers; none when there is no such
reply. -/
def offeredIn (shape : Shape) (replies : List Reply) : Int → Cursors
  | .ofNat k => replies[k]?.elim ∅ (Reply.offers shape)
  | .negSucc _ => ∅

section Offered

variable (shape : Shape) (replies : List Reply) (reply : Reply)

theorem offeredIn_append_self :
    offeredIn shape (replies ++ [reply]) replies.length = reply.offers shape := by
  show (replies ++ [reply])[replies.length]?.elim ∅ (Reply.offers shape) = _
  simp

theorem offeredIn_append_pred :
    offeredIn shape (replies ++ [reply]) (replies.length - 1) =
      offeredIn shape replies (replies.length - 1) := by
  cases h : replies.length with
  | zero => rfl
  | succ n =>
    have hn : ((n + 1 : ℕ) : Int) - 1 = Int.ofNat n := by simp
    rw [hn]
    show (replies ++ [reply])[n]?.elim ∅ (Reply.offers shape) =
      replies[n]?.elim ∅ (Reply.offers shape)
    rw [List.getElem?_append_left (by omega)]

end Offered

/-! ## The cursors of a request -/

namespace Request

theorem get?_cursors (q : Request) (x : QueryId) : q.cursors.get? x = (q.submitted? x).join := by
  unfold cursors submitted?
  rw [OrderedMap.get?_filterMap]
  cases q.queries.get? x <;> rfl

theorem cursors_full (s : Shape) : (full s).cursors = ∅ := by
  apply OrderedMap.ext
  show List.filterMap _ (List.map _ s.queries.entries) = []
  rw [List.filterMap_map]
  exact List.filterMap_eq_nil_iff.2 fun _ _ => rfl

end Request

namespace Traversal.Own

variable {t : Traversal} {r : Round} {x : QueryId} {c : Cursor}

/-- A request that advances leaves holds the cursors of the leaves and the replay cursors of
what is above them, and no others. -/
theorem cursor_advancing_iff (ht : t.Own) :
    (Request.advancing t.forest t.shape r (r.leaves t.forest t.within)).cursors.get? x = some c ↔
      (x ∈ r.leaves t.forest t.within ∧ (r.cursors.get? x).join = some c) ∨
        ∃ l ∈ r.leaves t.forest t.within, x ∈ t.forest.ancestors l ∧ r.replayCursor x = some c := by
  have hapart := ht.apart_leaves (r := r)
  rw [Request.get?_cursors]
  by_cases hleaf : x ∈ r.leaves t.forest t.within
  · have hno : ¬ ∃ l ∈ r.leaves t.forest t.within, x ∈ t.forest.ancestors l ∧
        r.replayCursor x = some c := fun ⟨l, hl, hx, _⟩ => hapart x hleaf l hl hx
    rw [ht.submitted?_leaf hleaf]
    simp [hleaf, hno]
  by_cases habove : ∃ l ∈ r.leaves t.forest t.within, x ∈ t.forest.ancestors l
  · obtain ⟨l, hl, hx⟩ := habove
    rw [ht.submitted?_above hl hx]
    constructor
    · intro hc
      exact .inr ⟨l, hl, hx, hc⟩
    · rintro (⟨hx', -⟩ | ⟨-, -, -, hc⟩)
      · exact absurd hx' hleaf
      · exact hc
  -- neither a leaf nor above one: the id starts over or is not asked for
  have hnone : ((Request.advancing t.forest t.shape r
      (r.leaves t.forest t.within)).submitted? x).join = none := by
    by_cases hbelow : ∃ l ∈ r.leaves t.forest t.within, l ∈ t.forest.ancestors x
    · obtain ⟨l, hl, hx⟩ := hbelow
      rw [ht.submitted?_below hl hx]
      rfl
    · have hno : ¬ Request.Touches t.forest (r.leaves t.forest t.within) x := by
        rintro ⟨l, hl, rfl | h | h⟩
        · exact hleaf hl
        · exact hbelow ⟨l, hl, h⟩
        · exact habove ⟨l, hl, h⟩
      rw [ht.submitted?_elsewhere hno]
      rfl
  rw [hnone]
  constructor
  · intro hc
    cases hc
  · rintro (⟨hx, -⟩ | ⟨l, hl, hx, -⟩)
    · exact absurd hx hleaf
    · exact absurd ⟨l, hl, hx⟩ habove

end Traversal.Own

/-! ## What a round remembers -/

namespace Session

variable {s : Session} {answer : Request → Outcome} {replies : List Reply}

/-- The reply that a call takes in; none when it asks for nothing or fails. -/
def replyTaken (s : Session) (answer : Request → Outcome) : Option Reply :=
  s.request?.bind fun q => if (s.turn answer).madePage then (answer q).toOption else none

/-- The replies that calls with given ways of answering take in, in order. -/
def repliesTaken : Session → List (Request → Outcome) → List Reply
  | _, [] => []
  | s, answer :: rest =>
    (s.replyTaken answer).toList ++ (s.turn answer).call.session.repliesTaken rest

/-- The round holds the cursors of the last of some replies and those of the one before, and
is new when there was no reply. -/
structure Remembers (s : Session) (replies : List Reply) : Prop where
  cursors : s.round.cursors =
    (offeredIn s.traversal.shape replies (replies.length - 1)).held
  earlier : s.round.earlier =
    (offeredIn s.traversal.shape replies (replies.length - 2)).held
  isNew : s.round.isNew = replies.isEmpty

theorem remembers_start (t : Traversal) (excluded : IdSet) : (start t excluded).Remembers [] :=
  ⟨rfl, rfl, rfl⟩

/-- A reply moves what is remembered on by one. -/
theorem Remembers.proceed (h : s.Remembers replies) (reply : Reply) :
    (s.proceed reply).Remembers (replies ++ [reply]) := by
  have hlast : ((replies ++ [reply]).length : Int) - 1 = replies.length := by simp
  have hbefore : ((replies ++ [reply]).length : Int) - 2 = replies.length - 1 := by
    rw [List.length_append, List.length_singleton]
    omega
  refine ⟨?_, ?_, ?_⟩
  · rw [hlast, offeredIn_append_self, Reply.held_offers]
    rfl
  · rw [hbefore, offeredIn_append_pred]
    exact h.cursors
  · show false = (replies ++ [reply]).isEmpty
    simp

/-- A call takes in the reply that makes its page. -/
theorem replyTaken_of_reply {leaves : List QueryId} {q : Request} {reply : Reply} {items : Items}
    (h : s.traversal.opening s.round = .asking leaves q) (ha : answer q = .ok reply)
    (hi : reply.listItems = .ok items) : s.replyTaken answer = some reply := by
  unfold replyTaken
  rw [request?_of_asking h, Option.bind_some, Turn.madePage_of_ok (turn_of_reply h ha hi).2.2, ha]
  rfl

theorem replyTaken_of_error {e : Failure} (h : (s.turn answer).call.result = .error e) :
    s.replyTaken answer = none := by
  unfold replyTaken
  rw [Turn.madePage_of_error h]
  cases s.request? <;> rfl

/-- What a round remembers after any calls, unless one of them has ended the run without a
request. -/
theorem remembers_after (h : s.Remembers replies) (answers : List (Request → Outcome)) :
    (s.after answers).Remembers (replies ++ s.repliesTaken answers) ∨
      (s.after answers).isFinished = true ∧
        ∃ u ∈ s.history answers, u.madePage = true ∧ u.request = none := by
  -- the replies so far go along; a run that was ended stays finished
  induction answers generalizing s replies with
  | nil =>
    left
    rw [repliesTaken, List.append_nil]
    exact h
  | cons answer rest ih =>
    rw [after, repliesTaken, history]
    cases hr : (s.turn answer).call.result with
    | error e =>
      rw [session_turn_of_error hr, replyTaken_of_error hr]
      refine (ih h).imp_right ?_
      rintro ⟨hf, u, hu, hmade⟩
      exact ⟨hf, u, List.mem_cons_of_mem _ hu, hmade⟩
    | ok page =>
      rcases turn_ok_cases hr with hc | ⟨leaves, q, reply, items, hq, ha, hi⟩
      · right
        obtain ⟨hreq, hsess, hres⟩ := @turn_of_closing s answer hc
        rw [hsess, after_of_finished rfl]
        exact ⟨rfl, _, List.mem_cons_self, Turn.madePage_of_ok hres, hreq⟩
      · rw [(turn_of_reply hq ha hi).2.1, replyTaken_of_reply hq ha hi]
        rcases ih (h.proceed reply) with hrest | ⟨hf, u, hu, hmade⟩
        · left
          rw [List.append_assoc] at hrest
          exact hrest
        · exact .inr ⟨hf, u, List.mem_cons_of_mem _ hu, hmade⟩

/-! ## The next request -/

variable {leaves : List QueryId} {q : Request}

/-- The page of a call tells the leaves that the call has advanced. -/
theorem leaves_of_page (hq : s.traversal.opening s.round = .asking leaves q) {page : Page}
    (h : (s.turn answer).call.result = .ok page) : page.leaves = leaves := by
  rcases turn_ok_cases h with hc | ⟨leaves', q', reply, items, hq', ha, hi⟩
  · rw [hq] at hc
    cases hc
  · rw [hq, Opening.asking.injEq] at hq'
    obtain ⟨rfl, rfl⟩ := hq'
    rw [(turn_of_reply hq ha hi).2.2, Except.ok.injEq] at h
    rw [← h]
    rfl

namespace Remembers

/-- The first request is for everything, from the start. -/
theorem first_request (h : s.Remembers []) (hq : s.traversal.opening s.round = .asking leaves q) :
    q.ids = s.traversal.shape.ids ∧ q.cursors = ∅ := by
  have hnew : s.round.isNew = true := h.isNew
  rcases Traversal.opening_eq_asking hq with ⟨-, -, rfl⟩ | ⟨hn, -⟩
  · exact ⟨Request.ids_full _, Request.cursors_full _⟩
  · rw [hnew] at hn
    cases hn

/-- The cursors of a later request come from the last two replies. -/
theorem cursor_iff (h : s.Remembers replies) (ht : s.traversal.Own) (hne : replies ≠ [])
    (hq : s.traversal.opening s.round = .asking leaves q) (x : QueryId) (c : Cursor) :
    q.cursors.get? x = some c ↔
      s.round.isExcluded x = false ∧
        ((x ∈ leaves ∧
            (offeredIn s.traversal.shape replies (replies.length - 1)).get? x = some c) ∨
          ∃ l ∈ leaves, x ∈ s.traversal.forest.ancestors l ∧
            (offeredIn s.traversal.shape replies (replies.length - 2)).get? x = some c) := by
  have hold : s.round.isNew = false := by
    rw [h.isNew]
    simpa using hne
  rcases Traversal.opening_eq_asking hq with ⟨hn, -, -⟩ | ⟨-, rfl, rfl⟩
  · rw [hold] at hn
    cases hn
  rw [ht.cursor_advancing_iff, Round.replayCursor, h.cursors, h.earlier, Cursors.join_get?_held,
    Cursors.join_get?_held]
  cases hex : s.round.isExcluded x with
  | false => simp
  | true =>
    -- leaves are not excluded, and what is excluded is not repeated with a cursor
    have hleaf : x ∉ s.round.leaves s.traversal.forest s.traversal.within := by
      intro hx
      have hne := ((s.round.isEligible_iff x).1 (Round.isEligible_of_mem_leaves hx)).1
      rw [hex] at hne
      cases hne
    simp [hleaf]

end Remembers

end Session

/-- Cursors come from the last two answers. Take any calls of a session, failed ones among
them, and the replies that made its pages; number them from zero and let `n` be their number.
Unless a call has ended the run, the round holds the cursors of reply `n - 1`, and those of
reply `n - 2` as the earlier ones. A further request is for everything from the start when
there was no reply, and otherwise an id has a cursor in it exactly if it is not excluded and
reply `n - 1` gave the cursor to it, the id being a leaf of the page, or reply `n - 2` did,
the id being above a leaf of the page. -/
theorem cursors_from_last_answers {shape : Shape} {t : Traversal}
    (ht : Traversal.ofShape shape = .ok t) (excluded : IdSet) (answers : List (Request → Outcome)) :
    let s := (Session.start t excluded).after answers
    let replies := (Session.start t excluded).repliesTaken answers
    let last := offeredIn shape replies (replies.length - 1)
    let before := offeredIn shape replies (replies.length - 2)
    ((∀ u ∈ (Session.start t excluded).history answers, u.madePage = true → u.request ≠ none) →
      s.round.cursors = last.held ∧ s.round.earlier = before.held) ∧
    ∀ leaves q, s.traversal.opening s.round = .asking leaves q →
      (∀ answer, (s.turn answer).request = some q ∧
        ∀ page, (s.turn answer).call.result = .ok page → page.leaves = leaves) ∧
      (replies = [] → q.ids = shape.ids ∧ q.cursors = ∅) ∧
      (replies ≠ [] → ∀ x c, q.cursors.get? x = some c ↔
        excluded.contains x = false ∧
          ((x ∈ leaves ∧ last.get? x = some c) ∨
            ∃ l ∈ leaves, x ∈ t.forest.ancestors l ∧ before.get? x = some c)) := by
  obtain ⟨hown, rfl⟩ := Traversal.own_of_ofShape ht
  intro s replies last before
  have htrav : s.traversal = t := Session.after_traversal _ answers
  have hexcl : s.round.excluded = excluded := Session.after_excluded _ answers
  have hmem := Session.remembers_after (Session.remembers_start t excluded) answers
  rw [List.nil_append] at hmem
  refine ⟨fun hopen => ?_, fun leaves q hq => ?_⟩
  · rcases hmem with h | ⟨-, u, hu, hmade, hreq⟩
    · have hcursors := h.cursors
      have hearlier := h.earlier
      rw [Session.after_traversal] at hcursors hearlier
      exact ⟨hcursors, hearlier⟩
    · exact absurd hreq (hopen u hu hmade)
  · -- the call without a request ends a run, so a session that asks has not made it
    have h : s.Remembers replies := by
      refine hmem.resolve_right fun ⟨hf, _⟩ => ?_
      rw [Session.isFinished_iff_refused, hq] at hf
      cases hf
    refine ⟨fun answer => ⟨Session.request?_of_asking hq, fun page => Session.leaves_of_page hq⟩,
      fun hnil => ?_, fun hne x c => ?_⟩
    · rw [← htrav]
      rw [hnil] at h
      exact h.first_request hq
    · have hiff := h.cursor_iff (htrav ▸ hown) hne hq x c
      rw [Round.isExcluded, hexcl, htrav] at hiff
      exact hiff

/-- Three calls of a session over `twoLevels`, the second of which fails. -/
def secondFails : List (Request → Outcome) :=
  [twoAndThree.answer, fun _ => .error (.foreign "ConnectionError" ""), twoAndThree.answer]

/-- After these calls the upper sub-query of `twoLevels` is repeated with the cursor that it got
from the first of the two replies. -/
theorem cursors_from_last_answers_twoLevels :
    let s := (Session.start twoLevels ∅).after secondFails
    let replies := (Session.start twoLevels ∅).repliesTaken secondFails
    ∃ q, s.traversal.opening s.round = .asking ["B"] q ∧
      q.cursors.get? "A" = some (.ofText "1") ∧ replies.length = 2 ∧
      (q.cursors.get? "A" = some (.ofText "1") ↔
        (∅ : IdSet).contains "A" = false ∧
          (("A" ∈ ["B"] ∧
              (offeredIn twoLevels.shape replies (replies.length - 1)).get? "A" =
                some (.ofText "1")) ∨
            ∃ l ∈ ["B"], "A" ∈ twoLevels.forest.ancestors l ∧
              (offeredIn twoLevels.shape replies (replies.length - 2)).get? "A" =
                some (.ofText "1"))) := by
  intro s replies
  have hq : s.traversal.opening s.round =
      .asking ["B"] (.advancing twoLevels.forest twoLevels.shape s.round ["B"]) := by decide +kernel
  have hreplies : replies ≠ [] := by decide +kernel
  exact ⟨_, hq, by decide +kernel, by decide +kernel,
    ((cursors_from_last_answers ofShape_twoLevels ∅ secondFails).2 _ _ hq).2.2 hreplies "A" _⟩

end ForestPager
