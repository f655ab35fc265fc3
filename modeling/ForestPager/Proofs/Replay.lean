import ForestPager.Backend.Paged
import ForestPager.Proofs.Turns

/-!
# Repeating what is above a leaf

A cursor belongs to the page at which the sub-queries above stood when it was
returned. A leaf is advanced together with a repetition of what is above it, and the
cursor of the repetition is remembered from two answers back. That is the cursor with
which an id was sent only as long as the id does not move: when it was itself a leaf
in the round before, or started over. An id that was repeated in the round before
was sent with a cursor three answers old, while the one remembered is two answers old.

Results:

* `Session.submitted?_next`: how a round asks for what is above the next leaves.
* `Session.resubmitted_iff`: exactly when two successive rounds ask for an id above a
  leaf with the same cursor.
-/

namespace ForestPager

/-- Cursors are returned only for ids that were asked for. -/
def OnlyAsked (answer : Request → Outcome) : Prop :=
  ∀ q reply, answer q = .ok reply → ∀ x c, reply.nextCursors.get? x = some (some c) → x ∈ q.ids

/-- The last two answers gave an id the same cursor, or both gave it none. -/
def Round.Resting (r : Round) (x : QueryId) : Prop :=
  (r.cursors.get? x).join = (r.earlier.get? x).join

theorem Round.mem_keys_advance {r : Round} {returned : NextCursors} {within : QueryId → Bool}
    {x : QueryId} (h : x ∈ (r.advance returned within).cursors.keys) :
    ∃ c, returned.get? x = some (some c) := by
  obtain ⟨v, hv⟩ := (OrderedMap.mem_keys_iff _ x).1 h
  rw [Round.get?_advance] at hv
  split at hv
  · cases hc : returned.get? x with
    | none => simp [hc] at hv
    | some c =>
      cases c with
      | none => simp [hc] at hv
      | some c => exact ⟨c, rfl⟩
  · cases hv

namespace Session

variable {s : Session} {answer : Request → Outcome} {leaves : List QueryId} {q : Request}
  {reply : Reply} {x l : QueryId}

/-! ## New rounds -/

/-- A round that is new has no cursors yet. -/
def Pristine (s : Session) : Prop :=
  s.round.isNew = true → s.round.cursors = ∅ ∧ s.round.earlier = ∅

theorem pristine_after (t : Traversal) (excluded : IdSet) (answers : List (Request → Outcome)) :
    ((start t excluded).after answers).Pristine := by
  suffices h : ∀ s : Session, s.Pristine → (s.after answers).Pristine from h _ fun _ => ⟨rfl, rfl⟩
  induction answers with
  | nil => exact fun s hs => hs
  | cons answer rest ih =>
    intro s hs
    refine ih _ ?_
    rcases session_turn_cases s answer with h | h | ⟨reply, h⟩
    · rwa [h]
    · rw [h]
      intro hn
      cases hn
    · rw [h]
      intro hn
      cases hn

/-! ## Two successive rounds -/

theorem replayCursor_nextRound (s : Session) (reply : Reply) (x : QueryId) :
    (s.nextRound reply).replayCursor x =
      if s.round.isExcluded x then none else (s.round.cursors.get? x).join := rfl

/-- The leaves of the next round are among what a round asks for. -/
theorem mem_ids_of_mem_leaves (ht : s.traversal.Own) (ho : OnlyAsked answer)
    (ha : answer q = .ok reply)
    (hl : l ∈ (s.nextRound reply).leaves s.traversal.forest s.traversal.within) : l ∈ q.ids := by
  obtain ⟨-, he, -⟩ := ht.mem_leaves.1 hl
  obtain ⟨c, hc⟩ := Round.mem_keys_advance (((s.nextRound reply).isEligible_iff l).1 he).2
  exact ho q reply ha l c hc

/-- What is above a leaf of the next round is asked for with its replay cursor if it is
above a leaf, and otherwise with the cursor with which the next round repeats it. -/
theorem submitted?_next (ht : s.traversal.Own) (hp : s.Pristine) (ho : OnlyAsked answer)
    (hq : s.traversal.opening s.round = .asking leaves q) (ha : answer q = .ok reply)
    (hl : l ∈ (s.nextRound reply).leaves s.traversal.forest s.traversal.within)
    (hx : x ∈ s.traversal.forest.ancestors l) :
    q.submitted? x = some (if ∃ m ∈ leaves, x ∈ s.traversal.forest.ancestors m
      then s.round.replayCursor x else (s.nextRound reply).replayCursor x) := by
  have hlq := mem_ids_of_mem_leaves ht ho ha hl
  have hxi := (ht.sound.mem_ids_of_mem_ancestors hx).1
  rw [replayCursor_nextRound]
  rcases Traversal.opening_eq_asking hq with ⟨hn, rfl, rfl⟩ | ⟨-, rfl, rfl⟩
  · rw [Request.submitted?_full _ (ht.ids_eq ▸ hxi), (hp hn).1]
    simp
  · split
    · next h =>
      obtain ⟨m, hm, hxm⟩ := h
      exact ht.submitted?_above hm hxm
    · next h =>
      obtain ⟨m, hm, hml⟩ := ((Request.mem_ids_advancing_iff _ _ _ _ l).1 hlq).2
      rw [ht.sound.mem_descendants] at hml
      obtain ⟨-, hme, hmb⟩ := ht.mem_leaves.1 hm
      -- the leaf `m` is above `l`, for otherwise `x` is above `m`
      have hml : m ∈ s.traversal.forest.ancestors l := by
        rcases hml with rfl | hml | hml
        · exact absurd ⟨l, hm, hx⟩ h
        · exact hml
        · exact absurd ⟨m, hm, ht.sound.ancestors_trans hx hml⟩ h
      rcases ht.sound.ancestors_linear hx hml with rfl | hxm | hmx
      · have hne := (s.round.isEligible_iff x).1 hme
        rw [ht.submitted?_leaf hm, if_neg (by simp [hne.1])]
      · exact absurd ⟨m, hm, hxm⟩ h
      · rw [ht.submitted?_below hm hmx]
        have hne := hmb x hmx
        cases hex : s.round.isExcluded x with
        | true => simp
        | false =>
          have hk : s.round.cursors.get? x = none := by
            rw [OrderedMap.get?_eq_none_iff]
            intro hk
            simp [(s.round.isEligible_iff x).2 ⟨hex, hk⟩] at hne
          simp [hk]

/-- What is above a leaf of the next round is repeated with the cursor with which it was
asked for, unless it was itself repeated and has moved in the round before. -/
theorem submitted?_eq_replayCursor_iff (ht : s.traversal.Own) (hp : s.Pristine)
    (ho : OnlyAsked answer) (hq : s.traversal.opening s.round = .asking leaves q)
    (ha : answer q = .ok reply)
    (hl : l ∈ (s.nextRound reply).leaves s.traversal.forest s.traversal.within)
    (hx : x ∈ s.traversal.forest.ancestors l) :
    some ((s.nextRound reply).replayCursor x) = q.submitted? x ↔
      s.round.isExcluded x = true ∨ (∀ m ∈ leaves, x ∉ s.traversal.forest.ancestors m) ∨
        s.round.Resting x := by
  rw [submitted?_next ht hp ho hq ha hl hx, Option.some.injEq]
  split
  · next h =>
    obtain ⟨m, hm, hxm⟩ := h
    rw [replayCursor_nextRound, Round.replayCursor, Round.Resting]
    cases hex : s.round.isExcluded x with
    | true => simp
    | false =>
      have hno : ¬ ∀ m ∈ leaves, x ∉ s.traversal.forest.ancestors m := fun h => h m hm hxm
      simp [hno]
  · next h =>
    have hall : ∀ m ∈ leaves, x ∉ s.traversal.forest.ancestors m := fun m hm hxm => h ⟨m, hm, hxm⟩
    exact ⟨fun _ => .inr (.inl hall), fun _ => rfl⟩

/-! ## Runs -/

/-- When two successive turns make pages and the second page advances a leaf, the first
turn had a reply, and the second one advances the leaves of the round after it. -/
theorem exists_reply_of_leaf {answer' : Request → Outcome} {pa pb : Page}
    (ha : (s.turn answer).call.result = .ok pa)
    (hb : ((s.turn answer).call.session.turn answer').call.result = .ok pb) (hl : l ∈ pb.leaves) :
    ∃ q reply, s.traversal.opening s.round = .asking pa.leaves q ∧ answer q = .ok reply ∧
      (s.turn answer).request = some q ∧
      l ∈ (s.nextRound reply).leaves s.traversal.forest s.traversal.within ∧
      ((s.turn answer).call.session.turn answer').request =
        some (.advancing s.traversal.forest s.traversal.shape (s.nextRound reply)
          ((s.nextRound reply).leaves s.traversal.forest s.traversal.within)) := by
  rcases turn_ok_cases ha with hc | ⟨leaves, q, reply, items, hq, hr, hi⟩
  · -- a run that was ended makes no further page
    rw [(turn_of_closing hc).2.1] at hb
    have hf : s.ended.isFinished = true := rfl
    simp [turn, nextPage_of_finished _ hf] at hb
  · obtain ⟨hreq, hsess, hres⟩ := turn_of_reply hq hr hi
    rw [hres, Except.ok.injEq] at ha
    subst ha
    rw [hsess] at hb ⊢
    rcases turn_ok_cases hb with hc | ⟨leaves', q', reply', items', hq', hr', hi'⟩
    · rw [(turn_of_closing hc).2.2, Except.ok.injEq] at hb
      subst hb
      cases hl
    · obtain ⟨hreq', -, hres'⟩ := turn_of_reply hq' hr' hi'
      rw [hres', Except.ok.injEq] at hb
      subst hb
      rcases Traversal.opening_eq_asking hq' with ⟨hn, -, -⟩ | ⟨-, rfl, rfl⟩
      · cases hn
      · exact ⟨q, reply, hq, hr, hreq, hl, hreq'⟩

/-- Take two successive pages of a run, and any failed calls in between. An id above a
leaf of the second page was asked for with the same cursor both times exactly if it is
excluded, or the first page did not repeat it above a leaf, or the two answers before
the first page gave it the same cursor. -/
theorem resubmitted_iff {shape : Shape} {t : Traversal} (ht : Traversal.ofShape shape = .ok t)
    (excluded : IdSet) {answers : List (Request → Outcome)} (ho : ∀ a ∈ answers, OnlyAsked a)
    {us mid vs : List Turn} {a b : Turn}
    (hist : (start t excluded).history answers = us ++ a :: (mid ++ b :: vs)) {pa pb : Page}
    (ha : a.call.result = .ok pa) (hmid : ∀ u ∈ mid, ∃ e, u.call.result = .error e)
    (hb : b.call.result = .ok pb) {l x : QueryId} (hl : l ∈ pb.leaves)
    (hx : x ∈ t.forest.ancestors l) :
    ∃ qa qb, a.request = some qa ∧ b.request = some qb ∧ x ∈ qa.ids ∧ x ∈ qb.ids ∧
      (qb.submitted? x = qa.submitted? x ↔
        excluded.contains x = true ∨ (∀ m ∈ pa.leaves, x ∉ t.forest.ancestors m) ∨
          ((start t excluded).after (answers.take us.length)).round.Resting x) := by
  obtain ⟨pre, answer, post, rfl, hus, rfl, hpost⟩ := history_eq_append_cons hist
  obtain ⟨pre', answer', post', rfl, hmid', rfl, -⟩ := history_eq_append_cons hpost.symm
  have hlen : us.length = pre.length := by rw [← hus, length_history]
  rw [hlen, List.take_left]
  have hprist := pristine_after t excluded pre
  have hwhole : ((start t excluded).after pre).traversal = t := after_traversal _ pre
  have hexcl : ((start t excluded).after pre).round.isExcluded x = excluded.contains x := by
    rw [Round.isExcluded, after_excluded]
    rfl
  generalize (start t excluded).after pre = s at *
  -- the failed calls in between do not count
  rw [after_of_errors (by rwa [hmid'])] at hb ⊢
  subst hwhole
  have hown := (Traversal.own_of_ofShape ht).1
  have ho' := ho answer (by simp)
  obtain ⟨qa, reply, hqa, hra, hreqa, hl', hreqb⟩ := exists_reply_of_leaf ha hb hl
  have hsub := hown.submitted?_above hl' hx
  refine ⟨qa, _, hreqa, hreqb, ?_, ?_, ?_⟩
  · exact qa.mem_ids_iff.2 ⟨_, submitted?_next hown hprist ho' hqa hra hl' hx⟩
  · exact (Request.mem_ids_iff _).2 ⟨_, hsub⟩
  · rw [hsub, submitted?_eq_replayCursor_iff hown hprist ho' hqa hra hl' hx, hexcl]

end Session

/-! ## A run in which an id above a leaf moves -/

/-- A backend of numbered pages gives cursors only for what it was asked for. -/
theorem Paged.onlyAsked (b : Paged) : OnlyAsked b.answer := by
  intro q reply h x c hc
  unfold Paged.answer at h
  split at h
  · cases h
  · cases h
    rw [OrderedMap.get?_filterMap, Option.bind_eq_some_iff] at hc
    obtain ⟨requested, hr, -⟩ := hc
    exact (q.queries.mem_keys_iff x).2 ⟨requested, hr⟩

/-- A sub-query and another one that continues from it. -/
def twoLevels : Traversal := .ofLinks [("A", none), ("B", some "A")]

theorem ofShape_twoLevels : Traversal.ofShape twoLevels.shape = .ok twoLevels := by
  decide +kernel

/-- Two pages of the upper sub-query of `twoLevels` and three of the lower one. -/
def twoAndThree : Paged := .ofCounts (.ofList [("A", 2), ("B", 3)]) 1

/-- The run of `twoLevels` after a number of pages. -/
def twoLevelsAfter (n : ℕ) : Session :=
  (Session.start twoLevels ∅).after (List.replicate n twoAndThree.answer)

/-- The second and the third page of the run repeat the upper sub-query, the second one
when it had got its cursor only just before. -/
theorem resubmitted_twoLevels :
    ∃ qa qb, ((twoLevelsAfter 1).turn twoAndThree.answer).request = some qa ∧
      ((twoLevelsAfter 2).turn twoAndThree.answer).request = some qb ∧
      "A" ∈ qa.ids ∧ "A" ∈ qb.ids ∧
      (qb.submitted? "A" = qa.submitted? "A" ↔
        (∅ : IdSet).contains "A" = true ∨ (∀ m ∈ ["B"], "A" ∉ twoLevels.forest.ancestors m) ∨
          (twoLevelsAfter 1).round.Resting "A") :=
  @Session.resubmitted_iff twoLevels.shape twoLevels ofShape_twoLevels ∅
    (List.replicate 3 twoAndThree.answer)
    (fun a ha => List.eq_of_mem_replicate ha ▸ twoAndThree.onlyAsked)
    [(twoLevelsAfter 0).turn twoAndThree.answer] [] []
    ((twoLevelsAfter 1).turn twoAndThree.answer) ((twoLevelsAfter 2).turn twoAndThree.answer) rfl
    ⟨.ofList [("A", [.str "A-0-0"]), ("B", [.str "B-1-0"])], false, 1, ["B"]⟩
    ⟨.ofList [("A", [.str "A-1-0"]), ("B", [.str "B-2-0"])], true, 2, ["B"]⟩
    (by decide +kernel) (fun _ h => absurd h List.not_mem_nil) (by decide +kernel)
    "B" "A" (by decide) (by decide +kernel)

/-- Not every id above a leaf is repeated with the cursor with which it was asked for:
the upper sub-query of `twoLevels` is not. -/
theorem exists_not_resubmitted :
    ¬ ∀ (shape : Shape) (t : Traversal), Traversal.ofShape shape = .ok t →
      ∀ (excluded : IdSet) (answers : List (Request → Outcome)), (∀ a ∈ answers, OnlyAsked a) →
      ∀ (us mid vs : List Turn) (a b : Turn),
        (Session.start t excluded).history answers = us ++ a :: (mid ++ b :: vs) →
      ∀ pa pb : Page, a.call.result = .ok pa →
        (∀ u ∈ mid, ∃ e, u.call.result = .error e) → b.call.result = .ok pb →
      ∀ l x : QueryId, l ∈ pb.leaves → x ∈ t.forest.ancestors l →
        (b.request.bind fun q => q.submitted? x) = a.request.bind fun q => q.submitted? x := by
  intro h
  have hsame := h twoLevels.shape twoLevels ofShape_twoLevels ∅
    (List.replicate 3 twoAndThree.answer)
    (fun a ha => List.eq_of_mem_replicate ha ▸ twoAndThree.onlyAsked)
    [(twoLevelsAfter 0).turn twoAndThree.answer] [] []
    ((twoLevelsAfter 1).turn twoAndThree.answer) ((twoLevelsAfter 2).turn twoAndThree.answer) rfl
    ⟨.ofList [("A", [.str "A-0-0"]), ("B", [.str "B-1-0"])], false, 1, ["B"]⟩
    ⟨.ofList [("A", [.str "A-1-0"]), ("B", [.str "B-2-0"])], true, 2, ["B"]⟩
    (by decide +kernel) (fun _ h => absurd h List.not_mem_nil) (by decide +kernel)
    "B" "A" (by decide) (by decide +kernel)
  exact absurd hsame (by decide +kernel)

end ForestPager
