import ForestPager.Proofs.Parts

/-!
# Trees do not interfere

All trees of a forest share one request in every round, one list of leaves and one table of
cursors, and yet each goes its own way. Take a run whose answers go through the trees one by
one, and the run of one tree alone. As long as the tree alone asks for something, the whole
asks for the same among its ids, in the same order and with the same cursors, and gets the same
for them. When the tree alone has come to its end, the whole never names its ids again.

Results:

* `Session.Quiet.not_mem_ids`, `Session.Quiet.turn`: ids that have come to their end.
* `Session.Shadows.turn_of_request`, `Session.Shadows.turn_of_no_request`: one call.
* `Session.Shadows.shows_history`: whole runs.
* `trees_do_not_interfere`: one tree and the others.
-/

namespace ForestPager

variable {ids : List QueryId} {x : QueryId}

/-! ## Answers that go through the trees one by one -/

/-- Every request is answered, with items that can be listed and for nothing but what it asks
for; and for some ids the answer depends only on what is asked for among these. -/
structure LocalTo (ids : List QueryId) (answer : Request → Outcome) : Prop where
  answers : ∀ q, ∃ reply items, answer q = .ok reply ∧ reply.listItems = .ok items
  onlyAsked : ∀ q reply, answer q = .ok reply → ∀ x, x ∉ q.ids →
    reply.items.get? x = none ∧ (reply.nextCursors.get? x).join = none
  agree : ∀ q q' reply reply', answer q = .ok reply → answer q' = .ok reply' →
    q.AgreeOn {x | x ∈ ids} q' → reply.AgreeOn {x | x ∈ ids} reply'

/-- The tree under an id: the id, and what is below it. -/
def Forest.tree (f : Forest) (x : QueryId) : List QueryId := x :: f.descendants x

/-- What is answered for the ids of a tree depends only on what is asked for in this tree. -/
def TreeLocal (f : Forest) (answer : Request → Outcome) : Prop :=
  ∀ r ∈ f.roots, LocalTo (f.tree r) answer

/-! ## Ids that have come to their end -/

namespace Session

variable {s s' : Session} {answer : Request → Outcome} {q : Request}

/-- None of some ids can be advanced any more. -/
structure Quiet (ids : List QueryId) (s : Session) : Prop where
  notNew : s.round.isNew = false
  ineligible : ∀ x ∈ ids, s.round.isEligible x = false

/-- A session asks for something if its round is new or something may be advanced. -/
theorem exists_request? (ht : s.traversal.Own)
    (h : s.round.isNew = true ∨ ∃ x ∈ s.traversal.forest.ids, s.round.isEligible x = true) :
    ∃ q, s.request? = some q := by
  cases hn : s.round.isNew with
  | true =>
    have ho : s.traversal.opening s.round = .asking [] (.full s.traversal.shape) := by
      simp [Traversal.opening, Round.finished, hn]
    exact ⟨_, request?_of_asking ho⟩
  | false =>
    rw [hn] at h
    obtain ⟨x, hx, he⟩ := h.resolve_left Bool.false_ne_true
    obtain ⟨l, hl, -⟩ := ht.exists_leaf hx he
    have hf : s.round.finished = false :=
      Round.finished_eq_false_of_mem ((s.round.isEligible_iff x).1 he).2
    exact ⟨_, request?_of_asking (Traversal.opening_of_leaves hn hf (List.ne_nil_of_mem hl))⟩

namespace Quiet

variable (hs : s.Quiet ids) (ht : s.traversal.Own) (he : s.traversal.Encloses ids)
include hs ht he

/-- They are not asked for: only a leaf among them could touch them. -/
theorem not_mem_ids (hq : s.request? = some q) (hx : x ∈ ids) : x ∉ q.ids := by
  obtain ⟨leaves, ho⟩ := exists_asking hq
  rcases Traversal.opening_eq_asking ho with ⟨hn, -, -⟩ | ⟨-, -, rfl⟩
  · rw [hs.notNew] at hn
    cases hn
  · rw [Request.mem_ids_advancing_iff]
    rintro ⟨-, l, hl, hlx⟩
    rw [ht.sound.mem_descendants] at hlx
    have hmem := (ht.agreeOn_part he).mem_of_touch hx hlx
    have heligible := Round.isEligible_of_mem_leaves hl
    rw [hs.ineligible l hmem] at heligible
    cases heligible

/-- And they stay where they are. -/
theorem turn (ha : LocalTo ids answer) : (s.turn answer).call.session.Quiet ids := by
  cases ho : s.traversal.opening s.round with
  | refused =>
    rw [← isFinished_iff_refused] at ho
    unfold Session.turn
    rw [nextPage_of_finished _ ho]
    exact hs
  | closing =>
    rw [(turn_of_closing ho).2.1]
    refine ⟨rfl, fun x _ => ?_⟩
    rw [← Bool.not_eq_true, Round.isEligible_iff]
    exact fun h => absurd h.2 List.not_mem_nil
  | asking leaves q =>
    obtain ⟨reply, items, hr, hi⟩ := ha.answers q
    rw [(turn_of_reply ho hr hi).2.1]
    refine ⟨rfl, fun x hx => ?_⟩
    have hno := (ha.onlyAsked q reply hr x (hs.not_mem_ids ht he (request?_of_asking ho) hx)).2
    rw [← Bool.not_eq_true, Round.isEligible_iff]
    rintro ⟨-, hkey⟩
    obtain ⟨v, hv⟩ := (OrderedMap.mem_keys_iff _ x).1 hkey
    unfold proceed nextRound at hv
    rw [Round.get?_advance, hno] at hv
    split at hv <;> cases hv

end Quiet

end Session

/-! ## One tree beside the whole -/

/-- A call of the whole query shows a call of some of its trees. Either both ask for something and
make a page of the same number, and narrowed to the ids the whole asks for the same sub-queries in
the same order and with the same cursors, has the same leaves in the same order, and the same
items; or the trees ask for nothing, and the whole for none of the ids. -/
inductive Turn.Shows (ids : List QueryId) (u v : Turn) : Prop
  | asked {q q' : Request} {page page' : Page} :
      u.request = some q → v.request = some q' →
      u.call.result = .ok page → v.call.result = .ok page' →
      q.queries.filterKeys ids.contains = q'.queries →
      page.leaves.filter ids.contains = page'.leaves →
      (∀ x, (page.items.filterKeys ids.contains).get? x = page'.items.get? x) →
      page.index = page'.index → Shows ids u v
  | silent : v.request = none → (∀ q, u.request = some q → ∀ x ∈ ids, x ∉ q.ids) → Shows ids u v

namespace Session

variable {s s' : Session} {answer : Request → Outcome} {q' : Request}

/-- A session over some trees stands where the session over the whole query stands with them:
the rounds agree on their ids, or these have come to their end in both. -/
structure Shadows (ids : List QueryId) (s s' : Session) : Prop where
  own : s.traversal.Own
  encloses : s.traversal.Encloses ids
  part : s'.traversal = s.traversal.part ids
  stands : s.AgreeOn {x | x ∈ ids} s' ∨ (s.Quiet ids ∧ s'.request? = none)

namespace Shadows

/-- When the trees ask for nothing, they have come to their end in the whole. -/
theorem quiet (h : s.Shadows ids s') (hq : s'.request? = none) : s.Quiet ids := by
  rcases h.stands with hagree | ⟨hquiet, -⟩
  · have hown : s'.traversal.Own := h.part ▸ h.own.own_part h.encloses
    have hno : ¬ (s'.round.isNew = true ∨
        ∃ x ∈ s'.traversal.forest.ids, s'.round.isEligible x = true) := by
      intro hsome
      obtain ⟨q, hq'⟩ := exists_request? hown hsome
      rw [hq] at hq'
      cases hq'
    rw [not_or] at hno
    refine ⟨hagree.round.isNew.trans (Bool.not_eq_true _ ▸ hno.1), fun x hx => ?_⟩
    rw [hagree.round.isEligible_eq hx, ← Bool.not_eq_true]
    refine fun he => hno.2 ⟨x, ?_, he⟩
    rw [hown.ids_eq, h.part]
    exact (Shape.mem_ids_part _ _).2 ⟨h.encloses.subset x hx, hx⟩
  · exact hquiet

/-- A call in which the trees ask for something. -/
theorem turn_of_request (h : s.Shadows ids s') (ha : LocalTo ids answer)
    (hq' : s'.request? = some q') :
    (s.turn answer).Shows ids (s'.turn answer) ∧
      (s.turn answer).call.session.Shadows ids (s'.turn answer).call.session := by
  -- trees that have come to their end would ask for nothing
  have hagree : s.AgreeOn {x | x ∈ ids} s' := by
    rcases h.stands with hagree | ⟨-, hnone⟩
    · exact hagree
    · rw [hnone] at hq'
      cases hq'
  obtain ⟨leaves', ho'⟩ := exists_asking hq'
  obtain ⟨leaves, q, ho, hq, hqueries, hleaves⟩ :=
    h.own.asking_part h.encloses hagree.round (h.part ▸ ho')
  obtain ⟨reply, items, hr, hi⟩ := ha.answers q
  obtain ⟨reply', items', hr', hi'⟩ := ha.answers q'
  have hreply := ha.agree q q' reply reply' hr hr' hq
  obtain ⟨hreq, hs, hres⟩ := turn_of_reply ho hr hi
  obtain ⟨hreq', hs', hres'⟩ := turn_of_reply ho' hr' hi'
  refine ⟨.asked hreq hreq' hres hres' hqueries hleaves (fun x => ?_)
    (congrArg Nat.cast hagree.roundsRun), ?_⟩
  · show (items.filterKeys ids.contains).get? x = items'.get? x
    rw [OrderedMap.get?_filterKeys]
    by_cases hx : x ∈ ids
    · rw [if_pos (List.contains_iff_mem.2 hx), hreply.get?_listItems hi hi' hx]
    · have hnot : x ∉ q'.ids := by
        intro hmem
        have hids := (Traversal.Own.ids_sublist_of_asking ho').subset hmem
        rw [h.part] at hids
        exact hx ((Shape.mem_ids_part _ _).1 hids).2
      rw [if_neg (by simpa using hx), Reply.get?_listItems hi', (ha.onlyAsked q' _ hr' x hnot).1]
      rfl
  · rw [hs, hs']
    exact ⟨h.own, h.encloses, h.part, .inl (hagree.proceed hreply)⟩

/-- A call in which the trees ask for nothing. -/
theorem turn_of_no_request (h : s.Shadows ids s') (ha : LocalTo ids answer)
    (hq' : s'.request? = none) :
    (s.turn answer).Shows ids (s'.turn answer) ∧
      (s.turn answer).call.session.Shadows ids (s'.turn answer).call.session := by
  have hquiet := h.quiet hq'
  refine ⟨.silent hq' fun q hq x hx => hquiet.not_mem_ids h.own h.encloses hq hx, ?_⟩
  have htrav := s.turn_traversal answer
  have hend : (s'.turn answer).call.session.request? = none :=
    request?_of_finished (isFinished_turn_of_request?_eq_none hq')
  exact ⟨htrav ▸ h.own, htrav ▸ h.encloses, by rw [turn_traversal, turn_traversal, h.part],
    .inr ⟨hquiet.turn h.own h.encloses ha, hend⟩⟩

/-- A run of the whole query shows the run of some of its trees, call by call. -/
theorem shows_history (h : s.Shadows ids s') {answers : List (Request → Outcome)}
    (ha : ∀ a ∈ answers, LocalTo ids a) :
    List.Forall₂ (Turn.Shows ids) (s.history answers) (s'.history answers) := by
  induction answers generalizing s s' with
  | nil => exact .nil
  | cons answer rest ih =>
    obtain ⟨hfirst, hrest⟩ := List.forall_mem_cons.1 ha
    have hturn : (s.turn answer).Shows ids (s'.turn answer) ∧
        (s.turn answer).call.session.Shadows ids (s'.turn answer).call.session := by
      cases hq' : s'.request? with
      | none => exact h.turn_of_no_request hfirst hq'
      | some q' => exact h.turn_of_request hfirst hq'
    exact .cons hturn.1 (ih hturn.2 hrest)

end Shadows

end Session

/-! ## One tree of a forest -/

/-- The tree under a root is a tree of its own. -/
theorem Traversal.Own.encloses_tree {t : Traversal} (ht : t.Own) {r : QueryId}
    (hr : r ∈ t.forest.roots) : t.Encloses (t.forest.tree r) := by
  obtain ⟨hmem, hroot⟩ := (ht.sound.mem_roots r).1 hr
  have htree : ∀ x, x ∈ t.forest.tree r ↔ x = r ∨ r ∈ t.forest.ancestors x := by
    intro x
    unfold Forest.tree
    rw [List.mem_cons, ht.sound.mem_descendants]
  refine ⟨fun x hx => ?_, fun x y hp => ?_⟩
  · rw [← ht.ids_eq]
    rcases (htree x).1 hx with rfl | hx
    · exact hmem
    · exact (ht.sound.mem_ids_of_mem_ancestors hx).2
  · have hne : y ≠ r := by
      rintro rfl
      rw [hroot] at hp
      cases hp
    rw [htree, htree, ht.sound.ancestors_of_parent hp, List.mem_cons, or_iff_right hne]
    exact or_congr_left eq_comm

/-- Trees do not interfere. Let the answers go through the trees of a forest one by one. Then
the run of a query shows the run of the query narrowed to any one of its trees. In every round
in which the narrowed run asks for something the whole does so, too: for the same among the ids
of the tree, in the same order and with the same cursors, and with the same leaves and the same
items. After that no request of the whole names an id of the tree. -/
theorem trees_do_not_interfere {shape : Shape} {t : Traversal}
    (ht : Traversal.ofShape shape = .ok t) {r : QueryId} (hr : r ∈ t.forest.roots)
    (excluded : IdSet) {answers : List (Request → Outcome)}
    (ha : ∀ a ∈ answers, TreeLocal t.forest a) :
    ∃ t', Traversal.ofShape (shape.part (t.forest.tree r)) = .ok t' ∧
      List.Forall₂ (Turn.Shows (t.forest.tree r)) ((Session.start t excluded).history answers)
        ((Session.start t' excluded).history answers) := by
  obtain ⟨hown, rfl⟩ := Traversal.own_of_ofShape ht
  have hencloses := hown.encloses_tree hr
  refine ⟨t.part (t.forest.tree r), (hown.own_part hencloses).ofShape_eq, ?_⟩
  have hshadows : (Session.start t excluded).Shadows (t.forest.tree r)
      (Session.start (t.part (t.forest.tree r)) excluded) :=
    ⟨hown, hencloses, rfl, .inl (.start (hown.agreeOn_part hencloses) excluded)⟩
  exact hshadows.shows_history fun a hmem => ha a hmem r hr

/-- A service that answers each sub-query on its own goes through the trees one by one. -/
theorem treeLocal_replyEach (f : Forest)
    (page : QueryId → Requested → List Json × Option Cursor) :
    TreeLocal f fun q : Request => .ok (q.replyEach page) := by
  refine fun r _ => ⟨fun q => ?_, fun q reply hr x hx => ?_, fun q q' _ _ hr hr' hq => ?_⟩
  · obtain ⟨items, hi⟩ := (Reply.listItems_ok_iff (q.replyEach page)).2 fun v hv => by
      obtain ⟨x, hx⟩ := (OrderedMap.mem_values_iff _).1 hv
      unfold Request.replyEach at hx
      rw [OrderedMap.get?_mapValues] at hx
      obtain ⟨requested, -, rfl⟩ := Option.map_eq_some_iff.1 hx
      exact Option.some_ne_none _
    exact ⟨_, items, rfl, hi⟩
  · cases hr
    have hno : q.queries.get? x = none := (OrderedMap.get?_eq_none_iff _ x).2 hx
    unfold Request.replyEach
    rw [OrderedMap.get?_mapValues, OrderedMap.get?_filterMap, hno]
    exact ⟨rfl, rfl⟩
  · cases hr
    cases hr'
    exact hq.replyEach page

/-- A tree of two sub-queries, and one that consists of a single one declared between them. -/
def twoTrees : Traversal := .ofLinks [("A", none), ("C", none), ("B", some "A")]

/-- In four calls the upper tree comes to its end, the single sub-query in two. -/
theorem trees_do_not_interfere_twoTrees :
    Traversal.ofShape twoTrees.shape = .ok twoTrees ∧
      twoTrees.forest.tree "A" = ["A", "B"] ∧ twoTrees.forest.tree "C" = ["C"] ∧
      (∃ t', Traversal.ofShape (twoTrees.shape.part ["A", "B"]) = .ok t' ∧
        List.Forall₂ (Turn.Shows ["A", "B"])
          ((Session.start twoTrees ∅).history
            (List.replicate 4 fun q => .ok (q.replyEach twoPagesEach)))
          ((Session.start t' ∅).history
            (List.replicate 4 fun q => .ok (q.replyEach twoPagesEach)))) ∧
      ∃ t', Traversal.ofShape (twoTrees.shape.part ["C"]) = .ok t' ∧
        List.Forall₂ (Turn.Shows ["C"])
          ((Session.start twoTrees ∅).history
            (List.replicate 4 fun q => .ok (q.replyEach twoPagesEach)))
          ((Session.start t' ∅).history
            (List.replicate 4 fun q => .ok (q.replyEach twoPagesEach))) := by
  have hok : Traversal.ofShape twoTrees.shape = .ok twoTrees := by decide +kernel
  have hA : twoTrees.forest.tree "A" = ["A", "B"] := by decide +kernel
  have hC : twoTrees.forest.tree "C" = ["C"] := by decide +kernel
  have hlocal : ∀ a ∈ List.replicate 4 fun q : Request => .ok (q.replyEach twoPagesEach),
      TreeLocal twoTrees.forest a := fun a ha =>
    List.eq_of_mem_replicate ha ▸ treeLocal_replyEach _ _
  refine ⟨hok, hA, hC, ?_, ?_⟩
  · rw [← hA]
    exact trees_do_not_interfere hok (by decide +kernel) ∅ hlocal
  · rw [← hC]
    exact trees_do_not_interfere hok (by decide +kernel) ∅ hlocal

end ForestPager
