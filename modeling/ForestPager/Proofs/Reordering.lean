import ForestPager.Proofs.Agreement
import ForestPager.Proofs.Attempts
import ForestPager.Proofs.Forest.Linking

/-!
# The order of declaration

A query lists its sub-queries in some order, and so do its forest, the leaves of a round and
the requests. What is fetched does not depend on it. Whether there is a forest, and what is
wrong if there is none, is a matter of look-ups and of sorted lists of ids; and two queries
with the same sub-queries agree on all ids.

Results:

* `Forest.ofDependencies_eq_error_congr`: the same defect in any order.
* `Round.AgreeOn.opening_cases`: rounds that agree on all ids come to the same.
* `Session.AgreeOn.alike_turn`: one call.
* `declaration_order_invisible`: whole runs.
-/

namespace ForestPager

/-! ## Sorted lists of ids -/

/-- Lists with the same members, each once, are the same when sorted. -/
theorem sortIds_eq_of_mem_iff {l l' : List QueryId} (hl : l.Nodup) (hl' : l'.Nodup)
    (h : ∀ x, x ∈ l ↔ x ∈ l') : sortIds l = sortIds l' := by
  have hperm : l.Perm l' := (List.perm_ext_iff_of_nodup hl hl').2 h
  exact sortIds_eq_of_perm (pairwise_sortIds l') (hperm.trans (sortIds_perm l').symm)

/-! ## Defects -/

namespace Dependencies

section Reordered

variable {deps deps' : Dependencies} (h : ∀ x, deps.get? x = deps'.get? x)
include h

theorem mem_keys_congr (x : QueryId) : x ∈ deps.keys ↔ x ∈ deps'.keys := by
  rw [OrderedMap.mem_keys_iff, OrderedMap.mem_keys_iff, h]

theorem mem_referrers_congr (x : QueryId) : x ∈ deps.referrers ↔ x ∈ deps'.referrers := by
  simp only [mem_referrers, h, mem_keys_congr h]

theorem mem_unknownParents_congr (p : QueryId) :
    p ∈ deps.unknownParents ↔ p ∈ deps'.unknownParents := by
  simp only [mem_unknownParents, h, mem_keys_congr h]

/-- An id stands at the same level in any order. -/
theorem level_link_of_level {x : QueryId} {n : ℕ} (hx : deps.link.Level x n) :
    deps'.link.Level x n := by
  refine hx.of_parent?_eq (p := fun _ => True) trivial (fun _ _ _ _ => trivial) ?_ ?_
  · intro y _ hy
    rw [Forest.ids_link] at hy ⊢
    exact (mem_keys_congr h y).1 hy
  · intro y _
    rw [Forest.parent?_link, Forest.parent?_link, h]

theorem mem_unreached_congr (x : QueryId) : x ∈ deps.unreached ↔ x ∈ deps'.unreached := by
  rw [mem_unreached, mem_unreached, mem_keys_congr h]
  refine and_congr_right fun _ => not_congr (exists_congr fun n => ?_)
  exact ⟨level_link_of_level h, level_link_of_level fun y => (h y).symm⟩

end Reordered

end Dependencies

namespace Forest

/-- The same defect is reported in any order. -/
theorem ofDependencies_eq_error_congr {deps deps' : Dependencies}
    (h : ∀ x, deps.get? x = deps'.get? x) (d : Defect) :
    ofDependencies deps = .error d ↔ ofDependencies deps' = .error d := by
  have hunknown : deps.unknownParents = [] ↔ deps'.unknownParents = [] := by
    simp only [List.eq_nil_iff_forall_not_mem, Dependencies.mem_unknownParents_congr h]
  have hunreached : deps.unreached = [] ↔ deps'.unreached = [] := by
    simp only [List.eq_nil_iff_forall_not_mem, Dependencies.mem_unreached_congr h]
  rw [ofDependencies_eq_error_iff, ofDependencies_eq_error_iff, ne_eq, ne_eq, hunknown, hunreached,
    sortIds_eq_of_mem_iff deps.nodup_referrers deps'.nodup_referrers
      (Dependencies.mem_referrers_congr h),
    sortIds_eq_of_mem_iff deps.nodup_unknownParents deps'.nodup_unknownParents
      (Dependencies.mem_unknownParents_congr h),
    sortIds_eq_of_mem_iff deps.nodup_unreached deps'.nodup_unreached
      (Dependencies.mem_unreached_congr h)]

end Forest

/-! ## Rounds that agree on all ids -/

namespace Round.AgreeOn

variable {r r' : Round} {t t' : Traversal}

theorem finished_eq (h : r.AgreeOn .univ r') : r.finished = r'.finished := by
  have hempty : r.cursors.isEmpty = r'.cursors.isEmpty := by
    rw [Bool.eq_iff_iff, OrderedMap.isEmpty_iff, OrderedMap.isEmpty_iff]
    exact forall_congr' fun x => by rw [h.cursors x (Set.mem_univ x)]
  unfold finished
  rw [h.isNew, hempty]

/-- Rounds that agree on all ids come to the same: both are refused, both end the run, or both
ask for the same and with the same leaves. -/
theorem opening_cases (h : r.AgreeOn .univ r') (ht : t.AgreeOn .univ t') :
    (t.opening r = .refused ∧ t'.opening r' = .refused) ∨
      (t.opening r = .closing ∧ t'.opening r' = .closing) ∨
      ∃ leaves q leaves' q', t.opening r = .asking leaves q ∧ t'.opening r' = .asking leaves' q' ∧
        q.AgreeOn .univ q' ∧ ∀ x, x ∈ leaves ↔ x ∈ leaves' := by
  cases ho' : t'.opening r' with
  | refused =>
    refine .inl ⟨?_, rfl⟩
    rw [Traversal.opening_eq_refused_iff] at ho' ⊢
    exact h.finished_eq.trans ho'
  | asking leaves' q' =>
    obtain ⟨leaves, q, ho, hq, hl⟩ := h.asking ht (fun x _ => Set.mem_univ x) ho'
    exact .inr (.inr ⟨leaves, q, leaves', q', ho, rfl, hq, fun x => hl x (Set.mem_univ x)⟩)
  | closing =>
    refine .inr (.inl ⟨?_, rfl⟩)
    cases ho : t.opening r with
    | closing => rfl
    | refused =>
      rw [Traversal.opening_eq_refused_iff, h.finished_eq, ← t'.opening_eq_refused_iff, ho'] at ho
      cases ho
    | asking leaves q =>
      obtain ⟨_, _, hasking, -⟩ := h.symm.asking ht.symm (fun x _ => Set.mem_univ x) ho
      rw [ho'] at hasking
      cases hasking

end Round.AgreeOn

/-! ## Answers that depend on look-ups only -/

/-- Two outcomes are the same but for the order in which they list things. -/
inductive Outcome.Alike : Outcome → Outcome → Prop
  | failure (e : Failure) : Alike (.error e) (.error e)
  | reply {a b : Reply} : a.AgreeOn .univ b → Alike (.ok a) (.ok b)

/-- What is answered depends only on which sub-queries are asked for with which cursors, and
on the parameters. -/
def Unordered (answer : Request → Outcome) : Prop :=
  ∀ q q' : Request, q.AgreeOn .univ q' → Outcome.Alike (answer q) (answer q')

/-- The results of two calls are the same but for order. Of payloads that cannot be gone through
the first one is named, so the two may name different types. -/
inductive Page.SameResult : Except Failure Page → Except Failure Page → Prop
  | page {p p' : Page} : (∀ x, x ∈ p.leaves ↔ x ∈ p'.leaves) →
      (∀ x, p.items.get? x = p'.items.get? x) → p.finished = p'.finished → p.index = p'.index →
      SameResult (.ok p) (.ok p')
  | failure (e : Failure) : SameResult (.error e) (.error e)
  | unlistable (name name' : String) :
      SameResult (.error (.notIterable name)) (.error (.notIterable name'))

/-- Two calls are the same but for order, in what they ask for, what comes out and what session
they leave. -/
structure Turn.Alike (u u' : Turn) : Prop where
  request : Option.Rel (Request.AgreeOn .univ) u.request u'.request
  result : Page.SameResult u.call.result u'.call.result
  session : u.call.session.AgreeOn .univ u'.call.session

theorem Reply.exists_of_listItems_eq_error {reply : Reply} {e : Failure}
    (h : reply.listItems = .error e) : ∃ name, e = .notIterable name := by
  unfold listItems at h
  split at h
  · cases h
    exact ⟨_, rfl⟩
  · cases h

theorem Reply.AgreeOn.listable_iff {a b : Reply} (h : a.AgreeOn .univ b) :
    (∃ items, a.listItems = .ok items) ↔ ∃ items, b.listItems = .ok items := by
  simp only [listItems_ok_iff, OrderedMap.mem_values_iff, h.items _ (Set.mem_univ _)]

/-- Outcomes that are the same but for order both make a page, of items that are the same, or
both make the call fail. -/
theorem Outcome.Alike.cases {o o' : Outcome} (h : Outcome.Alike o o') :
    (∃ a b items items', o = .ok a ∧ o' = .ok b ∧ a.AgreeOn .univ b ∧
        a.listItems = .ok items ∧ b.listItems = .ok items') ∨
      ∃ e e', failure? o = some e ∧ failure? o' = some e' ∧
        Page.SameResult (.error e) (.error e') := by
  cases h with
  | failure e => exact .inr ⟨e, e, rfl, rfl, .failure e⟩
  | @reply a b hab =>
    cases hi : a.listItems with
    | ok items =>
      obtain ⟨items', hi'⟩ := hab.listable_iff.1 ⟨items, hi⟩
      exact .inl ⟨a, b, items, items', rfl, rfl, hab, hi, hi'⟩
    | error e =>
      cases hi' : b.listItems with
      | ok items' =>
        obtain ⟨items, hok⟩ := hab.listable_iff.2 ⟨items', hi'⟩
        rw [hi] at hok
        cases hok
      | error e' =>
        obtain ⟨name, rfl⟩ := Reply.exists_of_listItems_eq_error hi
        obtain ⟨name', rfl⟩ := Reply.exists_of_listItems_eq_error hi'
        refine .inr ⟨_, _, ?_, ?_, .unlistable name name'⟩
        · simp [failure?, hi]
        · simp [failure?, hi']

/-! ## Sessions that agree on all ids -/

namespace Session

variable {s s' : Session} {answer : Request → Outcome}

/-- Calls of sessions that agree on all ids are the same but for order. -/
theorem AgreeOn.alike_turn (h : s.AgreeOn .univ s') (ha : Unordered answer) :
    (s.turn answer).Alike (s'.turn answer) := by
  rcases h.round.opening_cases h.traversal with
    ⟨ho, ho'⟩ | ⟨ho, ho'⟩ | ⟨l, q, l', q', ho, ho', hq, hl⟩
  · rw [← isFinished_iff_refused] at ho ho'
    unfold turn
    rw [nextPage_of_finished _ ho, nextPage_of_finished _ ho', request?_of_finished ho,
      request?_of_finished ho']
    exact ⟨.none, .failure _, h⟩
  · obtain ⟨hreq, hs, hres⟩ := @turn_of_closing s answer ho
    obtain ⟨hreq', hs', hres'⟩ := @turn_of_closing s' answer ho'
    refine ⟨?_, ?_, ?_⟩
    · rw [hreq, hreq']
      exact .none
    · rw [hres, hres']
      exact .page (fun _ => Iff.rfl) (fun _ => rfl) rfl (congrArg Nat.cast h.roundsRun)
    · rw [hs, hs']
      exact h.ended
  · rw [turn_eq_of_asking ho, turn_eq_of_asking ho']
    -- alike outcomes both make a page or both fail, though perhaps at different payloads
    rcases (ha q q' hq).cases with
      ⟨a, b, items, items', hans, hans', hab, hi, hi'⟩ | ⟨e, e', hf, hf', hsame⟩
    · obtain ⟨hreq, hs, hres⟩ := @turn_of_reply s (fun _ => answer q) _ _ _ _ ho hans hi
      obtain ⟨hreq', hs', hres'⟩ := @turn_of_reply s' (fun _ => answer q') _ _ _ _ ho' hans' hi'
      refine ⟨?_, ?_, ?_⟩
      · rw [hreq, hreq']
        exact .some hq
      · rw [hres, hres']
        exact .page hl (fun x => hab.get?_listItems hi hi' (Set.mem_univ x))
          (h.proceed hab).round.finished_eq (congrArg Nat.cast h.roundsRun)
      · rw [hs, hs']
        exact h.proceed hab
    · obtain ⟨hreq, hres, hs⟩ := turn_of_failure (request?_of_asking ho) hf
      obtain ⟨hreq', hres', hs'⟩ := turn_of_failure (request?_of_asking ho') hf'
      refine ⟨?_, ?_, ?_⟩
      · rw [hreq, hreq']
        exact .some hq
      · rw [hres, hres']
        exact hsame
      · rw [hs, hs']
        exact h

/-- Runs of sessions that agree on all ids are the same but for order. -/
theorem AgreeOn.alike_history (h : s.AgreeOn .univ s') {answers : List (Request → Outcome)}
    (ha : ∀ a ∈ answers, Unordered a) :
    List.Forall₂ Turn.Alike (s.history answers) (s'.history answers) := by
  induction answers generalizing s s' with
  | nil => exact .nil
  | cons answer rest ih =>
    obtain ⟨hfirst, hrest⟩ := List.forall_mem_cons.1 ha
    have hturn := h.alike_turn hfirst
    exact .cons hturn (ih hturn.session hrest)

end Session

/-! ## Shapes in another order -/

/-- Queries with the same sub-queries and parameters agree on all ids. -/
theorem Traversal.agreeOn_univ {t t' : Traversal} (ht : t.Own) (ht' : t'.Own)
    (hp : t.shape.parameters = t'.shape.parameters)
    (hq : ∀ x, t.shape.queries.get? x = t'.shape.queries.get? x) : t.AgreeOn .univ t' where
  own := ht
  own' := ht'
  parameters := hp
  subQuery x _ := hq x
  linked _ _ _ := Iff.rfl
  linked' _ _ _ := Iff.rfl

theorem Session.ofShape_eq_error {shape : Shape} {d : Forest.Defect} (h : shape.forest = .error d)
    (excluded : IdSet) : ofShape shape excluded = .error (.shape d.message d.queryIds) := by
  simp [ofShape, Traversal.ofShape, h, Except.map, Failure.ofDefect]

theorem Session.ofShape_eq_ok {shape : Shape} {f : Forest} (h : shape.forest = .ok f)
    (excluded : IdSet) : ofShape shape excluded =
      .ok (start ⟨shape, f⟩ excluded, [.forestBuilt f.size f.roots]) := by
  simp [ofShape, Traversal.ofShape, h, Except.map]

/-- The order of declaration does not change what is fetched. With the same sub-queries and
parameters listed in any two orders, starting a session fails for both, with the same message
and the same ids, or for neither. The two sessions then go on alike against whatever depends
only on what is asked for and not on its order: in every call they ask for the same, with the
same leaves, and come to the same items and to rounds with the same cursors. -/
theorem declaration_order_invisible {shape shape' : Shape}
    (hq : ∀ x, shape.queries.get? x = shape'.queries.get? x)
    (hp : shape.parameters = shape'.parameters) (excluded : IdSet) :
    (∃ message ids, Session.ofShape shape excluded = .error (.shape message ids) ∧
        Session.ofShape shape' excluded = .error (.shape message ids)) ∨
      ∃ s events s' events', Session.ofShape shape excluded = .ok (s, events) ∧
        Session.ofShape shape' excluded = .ok (s', events') ∧
        ∀ answers : List (Request → Outcome), (∀ a ∈ answers, Unordered a) →
          List.Forall₂ Turn.Alike (s.history answers) (s'.history answers) := by
  have hdeps : ∀ x, shape.dependencies.get? x = shape'.dependencies.get? x := by
    intro x
    unfold Shape.dependencies
    rw [OrderedMap.get?_mapValues, OrderedMap.get?_mapValues, hq]
  have herror := Forest.ofDependencies_eq_error_congr hdeps
  cases hf : shape.forest with
  | error d =>
    have hf' : shape'.forest = .error d := (herror d).1 hf
    exact .inl ⟨_, _, Session.ofShape_eq_error hf excluded, Session.ofShape_eq_error hf' excluded⟩
  | ok f =>
    cases hf' : shape'.forest with
    | error d =>
      have hd : shape.forest = .error d := (herror d).2 hf'
      rw [hf] at hd
      cases hd
    | ok f' =>
      refine .inr ⟨_, _, _, _, Session.ofShape_eq_ok hf excluded,
        Session.ofShape_eq_ok hf' excluded, fun answers ha => ?_⟩
      have ht : (⟨shape, f⟩ : Traversal).AgreeOn .univ ⟨shape', f'⟩ :=
        Traversal.agreeOn_univ hf hf' hp hq
      exact (Session.AgreeOn.start ht excluded).alike_history ha

/-- Two pages of every sub-query do not depend on the order in which they are asked for. -/
theorem unordered_twoPagesEach :
    Unordered fun q : Request => .ok (q.replyEach twoPagesEach) :=
  fun _ _ h => .reply (h.replyEach _)

/-- A sub-query that is declared before the one that it continues from, with one between the
two. -/
def childFirst : Shape := .ofLinks [("B", some "A"), ("C", none), ("A", none)]

/-- The same with the declarations the other way round. -/
def parentFirst : Shape := .ofLinks [("A", none), ("C", none), ("B", some "A")]

/-- Four calls, the last of which finishes both runs. -/
theorem declaration_order_invisible_childFirst :
    childFirst.ids = ["B", "C", "A"] ∧ parentFirst.ids = ["A", "C", "B"] ∧
      (∀ x, childFirst.queries.get? x = parentFirst.queries.get? x) ∧
      ∃ s events s' events', Session.ofShape childFirst ∅ = .ok (s, events) ∧
        Session.ofShape parentFirst ∅ = .ok (s', events') ∧
        List.Forall₂ Turn.Alike
          (s.history (List.replicate 4 fun q => .ok (q.replyEach twoPagesEach)))
          (s'.history (List.replicate 4 fun q => .ok (q.replyEach twoPagesEach))) := by
  have hq : ∀ x, childFirst.queries.get? x = parentFirst.queries.get? x := by
    intro x
    simp only [childFirst, parentFirst, Shape.ofLinks, OrderedMap.get?_ofList, List.map_cons,
      List.map_nil, List.reverse_cons, List.reverse_nil, List.nil_append, List.cons_append,
      OrderedMap.lookup_cons_eq]
    grind
  have hno : ∀ e, Session.ofShape childFirst ∅ ≠ .error e := by
    intro e he
    have hok : (Session.ofShape childFirst ∅).isOk = true := by decide +kernel
    rw [he] at hok
    cases hok
  refine ⟨by decide +kernel, by decide +kernel, hq, ?_⟩
  rcases declaration_order_invisible hq rfl ∅ with
    ⟨_, _, he, -⟩ | ⟨s, events, s', events', hs, hs', hall⟩
  · exact absurd he (hno _)
  · exact ⟨s, events, s', events', hs, hs',
      hall _ fun a ha => List.eq_of_mem_replicate ha ▸ unordered_twoPagesEach⟩

end ForestPager
