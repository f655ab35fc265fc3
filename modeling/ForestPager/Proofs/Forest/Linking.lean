import ForestPager.Failure
import ForestPager.Proofs.Forest.Kinship
import ForestPager.Proofs.Forest.Reached
import Mathlib.Data.Fintype.EquivFin

/-!
# Which dependencies form a forest

Linking refuses dependencies for one of two reasons, and names the ids at fault. Some parents
may be unknown. If none is, some ids may not hang on a root; the visit finds them by going down
from the roots, but what it means is said going up: an id is *rooted* when the chain of its
parents comes to an id without a parent. Where all parents are known, an id is not rooted
exactly if that chain runs into a cycle. Anything else is linked as declared.

Results:

* `enumerates_sortIds`: sorting ids that are all different lists them in order.
* `Dependencies.rooted_iff_level`: an id is rooted when it stands at some level.
* `Dependencies.not_rooted_iff_cycle`: what is not rooted stands on a cycle or below one.
* `ofDependencies_eq_error_iff`: when there is no forest, and what is reported.
* `links_exactly_forests`: what linking comes to, for any dependencies.
-/

namespace ForestPager

/-! ## Sorted lists of ids -/

/-- A list names the ids with a property, each once, in order. -/
def Enumerates (ids : List QueryId) (p : QueryId → Prop) : Prop :=
  ids.Pairwise (· < ·) ∧ ∀ x, x ∈ ids ↔ p x

/-- Sorting ids that are all different lists them in order. -/
theorem enumerates_sortIds {ids : List QueryId} {p : QueryId → Prop} (hn : ids.Nodup)
    (h : ∀ x, x ∈ ids ↔ p x) : Enumerates (sortIds ids) p := by
  constructor
  · have hsorted : (sortIds (distinctIds ids)).Pairwise (· < ·) := (IdSet.ofList ids).sorted
    rwa [distinctIds_of_nodup hn] at hsorted
  · intro x
    rw [mem_sortIds, h]

/-! ## Chains of parents -/

namespace Dependencies

variable {deps : Dependencies} {x y p : QueryId}

/-- An id names another one as its parent. -/
def ContinuesFrom (deps : Dependencies) (x p : QueryId) : Prop := deps.get? x = some (some p)

instance (deps : Dependencies) (x p : QueryId) : Decidable (deps.ContinuesFrom x p) :=
  inferInstanceAs (Decidable (_ = _))

/-- The chain of parents from an id comes to an id without a parent. -/
inductive Rooted (deps : Dependencies) : QueryId → Prop
  | root {x : QueryId} : deps.get? x = some none → Rooted deps x
  | child {x p : QueryId} : deps.ContinuesFrom x p → Rooted deps p → Rooted deps x

/-- An id is rooted when it stands at some level. -/
theorem rooted_iff_level : deps.Rooted x ↔ ∃ n, deps.link.Level x n := by
  constructor
  · intro h
    induction h with
    | root hx =>
      refine ⟨0, .root ?_ ?_⟩
      · rw [Forest.ids_link, OrderedMap.mem_keys_iff]
        exact ⟨none, hx⟩
      · rw [Forest.parent?_link, hx]
        rfl
    | child hp _ ih =>
      obtain ⟨n, hn⟩ := ih
      refine ⟨n + 1, .child ?_ hn⟩
      rw [Forest.parent?_link, hp]
      rfl
  · rintro ⟨n, hn⟩
    induction hn with
    | root hx hr =>
      rw [Forest.ids_link, OrderedMap.mem_keys_iff] at hx
      obtain ⟨parent, hparent⟩ := hx
      rw [Forest.parent?_link, hparent, Option.join_some] at hr
      exact .root (hr ▸ hparent)
    | child hp _ ih =>
      rw [Forest.parent?_link, Option.join_eq_some_iff] at hp
      exact .child hp ih

instance (deps : Dependencies) (x : QueryId) : Decidable (deps.Rooted x) :=
  decidable_of_iff (x ∈ deps.reach.visited) (deps.mem_visited_reach.trans rooted_iff_level.symm)

/-- A parent of a rooted id is rooted. -/
theorem Rooted.parent (h : deps.Rooted x) (hp : deps.ContinuesFrom x p) : deps.Rooted p := by
  cases h with
  | root hx => cases hx.symm.trans hp
  | child hp' hr => exact Option.some.inj (Option.some.inj (hp'.symm.trans hp)) ▸ hr

/-- What is above a rooted id is rooted. -/
theorem Rooted.above (h : deps.Rooted x) (hxy : Relation.ReflTransGen deps.ContinuesFrom x y) :
    deps.Rooted y := by
  induction hxy with
  | refl => exact h
  | tail _ hp ih => exact ih.parent hp

/-- No rooted id is above itself. -/
theorem Rooted.not_cycle (h : deps.Rooted x) : ¬ Relation.TransGen deps.ContinuesFrom x x := by
  induction h with
  | root hx =>
    intro hcycle
    obtain ⟨p, hp, -⟩ := Relation.TransGen.head'_iff.1 hcycle
    cases hx.symm.trans hp
  | child hp _ ih =>
    intro hcycle
    obtain ⟨p', hp', hback⟩ := Relation.TransGen.head'_iff.1 hcycle
    obtain rfl := Option.some.inj (Option.some.inj (hp.symm.trans hp'))
    exact ih (.tail' hback hp)

/-- Going on upward from `a`, an id on the way up from `x`, one comes to `b`. -/
def Upward (deps : Dependencies) (x : QueryId) (b a : {y // y ∈ deps.keys}) : Prop :=
  Relation.ReflTransGen deps.ContinuesFrom x a ∧ Relation.TransGen deps.ContinuesFrom a b

/-- A way up that meets no cycle ends, as there are finitely many ids. -/
theorem wellFounded_upward (hno : ∀ c, Relation.ReflTransGen deps.ContinuesFrom x c →
    ¬ Relation.TransGen deps.ContinuesFrom c c) : WellFounded (deps.Upward x) := by
  have htrans : IsTrans _ (deps.Upward x) :=
    ⟨fun _ _ _ hab hbc => ⟨hbc.1, hbc.2.trans hab.2⟩⟩
  have hirrefl : Std.Irrefl (deps.Upward x) := ⟨fun a h => hno a h.1 h.2⟩
  exact Finite.wellFounded_of_trans_of_irrefl _

/-- If the chain of parents from an id meets no cycle, it ends, and it can end only at an id
without a parent. -/
theorem rooted_of_no_cycle (hknown : ∀ y p, deps.ContinuesFrom y p → p ∈ deps.keys)
    (hx : x ∈ deps.keys) (hno : ∀ c, Relation.ReflTransGen deps.ContinuesFrom x c →
      ¬ Relation.TransGen deps.ContinuesFrom c c) : deps.Rooted x := by
  have hall : ∀ a : {y // y ∈ deps.keys}, Relation.ReflTransGen deps.ContinuesFrom x a →
      deps.Rooted a := by
    intro a
    -- by induction from the end of the way up
    induction a using (wellFounded_upward hno).induction with
    | _ a ih =>
      intro hxa
      obtain ⟨parent, hparent⟩ := (OrderedMap.mem_keys_iff deps a).1 a.2
      cases parent with
      | none => exact .root hparent
      | some p =>
        have hp : deps.Rooted p :=
          ih ⟨p, hknown a p hparent⟩ ⟨hxa, .single hparent⟩ (hxa.tail hparent)
        exact .child hparent hp
  exact hall ⟨x, hx⟩ .refl

/-- Where all parents are known, what is not rooted stands on a cycle or below one. -/
theorem not_rooted_iff_cycle (hknown : ∀ y p, deps.ContinuesFrom y p → p ∈ deps.keys)
    (hx : x ∈ deps.keys) :
    ¬ deps.Rooted x ↔ ∃ c, Relation.ReflTransGen deps.ContinuesFrom x c ∧
      Relation.TransGen deps.ContinuesFrom c c := by
  constructor
  · intro h
    by_contra hno
    simp only [not_exists, not_and] at hno
    exact h (rooted_of_no_cycle hknown hx hno)
  · rintro ⟨c, hxc, hcycle⟩ h
    exact (h.above hxc).not_cycle hcycle

/-! ## What is at fault -/

/-- An id is named as a parent and has no entry of its own. -/
def Unknown (deps : Dependencies) (p : QueryId) : Prop :=
  (∃ x, deps.ContinuesFrom x p) ∧ p ∉ deps.keys

/-- The chain of parents from an id with an entry comes to no id without a parent. -/
def Lost (deps : Dependencies) (x : QueryId) : Prop := x ∈ deps.keys ∧ ¬ deps.Rooted x

instance (deps : Dependencies) (x : QueryId) : Decidable (deps.Lost x) :=
  inferInstanceAs (Decidable (_ ∧ _))

theorem mem_referrers (deps : Dependencies) {x : QueryId} :
    x ∈ deps.referrers ↔ ∃ p, deps.get? x = some (some p) ∧ p ∉ deps.keys := by
  simp only [referrers, List.mem_map, List.mem_filter, Prod.exists, exists_and_right,
    exists_eq_right, OrderedMap.get?_eq_some_iff, ← OrderedMap.contains_iff]
  constructor
  · rintro ⟨parent, hmem, hdangling⟩
    cases parent with
    | none => cases hdangling
    | some p => exact ⟨p, hmem, by simpa [isDangling] using hdangling⟩
  · rintro ⟨p, hmem, hp⟩
    exact ⟨some p, hmem, by simpa [isDangling] using hp⟩

theorem nodup_referrers (deps : Dependencies) : deps.referrers.Nodup :=
  (List.filter_sublist.map Prod.fst).nodup deps.nodup_keys

theorem nodup_unknownParents (deps : Dependencies) : deps.unknownParents.Nodup :=
  nodup_distinctIds _

theorem nodup_unreached (deps : Dependencies) : deps.unreached.Nodup :=
  List.filter_sublist.nodup deps.keys_nodup

/-- The referrers are the ids that name an unknown parent. -/
theorem mem_referrers_iff_unknown :
    x ∈ deps.referrers ↔ ∃ p, deps.ContinuesFrom x p ∧ deps.Unknown p := by
  rw [mem_referrers]
  constructor
  · rintro ⟨p, hp, hnot⟩
    exact ⟨p, hp, ⟨x, hp⟩, hnot⟩
  · rintro ⟨p, hp, -, hnot⟩
    exact ⟨p, hp, hnot⟩

/-- What no root leads down to is what does not lead up to a root. -/
theorem mem_unreached_iff_lost : x ∈ deps.unreached ↔ deps.Lost x := by
  rw [mem_unreached, ← rooted_iff_level, Lost]

theorem unknownParents_eq_nil_iff : deps.unknownParents = [] ↔ ∀ p, ¬ deps.Unknown p := by
  rw [List.eq_nil_iff_forall_not_mem]
  exact forall_congr' fun p => not_congr deps.mem_unknownParents

theorem unreached_eq_nil_iff : deps.unreached = [] ↔ ∀ x, ¬ deps.Lost x := by
  rw [List.eq_nil_iff_forall_not_mem]
  exact forall_congr' fun x => not_congr mem_unreached_iff_lost

end Dependencies

/-! ## What linking comes to -/

namespace Forest

/-- When there is no forest, and what is reported. -/
theorem ofDependencies_eq_error_iff {deps : Dependencies} {d : Defect} :
    ofDependencies deps = .error d ↔
      (deps.unknownParents ≠ [] ∧
        d = .unknownParents (sortIds deps.referrers) (sortIds deps.unknownParents)) ∨
      (deps.unknownParents = [] ∧ deps.unreached ≠ [] ∧ d = .cyclic (sortIds deps.unreached)) := by
  unfold ofDependencies
  cases hunknown : deps.unknownParents with
  | cons m ms => simp [Except.error.injEq, eq_comm (a := d)]
  | nil =>
    cases hunreached : deps.unreached with
    | cons x xs => simp [Except.error.injEq, eq_comm (a := d)]
    | nil => simp

/-- The node of an id has the parent that the id names and, in order, the ids that name it. -/
theorem get?_nodes_link {deps : Dependencies} {x : QueryId} {parent : Option QueryId}
    (h : deps.get? x = some parent) :
    deps.link.nodes.get? x =
      some ⟨parent, deps.keys.filter fun c => decide (deps.ContinuesFrom c x)⟩ := by
  show (deps.mapValues _).get? x = _
  rw [OrderedMap.get?_mapValues, h, Option.map_some, childrenOf_eq]
  rfl

/-- Linking accepts the forests and names what keeps other dependencies from being one. If some
parents are unknown, these are reported, and the message names the ids that continue from them,
whether there are cycles or not. If none is, the ids that do not lead up to a root are reported,
which are those on a cycle or below one. If there are none of these either, each id gets its
node: in the order of declaration, with its parent as declared and as children the ids that name
it; and the roots are the ids without a parent. Ids that are reported are sorted. -/
theorem links_exactly_forests (deps : Dependencies) :
    ((∃ p, deps.Unknown p) → ∃ d referrers missing, ofDependencies deps = .error d ∧
      Failure.ofDefect d = .shape ("Sub-queries " ++ Text.quoteList referrers ++
        " continue from unknown sub-queries " ++ Text.quoteList missing) missing ∧
      Enumerates referrers (fun x => ∃ p, deps.ContinuesFrom x p ∧ deps.Unknown p) ∧
      Enumerates missing deps.Unknown) ∧
    ((∀ p, ¬ deps.Unknown p) →
      (∀ x, deps.Lost x ↔ x ∈ deps.keys ∧ ∃ c, Relation.ReflTransGen deps.ContinuesFrom x c ∧
        Relation.TransGen deps.ContinuesFrom c c) ∧
      ((∃ x, deps.Lost x) → ∃ d ids, ofDependencies deps = .error d ∧
        Failure.ofDefect d =
          .shape ("Sub-queries " ++ Text.quoteList ids ++ " form a cycle") ids ∧
        Enumerates ids deps.Lost) ∧
      ((∀ x, ¬ deps.Lost x) → ∃ f, ofDependencies deps = .ok f ∧ f.ids = deps.keys ∧
        (∀ x parent, deps.get? x = some parent → f.nodes.get? x =
          some ⟨parent, deps.keys.filter fun c => decide (deps.ContinuesFrom c x)⟩) ∧
        f.roots = deps.keys.filter fun x => decide (deps.get? x = some none))) := by
  constructor
  · rintro ⟨p, hp⟩
    have hunknown : deps.unknownParents ≠ [] := fun h =>
      Dependencies.unknownParents_eq_nil_iff.1 h p hp
    exact ⟨_, _, _, ofDependencies_eq_error_iff.2 (.inl ⟨hunknown, rfl⟩), rfl,
      enumerates_sortIds deps.nodup_referrers fun _ => Dependencies.mem_referrers_iff_unknown,
      enumerates_sortIds deps.nodup_unknownParents fun _ => deps.mem_unknownParents⟩
  · intro hall
    have hunknown := Dependencies.unknownParents_eq_nil_iff.2 hall
    refine ⟨fun x => ?_, ?_, fun hno => ?_⟩
    · refine and_congr_right fun hx => Dependencies.not_rooted_iff_cycle (fun y p hp => ?_) hx
      exact mem_keys_of_unknownParents hunknown hp
    · rintro ⟨x, hx⟩
      have hlost : deps.unreached ≠ [] := fun h => Dependencies.unreached_eq_nil_iff.1 h x hx
      exact ⟨_, _, ofDependencies_eq_error_iff.2 (.inr ⟨hunknown, hlost, rfl⟩), rfl,
        enumerates_sortIds deps.nodup_unreached fun _ => Dependencies.mem_unreached_iff_lost⟩
    · have hreached := Dependencies.unreached_eq_nil_iff.2 hno
      exact ⟨_, ofDependencies_eq_ok.2 ⟨hunknown, hreached, rfl⟩, ids_link deps,
        fun _ _ => get?_nodes_link, roots_eq deps⟩

/-- Two unknown parents, one of them named twice, beside a cycle of two. -/
def astray : Dependencies :=
  .ofList [("g", some "z"), ("a", some "b"), ("b", some "a"), ("c", some "x"), ("d", none),
    ("e", some "x")]

/-- A cycle of two with an id below it, an id that is its own parent, and a tree. -/
def circular : Dependencies :=
  .ofList [("t", some "d"), ("a", none), ("d", some "c"), ("s", some "s"), ("c", some "d"),
    ("b", some "a")]

/-- Unknown parents come before cycles, what hangs on a cycle is reported with it, and an id may
be declared before its parent. -/
theorem links_exactly_forests_astray_circular :
    (ofDependencies astray = .error (.unknownParents ["c", "e", "g"] ["x", "z"]) ∧
      astray.Lost "a" ∧ Enumerates ["x", "z"] astray.Unknown) ∧
    (ofDependencies circular = .error (.cyclic ["c", "d", "s", "t"]) ∧
      Enumerates ["c", "d", "s", "t"] circular.Lost) ∧
    ∃ f, ofDependencies scattered = .ok f ∧ f.roots = ["a", "f"] ∧
      f.nodes.get? "b" = some ⟨some "a", ["d"]⟩ := by
  have hreferrers : sortIds astray.referrers = ["c", "e", "g"] :=
    sortIds_eq_of_perm (by decide +kernel) (by decide +kernel)
  have hunknown : sortIds astray.unknownParents = ["x", "z"] :=
    sortIds_eq_of_perm (by decide +kernel) (by decide +kernel)
  have hastray : ofDependencies astray = .error _ :=
    ofDependencies_eq_error_iff.2 (.inl ⟨by decide +kernel, rfl⟩)
  rw [hreferrers, hunknown] at hastray
  have hunreached : sortIds circular.unreached = ["c", "d", "s", "t"] :=
    sortIds_eq_of_perm (by decide +kernel) (by decide +kernel)
  have hcircular : ofDependencies circular = .error _ :=
    ofDependencies_eq_error_iff.2 (.inr ⟨by decide +kernel, by decide +kernel, rfl⟩)
  rw [hunreached] at hcircular
  refine ⟨⟨hastray, by decide +kernel, ?_⟩, ⟨hcircular, ?_⟩, ?_⟩
  · obtain ⟨d, _, missing, hd, hfailure, -, hmissing⟩ :=
      (links_exactly_forests astray).1 ⟨"x", ⟨"c", by decide +kernel⟩, by decide +kernel⟩
    obtain rfl := Except.error.inj (hastray.symm.trans hd)
    obtain ⟨-, rfl⟩ := Failure.shape.inj hfailure
    exact hmissing
  · have hknown := Dependencies.unknownParents_eq_nil_iff.1
      (show circular.unknownParents = [] by decide +kernel)
    obtain ⟨d, ids, hd, hfailure, hids⟩ :=
      ((links_exactly_forests circular).2 hknown).2.1 ⟨"t", by decide +kernel⟩
    obtain rfl := Except.error.inj (hcircular.symm.trans hd)
    obtain ⟨-, rfl⟩ := Failure.shape.inj hfailure
    exact hids
  · have hknown := Dependencies.unknownParents_eq_nil_iff.1
      (show scattered.unknownParents = [] by decide +kernel)
    have hreached := Dependencies.unreached_eq_nil_iff.1
      (show scattered.unreached = [] by decide +kernel)
    obtain ⟨f, hf, -, hnodes, hroots⟩ := ((links_exactly_forests scattered).2 hknown).2.2 hreached
    refine ⟨f, hf, hroots.trans (by decide +kernel), ?_⟩
    exact (hnodes "b" (some "a") (by decide +kernel)).trans (by decide +kernel)

end Forest

end ForestPager
