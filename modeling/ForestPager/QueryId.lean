/-!
# Sub-query ids and sets of them

An id is any text. Lists of ids in messages and reports are sorted by code point.
An `IdSet` is a set of ids, kept as its sorted list.

Results:

* `mem_sortIds`, `pairwise_sortIds`: sorting neither adds nor loses an id, and
  its result is in order.
* `sortIds_eq_of_perm`: there is one way of putting ids in order.
* `distinctIds_append`: each id stands where it first came.
* `IdSet.contains_ofList`: the set of a list has the list's members.
-/

namespace ForestPager

/-- The name of a sub-query. -/
abbrev QueryId := String

/-- Ids in the order of their code points. -/
def sortIds (ids : List QueryId) : List QueryId :=
  ids.mergeSort fun a b => decide (a ≤ b)

theorem sortIds_perm (ids : List QueryId) : (sortIds ids).Perm ids :=
  List.mergeSort_perm ids _

@[simp] theorem mem_sortIds (ids : List QueryId) (x : QueryId) : x ∈ sortIds ids ↔ x ∈ ids :=
  (sortIds_perm ids).mem_iff

theorem pairwise_sortIds (ids : List QueryId) : (sortIds ids).Pairwise (· ≤ ·) := by
  have h := @List.pairwise_mergeSort QueryId (fun a b => decide (a ≤ b))
    (fun a b c hab hbc => by simpa using String.le_trans (by simpa using hab) (by simpa using hbc))
    (fun a b => by simpa using String.le_total a b) ids
  exact h.imp fun hab => by simpa using hab

/-- There is one way of putting ids in order. -/
theorem sortIds_eq_of_perm {ids ordered : List QueryId} (ho : ordered.Pairwise (· ≤ ·))
    (hp : ids.Perm ordered) : sortIds ids = ordered :=
  ((sortIds_perm ids).trans hp).eq_of_pairwise (fun _ _ _ _ => String.le_antisymm)
    (pairwise_sortIds ids) ho

/-- The members of a list, each once, where it first came. -/
def distinctIds (ids : List QueryId) : List QueryId := ids.eraseDups

@[simp] theorem mem_distinctIds (ids : List QueryId) (x : QueryId) :
    x ∈ distinctIds ids ↔ x ∈ ids :=
  List.mem_eraseDups

theorem nodup_distinctIds (ids : List QueryId) : (distinctIds ids).Nodup := by
  induction h : ids.length using Nat.strongRecOn generalizing ids with
  | _ n ih =>
    cases ids with
    | nil => simp [distinctIds]
    | cons x xs =>
      rw [distinctIds, List.eraseDups_cons, List.nodup_cons]
      refine ⟨fun hx => ?_, ih _ ?_ _ rfl⟩
      · rw [List.mem_eraseDups, List.mem_filter] at hx
        simp at hx
      · subst h
        exact Nat.lt_succ_of_le (List.length_filter_le _ _)

theorem distinctIds_cons (x : QueryId) (xs : List QueryId) :
    distinctIds (x :: xs) = x :: distinctIds (xs.filter fun y => !y == x) :=
  List.eraseDups_cons

theorem filter_ne_of_not_mem {x : QueryId} {xs : List QueryId} (h : x ∉ xs) :
    (xs.filter fun y => !y == x) = xs := by
  refine List.filter_eq_self.2 fun y hy => ?_
  have hne : y ≠ x := fun he => h (he ▸ hy)
  simpa using hne

/-- Whether ids are dropped before or after repetitions does not matter. -/
theorem filter_distinctIds (p : QueryId → Bool) (ids : List QueryId) :
    (distinctIds ids).filter p = distinctIds (ids.filter p) := by
  induction h : ids.length using Nat.strongRecOn generalizing ids with
  | _ n ih =>
    cases ids with
    | nil => rfl
    | cons x xs =>
      have hshorter : (xs.filter fun y => !y == x).length < n := by
        subst h
        exact Nat.lt_succ_of_le (List.length_filter_le _ _)
      have hrest : (distinctIds (xs.filter fun y => !y == x)).filter p =
          distinctIds ((xs.filter p).filter fun y => !y == x) := by
        rw [ih _ hshorter _ rfl, List.filter_filter, List.filter_filter]
        simp only [Bool.and_comm]
      rw [distinctIds_cons, List.filter_cons, List.filter_cons, hrest]
      cases hp : p x with
      | true => rw [if_pos rfl, if_pos rfl, distinctIds_cons]
      | false =>
        -- the id that is dropped is none of those that are kept
        have hdropped : x ∉ xs.filter p := fun hx => by simp [hp] at hx
        rw [if_neg Bool.false_ne_true, if_neg Bool.false_ne_true, filter_ne_of_not_mem hdropped]

/-- What comes first stands first, and the rest follows without it. -/
theorem distinctIds_append (first rest : List QueryId) :
    distinctIds (first ++ rest) =
      distinctIds first ++ (distinctIds rest).filter fun x => x ∉ first := by
  have hfilter : rest.removeAll first = rest.filter fun x => x ∉ first := by
    rw [List.removeAll]
    exact List.filter_congr fun x _ => by simp
  have happend : distinctIds (first ++ rest) =
    distinctIds first ++ distinctIds (rest.removeAll first) := List.eraseDups_append
  rw [happend, hfilter, filter_distinctIds]

theorem distinctIds_of_nodup {ids : List QueryId} (h : ids.Nodup) : distinctIds ids = ids := by
  induction ids with
  | nil => rfl
  | cons x xs ih =>
    obtain ⟨hx, hxs⟩ := List.nodup_cons.1 h
    rw [distinctIds_cons, filter_ne_of_not_mem hx, ih hxs]

/-- A set of ids, listed in sorted order. -/
structure IdSet where
  members : List QueryId
  sorted : members.Pairwise (· < ·)
deriving DecidableEq

namespace IdSet

/-- The ids of a list as a set. -/
def ofList (ids : List QueryId) : IdSet where
  members := sortIds (distinctIds ids)
  sorted := by
    have hn : (sortIds (distinctIds ids)).Nodup :=
      (sortIds_perm _).nodup_iff.2 (nodup_distinctIds ids)
    exact (pairwise_sortIds _).imp₂ (fun _ _ hle hne => Std.lt_of_le_of_ne hle hne) hn

/-- The set without members. -/
def empty : IdSet := ⟨[], List.Pairwise.nil⟩

instance : EmptyCollection IdSet := ⟨empty⟩

instance : Inhabited IdSet := ⟨empty⟩

/-- Whether an id belongs to the set. -/
def contains (s : IdSet) (x : QueryId) : Bool := s.members.contains x

@[simp] theorem contains_empty (x : QueryId) : (∅ : IdSet).contains x = false := rfl

/-- The set of a list has the list's members. -/
@[simp] theorem contains_ofList (ids : List QueryId) (x : QueryId) :
    (ofList ids).contains x = ids.contains x := by
  rw [Bool.eq_iff_iff]
  simp [contains, ofList]

end IdSet

end ForestPager
