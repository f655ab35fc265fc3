import ForestPager.Backend.Paged
import ForestPager.Proofs.Numerals
import ForestPager.Proofs.Paging.Following

/-!
# The backend of numbered pages numbers its pages

The in-memory backend answers every request of a run with the next pages. It finds the
sub-queries above one in the request itself, and reads the page from the text of the
cursor; where the number of digits of a cursor is limited, the numbers of pages have to
be small enough for the limit.

Results:

* `pageCursor_injective`: two pages do not have the same cursor.
* `Paged.pageIn_of_asksFor`: the page of a cursor is read back.
* `Paged.above_eq_ancestors`: what is above a sub-query in the request.
* `Paged.answer_eq`: the answer to a request of a run.
* `Paged.paginates`: it offers the next pages.
-/

namespace ForestPager

theorem pageCursor_injective {p p' : ℕ} (h : pageCursor p = pageCursor p') : p = p' := by
  cases p with
  | zero => exact (pageCursor_eq_none_iff.1 h.symm).symm
  | succ p =>
    cases p' with
    | zero => exact absurd h (by simp [pageCursor])
    | succ p' =>
      have hvalue := congrArg Cursor.value (Option.some.inj h)
      exact toString_injective (Json.str.inj hvalue)

/-- The cursor submitted for an id that is asked for. -/
theorem Request.AsksFor.get? {q : Request} {asked : AskedPages} (h : q.AsksFor asked)
    {x : QueryId} {r : Requested} (hr : q.queries.get? x = some r) :
    ∃ p, asked x = some p ∧ r.cursor = pageCursor p := by
  have hx := h x
  rw [submitted?, hr, Option.map_some] at hx
  cases ha : asked x with
  | none => simp [ha] at hx
  | some p => exact ⟨p, rfl, by simpa [ha] using hx⟩

theorem Request.AsksFor.mem_ids {q : Request} {asked : AskedPages} (h : q.AsksFor asked)
    {x : QueryId} {p : ℕ} (ha : asked x = some p) : x ∈ q.ids := by
  rw [Request.mem_ids_iff, h x, ha]
  exact ⟨_, rfl⟩

/-- A climb looks only at the ids that it passes. -/
theorem climb_congr {up up' : QueryId → Option QueryId} {n : ℕ} {x : QueryId}
    (h : ∀ y ∈ x :: climb up n x, up' y = up y) : climb up' n x = climb up n x := by
  induction n generalizing x with
  | zero => rfl
  | succ n ih =>
    have hx := h x List.mem_cons_self
    cases hup : up x with
    | none => rw [climb_of_none hup, climb_of_none (hx.trans hup)]
    | some p =>
      rw [climb_of_some hup] at h ⊢
      rw [climb_of_some (hx.trans hup), ih fun y hy => h y (List.mem_cons_of_mem _ hy)]

namespace Paged

variable {b : Paged} {t : Traversal} {q : Request} {asked : AskedPages} {x : QueryId} {p : ℕ}

/-- The backend as a service that has no state. -/
def fetch (b : Paged) (q : Request) : StateM Unit Outcome := pure (b.answer q)

/-- The numbers of pages of a backend; none where it is negative. -/
def pages (b : Paged) : PageCount := fun x above => (b.count x (above.map Int.ofNat)).toNat

/-- The numbers of pages are small enough for the limit on the digits of a cursor, where
there is one. -/
def Readable (b : Paged) : Prop :=
  b.limited = true → ∀ x above, b.count x above ≤ ((10 ^ digitsAllowed : ℕ) : ℤ)

/-- The page of a cursor is read back. -/
theorem pageOf_pageCursor (h : b.limited = true → p < 10 ^ digitsAllowed) :
    b.pageOf (pageCursor p) = .ok (p : ℤ) := by
  cases p with
  | zero => rfl
  | succ p =>
    show wholeOf b.limited (.str (toString (p + 1))) = _
    rw [wholeOf, readInteger?_toString h]

theorem readable_of_genuine (hb : b.Readable) (hg : Genuine b.pages asked) (ha : asked x = some p)
    (hl : b.limited = true) : p < 10 ^ digitsAllowed := by
  rcases hg x p ha with rfl | ⟨above, hlt⟩
  · exact Nat.pow_pos (by decide)
  · have hle := hb hl x (above.map Int.ofNat)
    rw [pages] at hlt
    have := Int.toNat_le.2 hle
    exact lt_of_lt_of_le hlt this

theorem pageIn_of_asksFor (hb : b.Readable) (hg : Genuine b.pages asked) (hq : q.AsksFor asked)
    (ha : asked x = some p) : b.pageIn q x = p := by
  obtain ⟨c, hc⟩ := (q.mem_ids_iff).1 (hq.mem_ids ha)
  obtain ⟨r, hr, rfl⟩ := Option.map_eq_some_iff.1 hc
  obtain ⟨p', hp', hcur⟩ := hq.get? hr
  obtain rfl : p = p' := Option.some.inj (ha.symm.trans hp')
  rw [pageIn, hr, Option.bind_some, hcur,
    pageOf_pageCursor (readable_of_genuine hb hg ha)]

/-- What is above a sub-query in the request is what is above it in the forest. -/
theorem above_eq_ancestors (ht : t.Own) (hq : q.Fits t) (hx : x ∈ q.ids) :
    above q x = t.forest.ancestors x := by
  have hparent : ∀ y ∈ q.ids, (q.queries.get? y).bind (·.subQuery.source) = t.forest.parent? y := by
    intro y hy
    obtain ⟨r, hr⟩ := (q.queries.mem_keys_iff y).1 hy
    rw [ht.parent?_eq, hq.subQuery y r hr, hr]
    rfl
  have hxf : x ∈ t.forest.ids := by
    obtain ⟨r, hr⟩ := (q.queries.mem_keys_iff x).1 hx
    rw [ht.ids_eq]
    exact (t.shape.queries.mem_keys_iff x).2 ⟨_, hq.subQuery x r hr⟩
  obtain ⟨n, hn⟩ := ht.sound.level x hxf
  have hlen : n ≤ q.size := by
    have hsub := List.subperm_of_subset ht.sound.nodup_ancestors (hq.closed x hx)
    have := hsub.length_le
    rw [hn.ancestors_eq, hn.length_climb, Request.ids, OrderedMap.length_keys] at this
    exact this
  have hclimb : climb t.forest.parent? q.size x = t.forest.ancestors x := by
    rw [hn.climb_eq hlen, hn.ancestors_eq]
  rw [above, ← hclimb]
  refine climb_congr fun y hy => hparent y ?_
  rw [hclimb] at hy
  rcases List.mem_cons.1 hy with rfl | hy
  · exact hx
  · exact hq.closed x hx y hy

/-- The next cursor of a sub-query asked for is that of the page offered. -/
theorem nextCursor_eq (ht : t.Own) (hb : b.Readable) (hg : Genuine b.pages asked) (hfit : q.Fits t)
    (hq : q.AsksFor asked) (ha : asked x = some p) :
    b.nextCursor q x = pageCursor (offered t.forest b.pages asked x) := by
  have hpage := pageIn_of_asksFor hb hg hq ha
  have habove : (above q x).map (b.pageIn q) =
      ((t.forest.ancestors x).map fun y => (asked y).getD 0).map Int.ofNat := by
    rw [above_eq_ancestors ht hfit (hq.mem_ids ha), List.map_map]
    refine List.map_congr_left fun y hy => ?_
    obtain ⟨c, hc⟩ := (q.mem_ids_iff).1 (hfit.closed x (hq.mem_ids ha) y hy)
    obtain ⟨r, hr, -⟩ := Option.map_eq_some_iff.1 hc
    obtain ⟨p', hp', -⟩ := hq.get? hr
    rw [pageIn_of_asksFor hb hg hq hp', Function.comp_apply, hp']
    rfl
  rw [offered_of_some ha, nextCursor, hpage, habove]
  have hiff : ((p : ℤ) + 1 <
      b.count x (((t.forest.ancestors x).map fun y => (asked y).getD 0).map Int.ofNat)) ↔
      p + 1 < b.pages x ((t.forest.ancestors x).map fun y => (asked y).getD 0) := by
    rw [pages, Int.lt_toNat]
    rfl
  by_cases hlt : p + 1 < b.pages x ((t.forest.ancestors x).map fun y => (asked y).getD 0)
  · rw [if_pos hlt, if_pos (hiff.2 hlt)]
    rfl
  · rw [if_neg hlt, if_neg (fun h => hlt (hiff.1 h))]
    rfl

/-- The answer to a request of a run: for each sub-query the items of its page. -/
theorem answer_eq (hb : b.Readable) (hg : Genuine b.pages asked) (hq : q.AsksFor asked) :
    b.answer q = .ok
      { items := q.queries.mapValues fun x _ => .arr (b.pageItems x (b.pageIn q x))
        nextCursors := q.queries.filterMap fun x _ => (b.nextCursor q x).map some } := by
  have hread : b.unreadable? q = none := by
    rw [unreadable?, List.findSome?_eq_none_iff]
    intro r hr
    obtain ⟨⟨x, r⟩, he, rfl⟩ := List.mem_map.1 hr
    obtain ⟨p, hp, hcur⟩ := hq.get? ((q.queries.get?_eq_some_iff).2 he)
    rw [hcur, pageOf_pageCursor (readable_of_genuine hb hg hp)]
  rw [answer, hread]

theorem listItems_answer {items : QueryId → List Json} {next : NextCursors} :
    Reply.listItems ⟨q.queries.mapValues fun x _ => .arr (items x), next⟩ =
      .ok (q.queries.mapValues fun x _ => items x) := by
  have hnone : Reply.unlistable? ⟨q.queries.mapValues fun x _ => .arr (items x), next⟩ = none := by
    rw [Reply.unlistable?, List.find?_eq_none]
    intro v hv
    simp only [OrderedMap.values, OrderedMap.mapValues, List.map_map, List.mem_map,
      Function.comp_apply] at hv
    obtain ⟨e, -, rfl⟩ := hv
    simp [Json.elements?_arr]
  rw [Reply.listItems, hnone]
  refine congrArg Except.ok (OrderedMap.ext ?_)
  simp [OrderedMap.mapValues, Json.elements?_arr]

/-- The backend offers the next pages. -/
theorem paginates (ht : t.Own) (hb : b.Readable) (q : Request) :
    Paginates t b.pages q (b.answer q) := by
  intro asked hfit hq hg
  refine ⟨_, _, answer_eq hb hg hq, listItems_answer, fun x => ?_⟩
  rw [OrderedMap.get?_filterMap]
  cases hr : q.queries.get? x with
  | none =>
    have hnone : asked x = none := by
      have hx := hq x
      rw [Request.submitted?, hr] at hx
      exact (Option.map_eq_none_iff.1 hx.symm)
    rw [offered_of_none hnone]
    rfl
  | some r =>
    obtain ⟨p, hp, -⟩ := hq.get? hr
    rw [Option.bind_some, nextCursor_eq ht hb hg hfit hq hp]
    cases pageCursor (offered t.forest b.pages asked x) <;> rfl

end Paged

end ForestPager
