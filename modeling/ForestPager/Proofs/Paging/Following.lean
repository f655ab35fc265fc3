import ForestPager.Proofs.Paging.Standing
import Mathlib.Data.Nat.Find

/-!
# Sessions follow their standing

Against a service that numbers the pages, a session and its standing go in step: the
leaves are the same, the request submits the cursors of the pages asked for, and the
reply leads to the next standing. When the standing has no leaf the session asks for
nothing any more.

Results:

* `Session.Reaches.step`: one turn.
* `Session.reaches_afterCalls`: any number of turns, as long as the standing has leaves.
* `Session.request?_eq_none_of_not_asks`: the end of a run.
* `Session.exists_request_of_asks`, `Session.asksFor_of_request?`: what is requested.
-/

namespace ForestPager

open Paging

/-! ## Requests of a run fit the shape -/

theorem Request.fits_full {t : Traversal} (ht : t.Own) : (full t.shape).Fits t where
  subQuery x r hr := by
    rw [full, OrderedMap.get?_mapValues, Option.map_eq_some_iff] at hr
    obtain ⟨q, hq, rfl⟩ := hr
    exact hq
  closed x _ y hy := by
    rw [ids_full, ← ht.ids_eq]
    exact (ht.sound.mem_ids_of_mem_ancestors hy).1

theorem Request.fits_advancing {t : Traversal} (ht : t.Own) (r : Round) (leaves : List QueryId) :
    (advancing t.forest t.shape r leaves).Fits t where
  subQuery x r hr := by
    rw [advancing, OrderedMap.get?_filterMap, Option.bind_eq_some_iff] at hr
    obtain ⟨q, hq, hr⟩ := hr
    obtain ⟨c, -, rfl⟩ := Option.map_eq_some_iff.1 hr
    exact hq
  closed x hx y hy := by
    simp only [mem_ids_advancing_iff, ht.sound.mem_descendants] at hx ⊢
    refine ⟨ht.ids_eq ▸ (ht.sound.mem_ids_of_mem_ancestors hy).1, ?_⟩
    obtain ⟨-, l, hl, rfl | hx | hx⟩ := hx
    · exact ⟨x, hl, .inr (.inr hy)⟩
    · exact ⟨l, hl, (ht.sound.ancestors_linear hx hy).imp Eq.symm id⟩
    · exact ⟨l, hl, .inr (.inr (ht.sound.ancestors_trans hy hx))⟩

/-! ## Rounds at a standing -/

/-- The cursors of a round that is not new, and those of the answer before, name the pages of a
standing. -/
structure Round.StandsAt (r : Round) (st : Standing) : Prop where
  notNew : r.isNew = false
  cursors : ∀ x, r.cursors.get? x = (pageCursor (st.cursors x)).map some
  earlier : ∀ x, (r.earlier.get? x).join = pageCursor (st.earlier x)

namespace Round.StandsAt

variable {r : Round} {st : Standing} {g : Paging} {t : Traversal} {x : QueryId}

theorem join_cursors (h : r.StandsAt st) (x : QueryId) :
    (r.cursors.get? x).join = pageCursor (st.cursors x) := by
  rw [h.cursors]
  cases pageCursor (st.cursors x) <;> rfl

theorem mem_keys_iff (h : r.StandsAt st) : x ∈ r.cursors.keys ↔ st.cursors x ≠ 0 := by
  rw [← not_iff_not, not_not, ← OrderedMap.get?_eq_none_iff, h.cursors, Option.map_eq_none_iff,
    pageCursor_eq_none_iff]

theorem mem_leaves_iff (h : r.StandsAt st) (ht : t.Own) (hf : t.forest = g.forest)
    (he : r.excluded = g.excluded) : x ∈ r.leaves t.forest t.within ↔ g.Leaf st x := by
  rw [ht.mem_leaves, Leaf, hf]
  simp only [Bool.eq_false_iff, ne_eq, Round.isEligible_iff, Round.isExcluded, h.mem_keys_iff, he,
    not_and, not_not, and_assoc]

theorem finished_eq_false (h : r.StandsAt st) (hx : st.cursors x ≠ 0) : r.finished = false :=
  finished_eq_false_of_mem (h.mem_keys_iff.2 hx)

/-- The request of a round submits the cursors of the pages asked for. -/
theorem asksFor (h : r.StandsAt st) (ht : t.Own) (hf : t.forest = g.forest)
    (he : r.excluded = g.excluded) :
    (Request.advancing t.forest t.shape r (r.leaves t.forest t.within)).AsksFor (g.asked st) := by
  intro x
  have hleaf : ∀ {y}, y ∈ r.leaves t.forest t.within ↔ g.Leaf st y := h.mem_leaves_iff ht hf he
  by_cases hx : ∃ l, g.Leaf st l ∧ (l = x ∨ l ∈ t.forest.ancestors x ∨ x ∈ t.forest.ancestors l)
  · obtain ⟨l, hl, rfl | hx | hx⟩ := hx
    · rw [ht.submitted?_leaf (hleaf.2 hl), asked_leaf hl, h.join_cursors]
      rfl
    · rw [ht.submitted?_below (hleaf.2 hl) hx, asked_below hl (hf ▸ hx)]
      rfl
    · rw [ht.submitted?_above (hleaf.2 hl) hx, asked_above (hf ▸ ht.sound) hl (hf ▸ hx),
        Round.replayCursor, Round.isExcluded, he, h.earlier]
      split <;> rfl
  · rw [ht.submitted?_elsewhere, asked_elsewhere]
    · rfl
    · intro l hl
      have hno : ¬ (l = x ∨ l ∈ t.forest.ancestors x ∨ x ∈ t.forest.ancestors l) := fun h =>
        hx ⟨l, hl, h⟩
      rwa [not_or, not_or, hf] at hno
    · rintro ⟨l, hl, hlx⟩
      exact hx ⟨l, hleaf.1 hl, hlx.imp_left Eq.symm⟩

end Round.StandsAt

/-- After an answer with the next pages the round stands at them. -/
theorem Round.standsAt_advance {t : Traversal} (ht : t.Own) {g : Paging}
    (hf : t.forest = g.forest) {r : Round} {reply : Reply} {asked : AskedPages}
    (hasked : ∀ x p, asked x = some p → x ∈ g.forest.ids)
    (hr : ∀ x, (reply.nextCursors.get? x).join = pageCursor (offered t.forest g.count asked x))
    {cursors : QueryId → ℕ} (hc : ∀ x, (r.cursors.get? x).join = pageCursor (cursors x)) :
    (r.advance reply.nextCursors t.within).StandsAt (g.standing asked cursors) where
  notNew := rfl
  cursors x := by
    rw [Round.get?_advance, hr, hf]
    split
    · rfl
    · next hw =>
      have hnone : asked x = none := by
        rw [Option.eq_none_iff_forall_ne_some]
        intro p hp
        exact hw (ht.within_iff.2 (hf ▸ hasked x p hp))
      exact congrArg (fun p => (pageCursor p).map some) (offered_of_none hnone).symm
  earlier := hc

/-! ## Sessions -/

namespace Session

variable {s : Session} {g : Paging} {n : ℕ} {answer : Request → Outcome}

/-- A session over the forest of a paging has made the requests below a number and has their
answers: its round is the initial one, or stands where the last answer has led. -/
structure Reaches (s : Session) (g : Paging) (n : ℕ) : Prop where
  own : s.traversal.Own
  forest : s.traversal.forest = g.forest
  excluded : s.round.excluded = g.excluded
  round : match n with
    | 0 => s.round = .initial g.excluded
    | n + 1 => s.round.StandsAt (g.run n)

theorem reaches_start {t : Traversal} (ht : t.Own) (excluded : IdSet) (count : PageCount) :
    (start t excluded).Reaches ⟨t.forest, excluded, count⟩ 0 :=
  ⟨ht, rfl, rfl, rfl⟩

namespace Reaches

/-- The request with which a session that has reached a number goes on. -/
theorem opening (h : s.Reaches g n) (ha : g.Asks n) :
    ∃ leaves q, s.traversal.opening s.round = .asking leaves q ∧ q.Fits s.traversal ∧
      q.AsksFor (g.askedAt n) := by
  cases n with
  | zero =>
    have hround : s.round = .initial g.excluded := h.round
    refine ⟨[], _, ?_, Request.fits_full h.own, fun x => ?_⟩
    · rw [hround, Traversal.opening_initial]
    · by_cases hx : x ∈ g.forest.ids
      · rw [askedAt_zero hx, Request.submitted?_full]
        · rfl
        · rwa [← h.own.ids_eq, h.forest]
      · rw [askedAt, firstAsked, if_neg hx]
        refine Option.eq_none_iff_forall_ne_some.2 fun c hc => hx ?_
        rw [← h.forest, h.own.ids_eq, ← Request.ids_full]
        exact (Request.mem_ids_iff _).2 ⟨c, hc⟩
  | succ n =>
    have hround : s.round.StandsAt (g.run n) := h.round
    obtain ⟨l, hl⟩ := ha
    refine ⟨_, _, Traversal.opening_of_leaves hround.notNew (hround.finished_eq_false hl.2.2.1) ?_,
      Request.fits_advancing h.own _ _, hround.asksFor h.own h.forest h.excluded⟩
    exact List.ne_nil_of_mem ((hround.mem_leaves_iff h.own h.forest h.excluded).2 hl)

/-- One turn makes the next request and takes the session one request further. -/
theorem step (h : s.Reaches g n) (ha : g.Asks n)
    (hans : ∀ q, s.request? = some q → Paginates s.traversal g.count q (answer q)) :
    ∃ leaves q reply items, s.traversal.opening s.round = .asking leaves q ∧
      q.Fits s.traversal ∧ q.AsksFor (g.askedAt n) ∧ answer q = .ok reply ∧
      reply.listItems = .ok items ∧ (s.turn answer).call.session.Reaches g (n + 1) := by
  obtain ⟨leaves, q, hq, hfits, hasks⟩ := h.opening ha
  obtain ⟨reply, items, hr, hi, hnext⟩ :=
    hans q (request?_of_asking hq) _ hfits hasks (genuine_askedAt n)
  refine ⟨leaves, q, reply, items, hq, hfits, hasks, hr, hi, ?_⟩
  rw [(turn_of_reply hq hr hi).2.1]
  refine ⟨h.own, h.forest, h.excluded, ?_⟩
  have hids : ∀ x p, g.askedAt n x = some p → x ∈ g.forest.ids := fun x p =>
    mem_ids_of_asked (h.forest ▸ h.own.sound)
  cases n with
  | zero =>
    have hround : s.round = .initial g.excluded := h.round
    exact Round.standsAt_advance h.own h.forest hids hnext fun x => by rw [hround]; rfl
  | succ n =>
    have hround : s.round.StandsAt (g.run n) := h.round
    exact Round.standsAt_advance h.own h.forest hids hnext hround.join_cursors

/-- Without a leaf the session is finished or ends without a request. -/
theorem stops (h : s.Reaches g n) (ha : ¬ g.Asks n) :
    s.isFinished = true ∨ s.traversal.opening s.round = .closing := by
  cases n with
  | zero => exact absurd trivial ha
  | succ n =>
    have hround : s.round.StandsAt (g.run n) := h.round
    cases hf : s.round.finished with
    | true => exact .inl hf
    | false =>
      refine .inr (Traversal.opening_of_no_leaves hround.notNew hf ?_)
      refine List.eq_nil_iff_forall_not_mem.2 fun l hl => ha ⟨l, ?_⟩
      exact (hround.mem_leaves_iff h.own h.forest h.excluded).1 hl

end Reaches

/-! ## Runs -/

/-- The session after a number of calls, each with its own way of answering. -/
def afterCalls (s : Session) (answers : ℕ → Request → Outcome) (n : ℕ) : Session :=
  s.after ((List.range n).map answers)

theorem afterCalls_succ (s : Session) (answers : ℕ → Request → Outcome) (n : ℕ) :
    s.afterCalls answers (n + 1) = ((s.afterCalls answers n).turn (answers n)).call.session := by
  rw [afterCalls, List.range_succ, List.map_append, after_append]
  rfl

/-- A session that asks for nothing is finished after the next call. -/
theorem isFinished_turn_of_request?_eq_none (h : s.request? = none) :
    (s.turn answer).call.session.isFinished = true := by
  cases ho : s.traversal.opening s.round with
  | refused =>
    have hf := (isFinished_iff_refused s).2 ho
    rw [turn, nextPage_of_finished _ hf]
    exact hf
  | closing =>
    rw [(turn_of_closing ho).2.1]
    rfl
  | asking leaves q => rw [request?_of_asking ho] at h; cases h

variable {answers : ℕ → Request → Outcome}

theorem request?_afterCalls_eq_none {m : ℕ} (hmn : m ≤ n)
    (h : (s.afterCalls answers m).request? = none) : (s.afterCalls answers n).request? = none := by
  induction hmn with
  | refl => exact h
  | @step n _ ih =>
    rw [afterCalls_succ]
    exact request?_of_finished (isFinished_turn_of_request?_eq_none ih)

variable {t : Traversal} {excluded : IdSet} {count : PageCount}

/-- As long as there are leaves, the calls go in step with the standing. -/
theorem reaches_afterCalls (ht : t.Own) (hans : ∀ n q, Paginates t count q (answers n q))
    (h : ∀ k < n, (⟨t.forest, excluded, count⟩ : Paging).Asks k) :
    ((start t excluded).afterCalls answers n).Reaches ⟨t.forest, excluded, count⟩ n := by
  induction n with
  | zero => exact reaches_start ht excluded count
  | succ n ih =>
    have hreach := ih fun k hk => h k (by omega)
    rw [afterCalls_succ]
    have htrav : ((start t excluded).afterCalls answers n).traversal = t := after_traversal _ _
    obtain ⟨-, -, -, -, -, -, -, -, -, hnext⟩ :=
      hreach.step (h n (by omega)) (by rw [htrav]; exact fun q _ => hans n q)
    exact hnext

/-- When the standing has stopped, the session asks for nothing. -/
theorem request?_eq_none_of_not_asks (ht : t.Own)
    (hans : ∀ n q, Paginates t count q (answers n q))
    (h : ¬ (⟨t.forest, excluded, count⟩ : Paging).Asks n) :
    ((start t excluded).afterCalls answers n).request? = none := by
  classical
  let g : Paging := ⟨t.forest, excluded, count⟩
  have hex : ∃ k, ¬ g.Asks k := ⟨n, h⟩
  have hreach := reaches_afterCalls ht hans fun k hk => not_not.1 (Nat.find_min hex hk)
  refine request?_afterCalls_eq_none (Nat.find_min' hex h) ?_
  rcases hreach.stops (Nat.find_spec hex) with hf | hc
  · exact request?_of_finished hf
  · rw [request?, hc]

/-- As long as there are leaves, the session requests the pages asked for. -/
theorem exists_request_of_asks (ht : t.Own) (hans : ∀ n q, Paginates t count q (answers n q))
    (h : (⟨t.forest, excluded, count⟩ : Paging).Asks n) :
    ∃ q, ((start t excluded).afterCalls answers n).request? = some q ∧
      q.AsksFor ((⟨t.forest, excluded, count⟩ : Paging).askedAt n) := by
  obtain ⟨leaves, q, hq, -, hasks⟩ :=
    (reaches_afterCalls ht hans fun k hk => h.mono (Nat.le_of_lt hk)).opening h
  exact ⟨q, request?_of_asking hq, hasks⟩

/-- Whatever a session requests are the pages asked for. -/
theorem asksFor_of_request? (ht : t.Own) (hans : ∀ n q, Paginates t count q (answers n q))
    {q : Request} (hq : ((start t excluded).afterCalls answers n).request? = some q) :
    q.AsksFor ((⟨t.forest, excluded, count⟩ : Paging).askedAt n) := by
  by_cases h : (⟨t.forest, excluded, count⟩ : Paging).Asks n
  · obtain ⟨q', hq', hasks⟩ := exists_request_of_asks ht hans h
    obtain rfl := Option.some.inj (hq'.symm.trans hq)
    exact hasks
  · rw [request?_eq_none_of_not_asks ht hans h] at hq
    cases hq

end Session

end ForestPager
