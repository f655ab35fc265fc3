import ForestPager.Gather.Identity
import ForestPager.Proofs.Paging.Calls
import ForestPager.Proofs.Paging.Clock
import ForestPager.Proofs.Paging.Numbered
import ForestPager.Proofs.Paging.Seen
import ForestPager.Proofs.Replay
import Mathlib.Data.List.Basic

/-!
# Gathering all items of fixed numbers of pages

When the numbers of pages of the in-memory backend do not depend on anything, gathering
all items, the whole item being its key, returns the items of all pages of each sub-query,
from the first page to the last one, and each item once. Replayed pages bring nothing
new: the keys met so far are those of the pages seen.

Results:

* `itemText_injective`: the items of a sub-query can be told apart.
* `gatherPage_of_asked`: what is kept of the pages of one answer.
* `Session.Reaches.gathersFrom`: what is gathered from a request on.
* `gathers_pages`: what is gathered altogether.
-/

namespace ForestPager

/-! ## Items -/

/-- The text of an item. -/
def itemText (x : QueryId) (p i : ℕ) : String :=
  x ++ "-" ++ toString (p : ℤ) ++ "-" ++ toString i

/-- The key of an item. -/
def itemKey (x : QueryId) (p i : ℕ) : ItemKey := .single (.text (itemText x p i))

variable {b : Paged} {x : QueryId} {p i p' i' : ℕ}

theorem toList_itemText (x : QueryId) (p i : ℕ) : (itemText x p i).toList =
    (x.toList ++ ['-']) ++ ((toString p).toList ++ '-' :: (toString i).toList) := by
  have hp : toString (p : ℤ) = toString p := rfl
  simp only [itemText, hp, String.toList_append, List.append_assoc]
  rfl

theorem dash_notMem_toString (n : ℕ) : '-' ∉ (toString n).toList := by
  intro h
  rw [Nat.toString_eq_repr, Nat.toList_repr] at h
  exact absurd (Nat.isDigit_of_mem_toDigits (by decide) (by decide) h) (by decide)

/-- The items of a sub-query can be told apart. -/
theorem itemText_injective (h : itemText x p i = itemText x p' i') : p = p' ∧ i = i' := by
  rw [← String.toList_inj, toList_itemText, toList_itemText, List.append_cancel_left_eq,
    List.append_cons_inj_of_notMem (dash_notMem_toString p) (dash_notMem_toString i)] at h
  exact ⟨toString_injective (String.toList_inj.1 h.1),
    toString_injective (String.toList_inj.1 h.2.2)⟩

theorem itemKey_eq_iff : itemKey x p i = itemKey x p' i' ↔ p = p' ∧ i = i' := by
  constructor
  · intro h
    exact itemText_injective (Scalar.text.inj (ItemKey.single.inj h))
  · rintro ⟨rfl, rfl⟩
    rfl

/-- What the items of the backend are told apart by. -/
def textKey : Json → ItemKey
  | .str s => .single (.text s)
  | _ => .single .null

theorem key_of_mem_pageItems {v : Json} (h : v ∈ b.pageItems x p) :
    Identity.whole.key v = .ok (textKey v) := by
  obtain ⟨i, -, rfl⟩ := List.mem_map.1 h
  rfl

theorem map_textKey_pageItems (b : Paged) (x : QueryId) (p : ℕ) :
    (b.pageItems x p).map textKey = (List.range b.pageSize).map (itemKey x p) := by
  rw [Paged.pageItems, List.map_map]
  rfl

/-! ## What is kept of the pages of one answer -/

/-- The keys met are those of the pages seen. -/
def MetSeen (b : Paged) (met : KeysMet ItemKey) (seen : QueryId → ℕ) : Prop :=
  ∀ x c, c ∈ (met.get? x).getD [] ↔ ∃ p < seen x, ∃ i < b.pageSize, c = itemKey x p i

theorem metSeen_empty : MetSeen b ∅ fun _ => 0 := fun x c => by simp

variable {met : KeysMet ItemKey} {seen : QueryId → ℕ}

/-- Nothing is kept of a page that was seen. -/
theorem keepFirst_of_lt_seen (hmet : MetSeen b met seen) (hp : p < seen x) :
    keepFirst Identity.whole.key ((met.get? x).getD []) (b.pageItems x p) =
      .ok ((met.get? x).getD [], []) := by
  refine keepFirst_of_met fun v hv => ⟨textKey v, ?_, key_of_mem_pageItems hv⟩
  have hc := List.mem_map_of_mem (f := textKey) hv
  rw [map_textKey_pageItems] at hc
  obtain ⟨i, hi, hkey⟩ := List.mem_map.1 hc
  exact (hmet x _).2 ⟨p, hp, i, List.mem_range.1 hi, hkey.symm⟩

/-- All is kept of the page that comes next. -/
theorem keepFirst_of_eq_seen (hmet : MetSeen b met seen) :
    keepFirst Identity.whole.key ((met.get? x).getD []) (b.pageItems x (seen x)) =
      .ok (((List.range b.pageSize).map (itemKey x (seen x))).reverse ++ (met.get? x).getD [],
        b.pageItems x (seen x)) := by
  rw [← map_textKey_pageItems]
  refine keepFirst_of_new (fun v => key_of_mem_pageItems) ?_ fun v hv hc => ?_
  · rw [map_textKey_pageItems]
    refine List.nodup_range.map fun i j h => ?_
    exact (itemKey_eq_iff.1 h).2
  · have hc' := List.mem_map_of_mem (f := textKey) hv
    rw [map_textKey_pageItems] at hc'
    obtain ⟨i, -, hi⟩ := List.mem_map.1 hc'
    obtain ⟨p, hp, j, -, hj⟩ := (hmet x _).1 hc
    have := (itemKey_eq_iff.1 (hi.trans hj)).1
    omega

/-- The keys met in a sub-query after an answer, and the items that are kept of it. -/
def keptOf (b : Paged) (met : KeysMet ItemKey) (seen : QueryId → ℕ) (asked : AskedPages)
    (x : QueryId) : List ItemKey × List Json :=
  if asked x = some (seen x) then
    (((List.range b.pageSize).map (itemKey x (seen x))).reverse ++ (met.get? x).getD [],
      b.pageItems x (seen x))
  else ((met.get? x).getD [], [])

theorem mem_keptOf {asked : AskedPages} (hmet : MetSeen b met seen) (x : QueryId) (c : ItemKey) :
    c ∈ (keptOf b met seen asked x).1 ↔
      ∃ p < (if asked x = some (seen x) then seen x + 1 else seen x), ∃ i < b.pageSize,
        c = itemKey x p i := by
  unfold keptOf
  split
  · rw [List.mem_append, List.mem_reverse, hmet x c, List.mem_map]
    constructor
    · rintro (⟨i, hi, rfl⟩ | ⟨p, hp, hc⟩)
      · exact ⟨seen x, by omega, i, List.mem_range.1 hi, rfl⟩
      · exact ⟨p, by omega, hc⟩
    · rintro ⟨p, hp, i, hi, rfl⟩
      by_cases hlt : p < seen x
      · exact .inr ⟨p, hlt, i, hi, rfl⟩
      · obtain rfl : p = seen x := by omega
        exact .inl ⟨i, List.mem_range.2 hi, rfl⟩
  · exact hmet x c

/-- Of the pages of an answer those that come next are kept. -/
theorem gatherPage_of_asked {asked : AskedPages} (hle : ∀ x p, asked x = some p → p ≤ seen x)
    (hmet : MetSeen b met seen) {items : Items}
    (hitems : ∀ x, items.get? x = (asked x).map fun p : ℕ => b.pageItems x p) :
    ∃ met' kept, gatherPage (some Identity.whole.key) met items = .ok (met', kept) ∧
      kept.keys = items.keys ∧
      (∀ x, (kept.get? x).getD [] =
        if asked x = some (seen x) then b.pageItems x (seen x) else []) ∧
      MetSeen b met' fun x => if asked x = some (seen x) then seen x + 1 else seen x := by
  have hkeep : ∀ x vs, items.get? x = some vs →
      keepFirst Identity.whole.key ((met.get? x).getD []) vs = .ok (keptOf b met seen asked x) := by
    intro x vs hvs
    rw [hitems, Option.map_eq_some_iff] at hvs
    obtain ⟨p, hp, rfl⟩ := hvs
    -- a page is the next one, or all its keys have been met
    by_cases hnew : p = seen x
    · rw [hnew, keepFirst_of_eq_seen hmet, keptOf, if_pos (hnew ▸ hp)]
    · have hlt : p < seen x := Nat.lt_of_le_of_ne (hle x p hp) hnew
      rw [keepFirst_of_lt_seen hmet hlt, keptOf, if_neg]
      exact fun h => hnew (Option.some.inj (hp.symm.trans h))
  obtain ⟨met', hgather, hmet'⟩ := gatherPage_of_forall hkeep
  refine ⟨met', _, hgather, OrderedMap.keys_mapValues _ _, fun x => ?_, fun x c => ?_⟩
  · rw [OrderedMap.get?_mapValues, hitems, Option.map_map]
    cases ha : asked x with
    | none => rfl
    | some p =>
      rw [Option.map_some, Option.getD_some, keptOf, ha]
      split <;> rfl
  · rw [← mem_keptOf hmet, hmet']
    split
    · rfl
    · next hx =>
      have hnone : asked x = none := by
        rw [← OrderedMap.get?_eq_none_iff, hitems, Option.map_eq_none_iff] at hx
        exact hx
      rw [keptOf, if_neg]
      simp [hnone]

/-! ## Runs -/

namespace Session

variable {σ : Type} {fetch : Request → StateM σ Outcome} {s : Session} {g : Paging} {n : ℕ}

/-- The items of the pages of a sub-query from one on, up to another one. -/
def pagesFrom (b : Paged) (x : QueryId) (lo hi : ℕ) : List Json :=
  (List.range' lo (hi - lo)).flatMap fun p : ℕ => b.pageItems x p

theorem pagesFrom_self (b : Paged) (x : QueryId) (p : ℕ) : pagesFrom b x p p = [] := by
  simp [pagesFrom]

theorem pagesFrom_of_lt (h : p < p') :
    pagesFrom b x p p' = b.pageItems x p ++ pagesFrom b x (p + 1) p' := by
  have hlen : p' - p = p' - (p + 1) + 1 := by omega
  rw [pagesFrom, hlen, List.range'_succ, List.flatMap_cons]
  rfl

section Backend

variable (hb : b.Readable) (hcount : g.count = b.pages)
  (hfetch : ∀ q st, ((fetch q).run st).1 = b.answer q)

include hb hcount hfetch

theorem serves_of_answer {t : Traversal} (ht : t.Own) : Serves fetch t g.count := fun q st => by
  rw [hfetch, hcount]
  exact b.paginates ht hb q

namespace Reaches

/-- The items on the page of a call are those of the pages that its request asks for. -/
theorem items_eq (h : s.Reaches g n) (ha : g.Asks n) {st st' : σ} {call : Call} {page : Page}
    (hcall : (s.nextPage fetch).run st = (call, st')) (hpage : call.result = .ok page) :
    ∃ q, s.request? = some q ∧ q.AsksFor (g.askedAt n) ∧
      page.items = q.queries.mapValues fun x _ => b.pageItems x (b.pageIn q x) := by
  obtain ⟨q, reply, hq, -, hasks, hr, hi⟩ :=
    h.request_of_page ha (serves_of_answer hb hcount hfetch h.own) hcall hpage
  rw [hfetch, Paged.answer_eq hb (hcount ▸ Paging.genuine_askedAt n) hasks, Except.ok.injEq] at hr
  rw [← hr, Paged.listItems_answer, Except.ok.injEq] at hi
  exact ⟨q, hq, hasks, hi.symm⟩

theorem get?_items (h : s.Reaches g n) (ha : g.Asks n) {st st' : σ} {call : Call} {page : Page}
    (hcall : (s.nextPage fetch).run st = (call, st')) (hpage : call.result = .ok page)
    (x : QueryId) : page.items.get? x = (g.askedAt n x).map fun p : ℕ => b.pageItems x p := by
  obtain ⟨q, -, hasks, hitems⟩ := h.items_eq hb hcount hfetch ha hcall hpage
  rw [hitems, OrderedMap.get?_mapValues]
  cases hq : q.queries.get? x with
  | none =>
    have hx := hasks x
    rw [Request.submitted?, hq, Option.map_none, eq_comm, Option.map_eq_none_iff] at hx
    rw [hx]
    rfl
  | some r =>
    obtain ⟨p, hp, -⟩ := hasks.get? hq
    rw [hp, Option.map_some, Option.map_some,
      Paged.pageIn_of_asksFor hb (hcount ▸ Paging.genuine_askedAt n) hasks hp]

theorem mem_keys_items (h : s.Reaches g n) (ha : g.Asks n) {st st' : σ} {call : Call} {page : Page}
    (hcall : (s.nextPage fetch).run st = (call, st')) (hpage : call.result = .ok page)
    (hx : x ∈ page.items.keys) : x ∈ s.traversal.shape.ids := by
  obtain ⟨vs, hvs⟩ := (page.items.mem_keys_iff x).1 hx
  rw [h.get?_items hb hcount hfetch ha hcall hpage, Option.map_eq_some_iff] at hvs
  obtain ⟨p, hp, -⟩ := hvs
  rw [← h.own.ids_eq, h.forest]
  exact Paging.mem_ids_of_asked (h.forest ▸ h.own.sound) hp

/-- The first page lists all sub-queries in order. -/
theorem keys_items_zero (h : s.Reaches g 0) {st st' : σ} {call : Call} {page : Page}
    (hcall : (s.nextPage fetch).run st = (call, st')) (hpage : call.result = .ok page) :
    page.items.keys = s.traversal.shape.ids := by
  obtain ⟨q, hq, -, hitems⟩ := h.items_eq hb hcount hfetch trivial hcall hpage
  have hround : s.round = .initial g.excluded := h.round
  rw [request?, hround, Traversal.opening_initial, Option.some.injEq] at hq
  rw [hitems, OrderedMap.keys_mapValues, ← hq]
  exact Request.ids_full _

end Reaches

end Backend

/-- Items are those of the pages that were not seen before a request; before the first one,
they list all sub-queries in order. -/
structure Remaining (b : Paged) (g : Paging) (ids : List QueryId) (n : ℕ) (items : Items) :
    Prop where
  mem : ∀ x ∈ items.keys, x ∈ ids
  keys : n = 0 → items.keys = ids
  pages : ∀ x ∈ ids, (items.get? x).getD [] = pagesFrom b x (g.seen n x) (g.reach x)

/-- Gathering goes on from a request to the items of the pages that were not seen. -/
def GathersFrom (fetch : Request → StateM σ Outcome) (b : Paged) (g : Paging) (t : Traversal)
    (n : ℕ) (s : Session) (st : σ) : Prop :=
  ∀ met : KeysMet ItemKey, MetSeen b met (g.seen n) → ∃ calls items,
    ((gather fetch (some Identity.whole.key) none calls s met).run st).1.ending = .complete items ∧
    Remaining b g t.shape.ids n items

variable {t : Traversal} {st : σ}

/-- A call whose page has no items adds nothing. -/
theorem GathersFrom.of_empty (hf : s.isFinished = false) {call : Call} {st' : σ} {page : Page}
    (hcall : (s.nextPage fetch).run st = (call, st')) (hpage : call.result = .ok page)
    (hempty : page.items = ∅) (h : GathersFrom fetch b g t n call.session st') :
    GathersFrom fetch b g t n s st := by
  intro met hmet
  obtain ⟨calls, items, hend, hitems⟩ := h met hmet
  have hkeep : gatherPage (some Identity.whole.key) met page.items = .ok (met, ∅) := by
    rw [hempty]
    rfl
  refine ⟨calls + 1, items, ?_, hitems⟩
  rw [run_gather_succ hf hcall hpage hkeep, hend, Ending.after, Items.empty_append]

/-- A call that asks for something adds the items of the pages that are new. -/
theorem GathersFrom.of_request (hb : b.Readable) (hcount : g.count = b.pages)
    (hfetch : ∀ q st, ((fetch q).run st).1 = b.answer q) (hg : g.Fixed) (hr : s.Reaches g n)
    (ha : g.Asks n) (ht : s.traversal = t) {call : Call} {st' : σ} {page : Page}
    (hcall : (s.nextPage fetch).run st = (call, st')) (hpage : call.result = .ok page)
    (h : GathersFrom fetch b g t (n + 1) call.session st') : GathersFrom fetch b g t n s st := by
  intro met hmet
  have hf : g.forest.Sound := hr.forest ▸ hr.own.sound
  have hitems := hr.get?_items hb hcount hfetch ha hcall hpage
  obtain ⟨met', kept, hkeep, hkeys, hkept, hmet'⟩ :=
    gatherPage_of_asked (fun x p => Paging.le_seen_of_asked hg hf) hmet hitems
  obtain ⟨calls, rest, hend, hrest⟩ := h met' hmet'
  refine ⟨calls + 1, kept.append rest, ?_, fun x hx => ?_, ?_, fun x hx => ?_⟩
  · rw [run_gather_succ (hr.not_isFinished ha) hcall hpage hkeep, hend, Ending.after]
  · rcases (Items.mem_keys_append kept rest x).1 hx with hx | hx
    · exact ht ▸ hr.mem_keys_items hb hcount hfetch ha hcall hpage (hkeys ▸ hx)
    · exact hrest.mem x hx
  · rintro rfl
    have hall : kept.keys = t.shape.ids := by
      rw [hkeys, hr.keys_items_zero hb hcount hfetch hcall hpage, ht]
    rw [Items.keys_append_of_subset fun x hx => hall ▸ hrest.mem x hx, hall]
  · rw [Items.getD_append, hkept, hrest.pages x hx]
    have hle := Paging.seen_le_reach (n := n + 1) (x := x) hg hf
    by_cases hnew : g.askedAt n x = some (g.seen n x)
    · rw [Paging.seen_succ_of_new hnew] at hle ⊢
      rw [if_pos hnew, ← pagesFrom_of_lt (by omega)]
    · rw [if_neg hnew, Paging.seen_succ_of_not_new hnew, List.nil_append]

/-- From every request on, what is gathered are the items of the pages not seen before. -/
theorem Reaches.gathersFrom (hb : b.Readable) (hcount : g.count = b.pages)
    (hfetch : ∀ q st, ((fetch q).run st).1 = b.answer q) (hg : g.Fixed) (h : s.Reaches g n)
    (st : σ) : GathersFrom fetch b g s.traversal n s st := by
  have hf : g.forest.Sound := h.forest ▸ h.own.sound
  have hids : s.traversal.shape.ids = g.forest.ids := by rw [← h.own.ids_eq, h.forest]
  obtain ⟨N, hN⟩ := Paging.exists_not_live_of_fixed hg hf
  have hN' : ¬ g.Asks (N + 1) := hN
  refine h.induction_to_end ?_ ?_ (serves_of_answer hb hcount hfetch h.own) hN' rfl st
  · intro n' s' st ha hfin met _
    refine ⟨0, ∅, ?_, by simp, fun hn => ?_, fun x hx => ?_⟩
    · rw [gather_of_finished _ _ _ _ hfin]
      rfl
    · subst hn
      exact absurd trivial ha
    · rw [Paging.seen_eq_reach hg hf (hids ▸ hx) ha, pagesFrom_self]
      rfl
  · intro n n' s st call st' page hnf hcall hpage hcase ih
    rcases hcase with ⟨rfl, hreach, ha, htrav⟩ | ⟨rfl, hempty⟩
    · exact .of_request hb hcount hfetch hg hreach ha htrav hcall hpage ih
    · exact ih.of_empty hnf hcall hpage hempty

end Session

/-! ## All items -/

theorem nodup_pages (b : Paged) (x : QueryId) (n : ℕ) :
    ((List.range n).flatMap fun p : ℕ => b.pageItems x p).Nodup := by
  have htexts : ∀ {p p' : ℕ} {v : Json}, v ∈ b.pageItems x p → v ∈ b.pageItems x p' → p = p' := by
    intro p p' v hv hv'
    obtain ⟨i, -, rfl⟩ := List.mem_map.1 hv
    obtain ⟨i', -, hi'⟩ := List.mem_map.1 hv'
    exact (itemText_injective (Json.str.inj hi')).1.symm
  rw [List.nodup_flatMap]
  refine ⟨fun p _ => ?_, List.nodup_range.imp fun hne v hv hv' => hne (htexts hv hv')⟩
  refine List.nodup_range.map fun i j hij => ?_
  exact (itemText_injective (Json.str.inj hij)).2

/-- The number of pages of a sub-query that are gone through: at least one, and only one
when it is excluded. -/
def pagesGathered (excluded : IdSet) (counts : OrderedMap QueryId ℤ) (x : QueryId) : ℕ :=
  if excluded.contains x then 1 else max 1 ((counts.get? x).getD 1).toNat

theorem readable_ofCounts {counts : OrderedMap QueryId ℤ} {pageSize : ℕ} {limited : Bool}
    (h : limited = true → ∀ n ∈ counts.values, n ≤ ((10 ^ digitsAllowed : ℕ) : ℤ)) :
    { Paged.ofCounts counts pageSize with limited := limited }.Readable := by
  intro hl x above
  show (counts.get? x).getD 1 ≤ _
  cases hx : counts.get? x with
  | none => exact Int.ofNat_le.2 (Nat.pow_pos (by decide))
  | some n => exact h hl n (List.mem_map.2 ⟨_, (counts.get?_eq_some_iff).1 hx, rfl⟩)

/-- With numbers of pages that do not depend on anything, gathering all items lists the
sub-queries in the order of the shape, each with the items of its pages in order and every
item once. Where the digits of a cursor are limited, the numbers of pages have to be small
enough for the limit. -/
theorem gathers_pages {shape : Shape} {t : Traversal} (ht : Traversal.ofShape shape = .ok t)
    (excluded : IdSet) (counts : OrderedMap QueryId ℤ) (pageSize : ℕ) (limited : Bool)
    (hlimited : limited = true → ∀ n ∈ counts.values, n ≤ ((10 ^ digitsAllowed : ℕ) : ℤ))
    {σ : Type} (fetch : Request → StateM σ Outcome)
    (hfetch : ∀ q st, ((fetch q).run st).1 =
      { Paged.ofCounts counts pageSize with limited := limited }.answer q) (st : σ) :
    ∃ items, Gathers shape excluded fetch (some Identity.whole.key) none st (.complete items) ∧
      items.keys = shape.ids ∧
      ∀ x ∈ shape.ids, ∃ vs, items.get? x = some vs ∧ vs.Nodup ∧
        vs = (List.range (pagesGathered excluded counts x)).flatMap fun p : ℕ =>
          (Paged.ofCounts counts pageSize).pageItems x p := by
  obtain ⟨hown, rfl⟩ := Traversal.own_of_ofShape ht
  have hb : { Paged.ofCounts counts pageSize with limited := limited }.Readable :=
    readable_ofCounts hlimited
  have hreach := Session.reaches_start hown excluded
    { Paged.ofCounts counts pageSize with limited := limited }.pages
  have hg : (⟨t.forest, excluded,
      { Paged.ofCounts counts pageSize with limited := limited }.pages⟩ : Paging).Fixed :=
    fun x above => rfl
  obtain ⟨calls, items, hend, hitems⟩ := hreach.gathersFrom hb rfl hfetch hg st ∅ metSeen_empty
  refine ⟨items, ⟨by simp, calls, ?_⟩, hitems.keys rfl, fun x hx => ?_⟩
  · rw [run_gatherAll ht, hend]
  · have hmem : x ∈ items.keys := (hitems.keys rfl).symm ▸ hx
    obtain ⟨vs, hvs⟩ := (items.mem_keys_iff x).1 hmem
    have hpages := hitems.pages x hx
    rw [hvs, Option.getD_some, Session.pagesFrom, Paging.seen_zero, Nat.sub_zero,
      ← List.range_eq_range'] at hpages
    exact ⟨vs, hvs, hpages ▸ nodup_pages _ _ _, hpages⟩

/-- The upper sub-query of `twoLevels` has two pages and the lower one three. -/
theorem gathers_pages_twoLevels :
    ∃ items, Gathers twoLevels.shape ∅ twoAndThree.fetch (some Identity.whole.key) none ()
        (.complete items) ∧
      items.keys = twoLevels.shape.ids ∧
      ∀ x ∈ twoLevels.shape.ids, ∃ vs, items.get? x = some vs ∧ vs.Nodup ∧
        vs = (List.range (pagesGathered ∅ (.ofList [("A", 2), ("B", 3)]) x)).flatMap fun p : ℕ =>
          twoAndThree.pageItems x p :=
  gathers_pages ofShape_twoLevels ∅ (.ofList [("A", 2), ("B", 3)]) 1 true
    (fun _ => by decide +kernel) _ (fun _ _ => rfl) ()

end ForestPager
