import ForestPager.Gather.Identity
import ForestPager.Proofs.PageByPage
import ForestPager.Proofs.Paging.Numbered
import ForestPager.Proofs.Replay

/-!
# The first item of each key

Gathering with a key function goes through the pages of a run one after the other and keeps, of
each sub-query, the first item of each key. That is the same as putting all pages together
first and then going once through the items of each sub-query. The keys met so far are, for each
sub-query, those of its items on the pages so far; this carries the argument over the items of
a page and over the pages.

Results:

* `firstOfEach_append_singleton`: one more item.
* `exists_keepFirst_eq`, `exists_gatherPage_eq`, `exists_gatherPages_eq`: what is kept of items,
  of a page and of all pages.
* `first_of_each_key`: what gathering all items comes to, without and with a key function.
-/

namespace ForestPager

/-! ## The items of a run -/

/-- The items of a sub-query on some pages, page by page. -/
def itemsOn (pages : List Page) (x : QueryId) : List Json :=
  pages.flatMap fun page => (page.items.get? x).getD []

theorem itemsOn_cons (page : Page) (pages : List Page) (x : QueryId) :
    itemsOn (page :: pages) x = (page.items.get? x).getD [] ++ itemsOn pages x :=
  List.flatMap_cons

section FirstOfEach

variable {κ : Type} [DecidableEq κ] {keyOf : Json → κ} {v : Json} {vs ws : List Json}

/-- The items before which no item has the same key. -/
def firstOfEach (keyOf : Json → κ) (vs : List Json) : List Json :=
  (vs.zipIdx.filter fun e => keyOf e.1 ∉ (vs.take e.2).map keyOf).map Prod.fst

@[simp] theorem firstOfEach_nil : firstOfEach keyOf [] = [] := rfl

/-- One more item is kept exactly if no item before it has its key. -/
theorem firstOfEach_append_singleton (vs : List Json) (v : Json) :
    firstOfEach keyOf (vs ++ [v]) =
      firstOfEach keyOf vs ++ if keyOf v ∈ vs.map keyOf then [] else [v] := by
  have hbefore : (vs.zipIdx.filter fun e => keyOf e.1 ∉ ((vs ++ [v]).take e.2).map keyOf) =
      vs.zipIdx.filter fun e => keyOf e.1 ∉ (vs.take e.2).map keyOf := by
    refine List.filter_congr fun e he => ?_
    have hlt : e.2 ≤ vs.length := Nat.le_of_lt (by simpa using (List.mem_zipIdx he).2.1)
    rw [List.take_append_of_le_length hlt]
  unfold firstOfEach
  rw [List.zipIdx_append, List.filter_append, List.map_append, hbefore]
  congr 1
  by_cases hmem : keyOf v ∈ vs.map keyOf <;> simp [hmem]

/-- What is kept of items, given the keys of the items before them. -/
theorem exists_keepFirst_eq {k : Json → Except Failure κ} (hk : ∀ v ∈ vs, k v = .ok (keyOf v))
    {met : List κ} (hmet : ∀ c, c ∈ met ↔ c ∈ ws.map keyOf) :
    ∃ r, keepFirst k met vs = .ok r ∧ (∀ c, c ∈ r.1 ↔ c ∈ (ws ++ vs).map keyOf) ∧
      firstOfEach keyOf (ws ++ vs) = firstOfEach keyOf ws ++ r.2 := by
  -- `ws` takes up the items gone through, and `met` holds their keys
  induction vs generalizing met ws with
  | nil => exact ⟨(met, []), rfl, by simpa using hmet, by simp⟩
  | cons v vs ih =>
    obtain ⟨hv, hvs⟩ := List.forall_mem_cons.1 hk
    have hsplit : ws ++ v :: vs = (ws ++ [v]) ++ vs := by simp
    by_cases hm : keyOf v ∈ met
    · have hold : keyOf v ∈ ws.map keyOf := (hmet _).1 hm
      have hmet' : ∀ c, c ∈ met ↔ c ∈ (ws ++ [v]).map keyOf := by
        intro c
        rw [hmet, List.map_append, List.mem_append]
        exact ⟨.inl, fun h => h.elim id fun hc => List.mem_singleton.1 hc ▸ hold⟩
      obtain ⟨r, hr, hkeys, hfirst⟩ := ih hvs hmet'
      refine ⟨r, ?_, by rwa [hsplit], ?_⟩
      · rw [keepFirst_cons_of_mem hv hm, hr]
      · rw [hsplit, hfirst, firstOfEach_append_singleton, if_pos hold, List.append_nil]
    · have hnew : keyOf v ∉ ws.map keyOf := fun h => hm ((hmet _).2 h)
      have hmet' : ∀ c, c ∈ keyOf v :: met ↔ c ∈ (ws ++ [v]).map keyOf := by
        intro c
        rw [List.mem_cons, hmet, List.map_append, List.mem_append, or_comm]
        exact or_congr Iff.rfl List.mem_singleton.symm
      obtain ⟨r, hr, hkeys, hfirst⟩ := ih hvs hmet'
      refine ⟨(r.1, v :: r.2), keepFirst_cons_of_not_mem hv hm hr, by rwa [hsplit], ?_⟩
      rw [hsplit, hfirst, firstOfEach_append_singleton, if_neg hnew, List.append_assoc,
        List.singleton_append]

/-- The keys met are, sub-query by sub-query, those of the items `ws`. -/
def KeysMet.AreOf (met : KeysMet κ) (keyOf : Json → κ) (ws : QueryId → List Json) : Prop :=
  ∀ x c, c ∈ (met.get? x).getD [] ↔ c ∈ (ws x).map keyOf

/-- What is kept of a page, given the keys of the items on the pages before it. -/
theorem exists_gatherPage_eq {k : Json → Except Failure κ} {items : Items}
    (hk : ∀ e ∈ items.entries, ∀ v ∈ e.2, k v = .ok (keyOf v)) {met : KeysMet κ}
    {ws : QueryId → List Json} (hmet : met.AreOf keyOf ws) :
    ∃ met' kept, gatherPage (some k) met items = .ok (met', kept) ∧ kept.keys = items.keys ∧
      met'.AreOf keyOf (fun x => ws x ++ (items.get? x).getD []) ∧
      ∀ x, firstOfEach keyOf (ws x ++ (items.get? x).getD []) =
        firstOfEach keyOf (ws x) ++ (kept.get? x).getD [] := by
  have hkeep : ∀ x, ∃ r, keepFirst k ((met.get? x).getD []) ((items.get? x).getD []) = .ok r ∧
      (∀ c, c ∈ r.1 ↔ c ∈ (ws x ++ (items.get? x).getD []).map keyOf) ∧
      firstOfEach keyOf (ws x ++ (items.get? x).getD []) = firstOfEach keyOf (ws x) ++ r.2 := by
    intro x
    refine exists_keepFirst_eq (fun v hv => ?_) (hmet x)
    cases hx : items.get? x with
    | none =>
      rw [hx] at hv
      cases hv
    | some vs =>
      rw [hx] at hv
      exact hk _ (items.get?_eq_some_iff.1 hx) v hv
  choose kept hkept hkeys hfirst using hkeep
  obtain ⟨met', hpage, hmet'⟩ := gatherPage_of_forall fun x vs hx =>
    show keepFirst k ((met.get? x).getD []) vs = .ok (kept x) by
      rw [← hkept x, hx]
      rfl
  refine ⟨met', _, hpage, OrderedMap.keys_mapValues _ _, fun x c => ?_, fun x => ?_⟩
  · rw [hmet']
    split
    · exact hkeys x c
    · next hx =>
      simpa [(items.get?_eq_none_iff x).2 hx] using hmet x c
  · rw [OrderedMap.get?_mapValues]
    cases hx : items.get? x with
    | none => simp
    | some vs =>
      have hkept := hfirst x
      rwa [hx] at hkept

/-- What is kept of pages, given the keys of the items on the pages before them. -/
theorem exists_gatherPages_eq {k : Json → Except Failure κ} {pages : List Page}
    (hk : ∀ page ∈ pages, ∀ e ∈ page.items.entries, ∀ v ∈ e.2, k v = .ok (keyOf v))
    {met : KeysMet κ} {ws : QueryId → List Json} (hmet : met.AreOf keyOf ws) :
    ∃ once, gatherPages (some k) met pages = .ok once ∧
      once.keys = distinctIds (pages.flatMap fun page => page.items.keys) ∧
      ∀ x, firstOfEach keyOf (ws x ++ itemsOn pages x) =
        firstOfEach keyOf (ws x) ++ (once.get? x).getD [] := by
  induction pages generalizing met ws with
  | nil => exact ⟨∅, rfl, rfl, by simp [itemsOn]⟩
  | cons page pages ih =>
    obtain ⟨hpage, hpages⟩ := List.forall_mem_cons.1 hk
    obtain ⟨met', kept, hgather, hkeys, hmet', hfirst⟩ := exists_gatherPage_eq hpage hmet
    obtain ⟨rest, hrest, hkeys', hfirst'⟩ := ih hpages hmet'
    refine ⟨_, gatherPages_cons hgather hrest, ?_, fun x => ?_⟩
    · rw [Items.keys_append, hkeys, hkeys', List.flatMap_cons, distinctIds_append,
        distinctIds_of_nodup page.items.keys_nodup]
    · rw [Items.getD_append, itemsOn_cons, ← List.append_assoc, hfirst', hfirst, List.append_assoc]

/-- Without a key function everything on the pages is kept. -/
theorem exists_gatherPages_none (met : KeysMet κ) (pages : List Page) :
    ∃ all, gatherPages none met pages = .ok all ∧
      all.keys = distinctIds (pages.flatMap fun page => page.items.keys) ∧
      ∀ x, (all.get? x).getD [] = itemsOn pages x := by
  induction pages with
  | nil => exact ⟨∅, rfl, rfl, fun x => rfl⟩
  | cons page pages ih =>
    obtain ⟨rest, hrest, hkeys, hitems⟩ := ih
    refine ⟨_, gatherPages_cons rfl hrest, ?_, fun x => ?_⟩
    · rw [Items.keys_append, hkeys, List.flatMap_cons, distinctIds_append,
        distinctIds_of_nodup page.items.keys_nodup]
    · rw [Items.getD_append, hitems, itemsOn_cons]

end FirstOfEach

/-- Keeping the first item of each key while going through the pages is doing so afterwards.
Where a run is finished after some pages, gathering without a key function gives a map of the
sub-queries that these pages name, in the order in which they first occur, and each has its
items on the pages, one page after the other. Gathering with a key function that gives each of
these items a key gives a map of the same sub-queries in the same order, and each has those of
its items before which none of its items has the same key. -/
theorem first_of_each_key {shape : Shape} {t : Traversal} (ht : Traversal.ofShape shape = .ok t)
    (excluded : IdSet) {σ : Type} (fetch : Request → StateM σ Outcome) (state : σ) {n : ℕ}
    (hfinishes : (Session.start t excluded).FinishesAfter fetch state n) {κ : Type}
    [DecidableEq κ] (key : Json → Except Failure κ) (keyOf : Json → κ)
    (hkey : ∀ page ∈ (((Session.start t excluded).drain fetch n).run state).1.pages,
      ∀ e ∈ page.items.entries, ∀ v ∈ e.2, key v = .ok (keyOf v)) :
    let pages := (((Session.start t excluded).drain fetch n).run state).1.pages
    let noKey : Option (Json → Except Failure κ) := none
    ∃ all once, Gathers shape excluded fetch noKey none state (.complete all) ∧
      Gathers shape excluded fetch (some key) none state (.complete once) ∧
      all.keys = distinctIds (pages.flatMap fun page => page.items.keys) ∧
      once.keys = all.keys ∧
      ∀ x ∈ all.keys, all.get? x = some (itemsOn pages x) ∧
        once.get? x = some (firstOfEach keyOf (itemsOn pages x)) := by
  intro pages noKey
  have hcomplete : ∀ (key : Option (Json → Except Failure κ)) (items : Items),
      gatherPages key ∅ pages = .ok items →
        Gathers shape excluded fetch key none state (.complete items) := by
    intro key items hitems
    refine ⟨by simp, n, ?_⟩
    rw [run_gatherAll ht, run_gather_eq hitems]
    simp [gathered, Drain.ending, hfinishes.failure, hfinishes.finished]
  obtain ⟨all, hall, hkeys, hitems⟩ := exists_gatherPages_none (∅ : KeysMet κ) pages
  have hnone : (∅ : KeysMet κ).AreOf keyOf fun _ => [] := by
    intro x c
    simp
  obtain ⟨once, honce, hkeys', hfirst⟩ := exists_gatherPages_eq hkey hnone
  refine ⟨all, once, hcomplete noKey all hall, hcomplete (some key) once honce, hkeys,
    hkeys'.trans hkeys.symm, fun x hx => ⟨?_, ?_⟩⟩
  · rw [OrderedMap.get?_eq_some_getD hx [], hitems]
  · have hx' : x ∈ once.keys := hkeys'.trans hkeys.symm ▸ hx
    have hkept : firstOfEach keyOf (itemsOn pages x) = (once.get? x).getD [] := hfirst x
    rw [OrderedMap.get?_eq_some_getD hx' [], hkept]

/-- The key of an item that is a scalar. -/
def wholeKey (v : Json) : ItemKey :=
  match Identity.whole.key v with
  | .ok c => c
  | .error _ => .single .null

/-- Three pages of `twoLevels` repeat an item of the upper sub-query, which is kept once. -/
theorem first_of_each_key_twoLevels :
    ∃ all once : Items,
      Gathers twoLevels.shape ∅ twoAndThree.fetch (some Identity.whole.key) none ()
        (.complete once) ∧
      all.keys = ["A", "B"] ∧ once.keys = all.keys ∧
      (all.get? "A").map List.length = some 3 ∧ (once.get? "A").map List.length = some 2 := by
  have hfinishes : (Session.start twoLevels ∅).FinishesAfter twoAndThree.fetch () 3 :=
    ⟨by decide +kernel, by decide +kernel, by decide +kernel⟩
  obtain ⟨all, once, -, honce, hkeys, hkeys', hitems⟩ := first_of_each_key ofShape_twoLevels ∅
    twoAndThree.fetch () hfinishes Identity.whole.key wholeKey (by decide +kernel)
  have hnames : all.keys = ["A", "B"] := hkeys.trans (by decide +kernel)
  have hupper : "A" ∈ all.keys := by
    rw [hnames]
    exact List.mem_cons_self
  refine ⟨all, once, honce, hnames, hkeys', ?_, ?_⟩
  · rw [(hitems "A" hupper).1]
    decide +kernel
  · rw [(hitems "A" hupper).2]
    decide +kernel

end ForestPager
