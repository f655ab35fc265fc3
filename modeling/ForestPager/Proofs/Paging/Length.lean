import ForestPager.Proofs.Paging.Gathering
import Mathlib.Algebra.BigOperators.Group.List.Basic

/-!
# How many requests a run takes

A session that is served numbered pages makes requests as long as its standing has leaves;
then it is finished, or is so after one more call, which asks for nothing. With fixed
numbers of pages the requests are as many as those of the longest tree, and a tree never
takes more requests than there are choices of pages along one of its paths: an id shows
each of its pages for one cycle at most, and the longest tree below it fills a cycle.

Results:

* `Session.endsAfter_of_asks`: a run ends when its standing stops.
* `Paging.asks_iff_lt_length`: the number of requests.
* `Paging.length_le_mostChoices`: its bound.
* `ends_within_mostChoices`: the in-memory backend.
-/

namespace ForestPager

/-! ## The end of a run -/

namespace Session

/-- The call of a run with a given number. -/
def callAt (s : Session) (answers : ℕ → Request → Outcome) (n : ℕ) : Turn :=
  (s.afterCalls answers n).turn (answers n)

/-- A run makes a given number of requests and is then finished, or is so after one more
call, which asks for nothing. -/
structure EndsAfter (s : Session) (answers : ℕ → Request → Outcome) (n : ℕ) : Prop where
  asks : ∀ k < n, ∃ q page, (s.callAt answers k).request = some q ∧
    (s.callAt answers k).call.result = .ok page
  ends : (s.afterCalls answers n).isFinished = true ∨
    (s.callAt answers n).request = none ∧
      (s.callAt answers n).call.result = .ok { finished := true, index := n } ∧
      (s.callAt answers n).call.session.isFinished = true

variable {s : Session} {t : Traversal} {excluded : IdSet} {count : PageCount} {n : ℕ}
  {answers : ℕ → Request → Outcome}

/-- Calls that make a page are counted. -/
theorem roundsRun_afterCalls
    (h : ∀ k < n, ∃ page, (s.callAt answers k).call.result = .ok page) :
    (s.afterCalls answers n).roundsRun = s.roundsRun + n := by
  induction n with
  | zero => rfl
  | succ n ih =>
    obtain ⟨page, hpage⟩ := h n (by omega)
    have hprev := ih fun k hk => h k (by omega)
    rw [afterCalls_succ]
    have hturn : (s.callAt answers n).call.session.roundsRun =
        (s.afterCalls answers n).roundsRun + 1 := by
      unfold callAt at hpage ⊢
      rcases turn_ok_cases hpage with hc | ⟨leaves, q, reply, items, hq, hr, hi⟩
      · rw [(turn_of_closing hc).2.1]
        rfl
      · rw [(turn_of_reply hq hr hi).2.1]
        rfl
    show (s.callAt answers n).call.session.roundsRun = _
    omega

/-- A run against numbered pages ends when its standing stops. -/
theorem endsAfter_of_asks (ht : t.Own) (hans : ∀ n q, Paginates t count q (answers n q))
    (hasks : ∀ k < n, (⟨t.forest, excluded, count⟩ : Paging).Asks k)
    (hstop : ¬ (⟨t.forest, excluded, count⟩ : Paging).Asks n) :
    (start t excluded).EndsAfter answers n := by
  have hpages : ∀ k < n, ∃ q page, ((start t excluded).callAt answers k).request = some q ∧
      ((start t excluded).callAt answers k).call.result = .ok page := by
    intro k hk
    have hreach : ((start t excluded).afterCalls answers k).Reaches ⟨t.forest, excluded, count⟩ k :=
      reaches_afterCalls ht hans fun j hj => hasks j (by omega)
    have htrav : ((start t excluded).afterCalls answers k).traversal = t := after_traversal _ _
    have hserved : ∀ q, ((start t excluded).afterCalls answers k).request? = some q →
        Paginates ((start t excluded).afterCalls answers k).traversal count q (answers k q) := by
      rw [htrav]
      exact fun q _ => hans k q
    obtain ⟨leaves, q, reply, items, hq, -, -, hr, hi, -⟩ := hreach.step (hasks k hk) hserved
    obtain ⟨hreq, -, hres⟩ := turn_of_reply hq hr hi
    exact ⟨q, _, hreq, hres⟩
  refine ⟨hpages, ?_⟩
  rcases (reaches_afterCalls ht hans hasks).stops hstop with hf | hc
  · exact .inl hf
  · right
    have hcount := roundsRun_afterCalls fun k hk =>
      let ⟨_, page, _, hpage⟩ := hpages k hk
      ⟨page, hpage⟩
    unfold callAt
    obtain ⟨hreq, hsess, hres⟩ := @turn_of_closing _ (answers n) hc
    rw [hreq, hsess, hres, hcount]
    simp [start, isFinished, ended]

end Session

/-! ## The length of a run over fixed numbers of pages -/

/-- The ids where the paths from the roots end. -/
def Forest.tips (f : Forest) : List QueryId := f.ids.filter fun x => (f.children x).isEmpty

/-- The number of choices of pages along the path from a root to an id. -/
def Forest.choices (f : Forest) (pages : QueryId → ℕ) (x : QueryId) : ℕ :=
  ((x :: f.ancestors x).map pages).prod

/-- The most choices of pages along a path from a root to an end; one when there is no
path. -/
def Forest.mostChoices (f : Forest) (pages : QueryId → ℕ) : ℕ :=
  (f.tips.map (f.choices pages)).foldr max 1

namespace Paging

variable {g : Paging} {x : QueryId} {n m : ℕ}

/-- The number of requests of a run: that of the longest tree, and at least one. -/
def length (g : Paging) : ℕ := longest (g.forest.roots.map g.span)

/-- The run has a request of each number below its length. -/
theorem asks_iff_lt_length (hg : g.Fixed) (hf : g.forest.Sound) : g.Asks n ↔ n < g.length := by
  cases n with
  | zero => exact iff_of_true trivial (one_le_longest _)
  | succ n =>
    unfold length
    rw [lt_longest_iff (by omega)]
    show g.Live (g.run n) ↔ _
    rw [live_iff hg hf]
    simp [hf.mem_roots, and_assoc]

theorem le_longest {spans : List ℕ} {a : ℕ} (h : a ∈ spans) : a ≤ longest spans := by
  by_contra hlt
  have hself : longest spans < longest spans :=
    (lt_longest_iff (one_le_longest spans)).2 ⟨a, h, by omega⟩
  omega

/-- The longest of some spans is one of them, or else it is one. -/
theorem longest_cases (spans : List ℕ) : longest spans = 1 ∨ longest spans ∈ spans := by
  induction spans with
  | nil => exact .inl rfl
  | cons a spans ih =>
    show max a (longest spans) = 1 ∨ max a (longest spans) ∈ a :: spans
    rcases max_choice a (longest spans) with h | h
    · simp [h]
    · rw [h, List.mem_cons]
      exact ih.imp_right .inr

theorem turns_le (n m : ℕ) : turns n m ≤ n := Nat.div_le_self _ _

/-- A cycle of an id is no longer than one of the trees below it takes. -/
theorem exists_cycle_le_span (hf : g.forest.Sound) (h : g.forest.children x ≠ []) :
    ∃ c ∈ g.forest.children x, g.cycle x ≤ g.span c := by
  unfold cycle
  rcases longest_cases ((g.forest.children x).map g.span) with hone | hmem
  · obtain ⟨c, hc⟩ := List.exists_mem_of_ne_nil _ h
    rw [hone]
    exact ⟨c, hc,
      one_le_span hf (hf.mem_ids_of_mem_ancestors (hf.mem_ancestors_of_mem_children hc)).2⟩
  · obtain ⟨c, hc, hspan⟩ := List.mem_map.1 hmem
    exact ⟨c, hc, hspan.ge⟩

/-- The choices of pages above an id, taken with each request of its tree, are not more than
the choices of pages along a path. -/
theorem prod_mul_span_le (hf : g.forest.Sound) (hx : x ∈ g.forest.ids) :
    ((g.forest.ancestors x).map g.reach).prod * g.span x ≤ g.forest.mostChoices g.reach := by
  induction x, hx using hf.induction_down with
  | step x hx ih =>
    have hspan : g.span x ≤ g.cycle x * g.reach x := by
      rw [span_eq hf hx]
      exact Nat.mul_le_mul_left _ (turns_le _ _)
    -- at the tip of a path the product is one of the choices; above it goes on to the longest child
    by_cases hc : g.forest.children x = []
    · have hcycle : g.cycle x = 1 := by simp [cycle, hc, longest]
      have htip : g.forest.choices g.reach x ∈ g.forest.tips.map (g.forest.choices g.reach) := by
        apply List.mem_map_of_mem
        simp [Forest.tips, hx, hc]
      calc ((g.forest.ancestors x).map g.reach).prod * g.span x
          ≤ ((g.forest.ancestors x).map g.reach).prod * g.reach x := by
            rw [hcycle, Nat.one_mul] at hspan
            exact Nat.mul_le_mul_left _ hspan
        _ = g.forest.choices g.reach x := by
            unfold Forest.choices
            rw [List.map_cons, List.prod_cons, Nat.mul_comm]
        _ ≤ g.forest.mostChoices g.reach := le_longest htip
    · obtain ⟨c, hcx, hle⟩ := exists_cycle_le_span hf hc
      have hup := hf.ancestors_of_parent ((hf.mem_children x c).1 hcx)
      calc ((g.forest.ancestors x).map g.reach).prod * g.span x
          ≤ ((g.forest.ancestors x).map g.reach).prod * (g.span c * g.reach x) :=
            Nat.mul_le_mul_left _ (hspan.trans (Nat.mul_le_mul_right _ hle))
        _ = ((g.forest.ancestors c).map g.reach).prod * g.span c := by
            rw [hup, List.map_cons, List.prod_cons]
            ring
        _ ≤ g.forest.mostChoices g.reach := ih c (hf.mem_ancestors_of_mem_children hcx)

/-- A run does not take more requests than there are choices of pages along a path. -/
theorem length_le_mostChoices (hf : g.forest.Sound) :
    g.length ≤ g.forest.mostChoices g.reach := by
  by_contra hlt
  have hone : 1 ≤ g.forest.mostChoices g.reach := one_le_longest _
  obtain ⟨b, hb, hltb⟩ := (lt_longest_iff hone).1 (Nat.not_le.1 hlt)
  obtain ⟨r, hr, rfl⟩ := List.mem_map.1 hb
  obtain ⟨hrx, hroot⟩ := (hf.mem_roots r).1 hr
  have hle := prod_mul_span_le hf hrx
  simp [Forest.ancestors_of_root hroot] at hle
  omega

end Paging

/-! ## The in-memory backend -/

/-- With numbers of pages that do not depend on anything, a session makes no more requests
than there are choices of pages along a path of the forest, an excluded sub-query having
one page. It is then finished, or is so after one more call, which asks for nothing. Where
the digits of a cursor are limited, the numbers of pages have to be small enough for the
limit. -/
theorem ends_within_mostChoices {shape : Shape} {t : Traversal}
    (ht : Traversal.ofShape shape = .ok t) (excluded : IdSet) (counts : OrderedMap QueryId ℤ)
    (pageSize : ℕ) (limited : Bool)
    (hlimited : limited = true → ∀ n ∈ counts.values, n ≤ ((10 ^ digitsAllowed : ℕ) : ℤ)) :
    ∃ n ≤ t.forest.mostChoices (pagesGathered excluded counts),
      (Session.start t excluded).EndsAfter
        (fun _ => { Paged.ofCounts counts pageSize with limited := limited }.answer) n := by
  obtain ⟨hown, -⟩ := Traversal.own_of_ofShape ht
  let b : Paged := { Paged.ofCounts counts pageSize with limited := limited }
  have hb : b.Readable := readable_ofCounts hlimited
  let g : Paging := ⟨t.forest, excluded, b.pages⟩
  have hg : g.Fixed := fun x above => rfl
  have hasks : ∀ n, g.Asks n ↔ n < g.length := fun n => Paging.asks_iff_lt_length hg hown.sound
  refine ⟨g.length, Paging.length_le_mostChoices hown.sound, ?_⟩
  apply Session.endsAfter_of_asks hown (fun _ q => b.paginates hown hb q)
  · intro k hk
    exact (hasks k).2 hk
  · intro h
    exact absurd ((hasks _).1 h) (Nat.lt_irrefl _)

/-- With the upper sub-query of `twoLevels` excluded, three pages of the lower one make at
most three requests. -/
theorem ends_within_mostChoices_twoLevels :
    ∃ n ≤ 3, (Session.start twoLevels ⟨["A"], List.pairwise_singleton _ _⟩).EndsAfter
      (fun _ => twoAndThree.answer) n :=
  ends_within_mostChoices ofShape_twoLevels ⟨["A"], List.pairwise_singleton _ _⟩
    (.ofList [("A", 2), ("B", 3)]) 1 true (fun _ => by decide +kernel)

end ForestPager
