import ForestPager.Gather.Basic
import ForestPager.Proofs.Turns

/-!
# Sessions driven by a service with a state

Going through the pages of a session and gathering their items is done with a service
that may have a state of its own. What one call of the session adds to either is said
here, in terms of turns; that is all that later proofs know about the two loops.

Results:

* `Session.run_nextPage_of_asking`, `_of_closing`: a call is a turn with the answer of
  the service in its present state.
* `Session.run_drain_call`, `_succ`: going through the pages, call by call.
* `run_gather_limited`, `run_gather_call`, `run_gather_succ`: gathering the items, call by call.
* `gatherPage_of_forall`: what is kept of a page.
* `exists_gatherPage`: a key function that fails on no item of a page lets the page pass.
-/

namespace ForestPager

variable {σ : Type} {fetch : Request → StateM σ Outcome} {s : Session} {st : σ}

namespace Session

theorem run_nextPage_of_asking {leaves : List QueryId} {q : Request}
    (h : s.traversal.opening s.round = .asking leaves q) :
    (s.nextPage fetch).run st =
      ((s.turn fun _ => ((fetch q).run st).1).call, ((fetch q).run st).2) := by
  rw [nextPage_eq_turn, request?_of_asking h]
  rfl

theorem run_nextPage_of_closing (h : s.traversal.opening s.round = .closing)
    (answer : Request → Outcome) : (s.nextPage fetch).run st = ((s.turn answer).call, st) := by
  have hr : s.request? = none := by rw [request?, h]
  rw [nextPage_eq_turn, hr]
  refine congrArg (fun c => (c, st)) ?_
  have hf : s.isFinished = false := s.isFinished_eq_false_iff.2 (by simp [h])
  simp [turn, nextPage, Traversal.runRound, h, hf]

/-- Every call is a turn with some answer. -/
theorem exists_run_nextPage (fetch : Request → StateM σ Outcome) (s : Session) (st : σ) :
    ∃ answer st', (s.nextPage fetch).run st = ((s.turn answer).call, st') := by
  cases ho : s.traversal.opening s.round with
  | refused =>
    refine ⟨fun _ => .error Failure.sessionOver, st, ?_⟩
    rw [nextPage_eq_turn, request?, ho]
    rfl
  | closing => exact ⟨fun _ => .error Failure.sessionOver, st, run_nextPage_of_closing ho _⟩
  | asking leaves q => exact ⟨_, _, run_nextPage_of_asking ho⟩

theorem run_drain_of_finished (hf : s.isFinished = true) (n : ℕ) :
    (s.drain fetch n).run st = (⟨[], none, s, []⟩, st) := by
  cases n with
  | zero => rfl
  | succ n =>
    rw [drain, if_pos hf]
    rfl

/-- Going through the pages makes a call and, unless it fails, goes on from there. -/
theorem run_drain_call (hf : s.isFinished = false) {call : Call} {st' : σ}
    (hcall : (s.nextPage fetch).run st = (call, st')) (n : ℕ) :
    (s.drain fetch (n + 1)).run st =
      match call.result with
      | .error failure => (⟨[], some failure, call.session, call.events⟩, st')
      | .ok page =>
        let rest := (call.session.drain fetch n).run st'
        ({ rest.1 with pages := page :: rest.1.pages, events := call.events ++ rest.1.events },
          rest.2) := by
  have hcall' : (s.nextPage fetch).run st = (pure (call, st') : Id _) := hcall
  rw [drain, if_neg (by simp [hf]), StateT.run_bind, hcall', pure_bind]
  cases call.result <;> rfl

/-- Going through the pages goes on after a page that was made. -/
theorem run_drain_succ (hf : s.isFinished = false) {call : Call} {st' : σ} {page : Page}
    (hcall : (s.nextPage fetch).run st = (call, st')) (hpage : call.result = .ok page) (n : ℕ) :
    ((s.drain fetch (n + 1)).run st).1.failure =
        ((call.session.drain fetch n).run st').1.failure ∧
      ((s.drain fetch (n + 1)).run st).1.session =
        ((call.session.drain fetch n).run st').1.session := by
  rw [run_drain_call hf hcall, hpage]
  exact ⟨rfl, rfl⟩

end Session

variable {κ : Type} [DecidableEq κ] {key : Option (Json → Except Failure κ)} {met met' : KeysMet κ}

/-- Gathering makes a call; unless it fails, gathering keeps what is new on its page and goes
on from there, unless the rounds allowed are used up. -/
theorem run_gather_limited (hf : s.isFinished = false) {call : Call} {st' : σ}
    (hcall : (s.nextPage fetch).run st = (call, st')) (limit : Option Int) (n : ℕ) :
    (gather fetch key limit (n + 1) s met).run st =
      match call.result with
      | .error failure => (⟨.failed failure, call.events⟩, st')
      | .ok page =>
        match gatherPage key met page.items with
        | .error failure => (⟨.failed failure, call.events⟩, st')
        | .ok (met, items) =>
          match overLimit limit call.session with
          | some failure => (⟨.failed failure, call.events⟩, st')
          | none =>
            let rest := (gather fetch key limit n call.session met).run st'
            (⟨rest.1.ending.after items, call.events ++ rest.1.events⟩, rest.2) := by
  have hcall' : (s.nextPage fetch).run st = (pure (call, st') : Id _) := hcall
  rw [gather, if_neg (by simp [hf]), StateT.run_bind, hcall', pure_bind]
  cases call.result with
  | error failure => rfl
  | ok page =>
    cases hkeep : gatherPage key met page.items with
    | error failure =>
      simp only [hkeep]
      rfl
    | ok kept =>
      simp only [hkeep]
      cases overLimit limit call.session <;> rfl

/-- Without a limit only the calls and what is kept decide how gathering ends. -/
theorem run_gather_call (hf : s.isFinished = false) {call : Call} {st' : σ}
    (hcall : (s.nextPage fetch).run st = (call, st')) (n : ℕ) :
    ((gather fetch key none (n + 1) s met).run st).1.ending =
      match call.result with
      | .error failure => .failed failure
      | .ok page =>
        match gatherPage key met page.items with
        | .error failure => .failed failure
        | .ok (met, items) =>
          (((gather fetch key none n call.session met).run st').1.ending).after items := by
  rw [run_gather_limited hf hcall]
  cases call.result with
  | error failure => rfl
  | ok page => cases hkeep : gatherPage key met page.items <;> simp only [hkeep, overLimit]

/-- Gathering keeps what is new on a page and goes on from there. -/
theorem run_gather_succ (hf : s.isFinished = false) {call : Call} {st' : σ} {page : Page}
    (hcall : (s.nextPage fetch).run st = (call, st')) (hpage : call.result = .ok page)
    {items : Items} (hkeep : gatherPage key met page.items = .ok (met', items)) (n : ℕ) :
    ((gather fetch key none (n + 1) s met).run st).1.ending =
      (((gather fetch key none n call.session met').run st').1.ending).after items := by
  rw [run_gather_call hf hcall]
  simp only [hpage, hkeep]

/-- Gathering all items of a query is gathering from the session's start, after the forest is
reported. -/
theorem run_gatherAll_limited {shape : Shape} {t : Traversal}
    (ht : Traversal.ofShape shape = .ok t) (excluded : IdSet) {limit : Option Int}
    (hlimit : ∀ rounds ∈ limit, 1 ≤ rounds) (calls : ℕ) :
    (gatherAll shape excluded fetch key limit calls).run st =
      let run := (gather fetch key limit calls (Session.start t excluded) ∅).run st
      (⟨run.1.ending, .forestBuilt t.forest.size t.forest.roots :: run.1.events⟩, run.2) := by
  have hs : Session.ofShape shape excluded =
      .ok (Session.start t excluded, [.forestBuilt t.forest.size t.forest.roots]) := by
    rw [Session.ofShape, ht]
  have hallowed : ¬ limit.any (· < 1) = true := by
    rw [Option.any_eq_true]
    rintro ⟨rounds, hmem, hlow⟩
    exact absurd (hlimit rounds hmem) (by simpa using hlow)
  rw [gatherAll, if_neg hallowed, hs]
  rfl

theorem run_gatherAll {shape : Shape} {t : Traversal} (ht : Traversal.ofShape shape = .ok t)
    (excluded : IdSet) (calls : ℕ) :
    ((gatherAll shape excluded fetch key none calls).run st).1.ending =
      ((gather fetch key none calls (Session.start t excluded) ∅).run st).1.ending := by
  rw [run_gatherAll_limited ht excluded (by simp)]

/-! ## Keeping what is new -/

section Keeping

variable {k : Json → Except Failure κ} {vs : List Json} {x : QueryId}

theorem keepFirst_cons_of_mem {v : Json} {c : κ} (hc : k v = .ok c) {met : List κ}
    (hm : c ∈ met) (vs : List Json) :
    keepFirst k met (v :: vs) = keepFirst k met vs := by
  rw [keepFirst, hc]
  exact if_pos hm

theorem keepFirst_cons_of_not_mem {v : Json} {c : κ} (hc : k v = .ok c) {met : List κ}
    (hm : c ∉ met) {r : List κ × List Json} (hr : keepFirst k (c :: met) vs = .ok r) :
    keepFirst k met (v :: vs) = .ok (r.1, v :: r.2) := by
  rw [keepFirst, hc]
  refine (if_neg hm).trans ?_
  rw [hr]
  rfl

theorem keepNew_cons {r : List κ × List Json}
    (hr : keepFirst k ((met.get? x).getD []) vs = .ok r)
    {rest : List (QueryId × List Json)} {r' : KeysMet κ × List (QueryId × List Json)}
    (hr' : keepNew k (met.insert x r.1) rest = .ok r') :
    keepNew k met ((x, vs) :: rest) = .ok (r'.1, (x, r.2) :: r'.2) := by
  rw [keepNew, hr]
  exact (congrArg (Except.map fun q => (q.1, (x, r.2) :: q.2)) hr' :)

/-- Nothing is kept of items whose keys were met before. -/
theorem keepFirst_of_met {met : List κ} (h : ∀ v ∈ vs, ∃ c ∈ met, k v = .ok c) :
    keepFirst k met vs = .ok (met, []) := by
  induction vs with
  | nil => rfl
  | cons v vs ih =>
    obtain ⟨⟨c, hm, hc⟩, hrest⟩ := List.forall_mem_cons.1 h
    rw [keepFirst_cons_of_mem hc hm, ih hrest]

/-- All is kept of items with new and different keys. -/
theorem keepFirst_of_new {keyOf : Json → κ} {met : List κ} (hk : ∀ v ∈ vs, k v = .ok (keyOf v))
    (hn : (vs.map keyOf).Nodup) (h : ∀ v ∈ vs, keyOf v ∉ met) :
    keepFirst k met vs = .ok ((vs.map keyOf).reverse ++ met, vs) := by
  induction vs generalizing met with
  | nil => rfl
  | cons v vs ih =>
    obtain ⟨hkv, hk⟩ := List.forall_mem_cons.1 hk
    obtain ⟨hv, h⟩ := List.forall_mem_cons.1 h
    obtain ⟨hnv, hn⟩ := List.nodup_cons.1 hn
    have hrest : keepFirst k (keyOf v :: met) vs =
        .ok ((vs.map keyOf).reverse ++ keyOf v :: met, vs) := by
      refine ih hk hn fun w hw => ?_
      rw [List.mem_cons, not_or]
      exact ⟨fun he => hnv (he ▸ List.mem_map_of_mem hw), h w hw⟩
    rw [keepFirst_cons_of_not_mem hkv hv hrest]
    simp

/-- What is kept of each sub-query is decided by what was met in it. -/
theorem keepNew_of_forall {kept : QueryId → List κ × List Json}
    {entries : List (QueryId × List Json)} (hn : (entries.map Prod.fst).Nodup)
    (h : ∀ e ∈ entries, keepFirst k ((met.get? e.1).getD []) e.2 = .ok (kept e.1)) :
    ∃ met', keepNew k met entries = .ok (met', entries.map fun e => (e.1, (kept e.1).2)) ∧
      ∀ x, met'.get? x = if x ∈ entries.map Prod.fst then some (kept x).1 else met.get? x := by
  induction entries generalizing met with
  | nil => exact ⟨met, rfl, by simp⟩
  | cons e rest ih =>
    obtain ⟨he, hrest⟩ := List.forall_mem_cons.1 h
    obtain ⟨hne, hn⟩ := List.nodup_cons.1 hn
    have hrest' : ∀ e' ∈ rest,
        keepFirst k (((met.insert e.1 (kept e.1).1).get? e'.1).getD []) e'.2 =
          .ok (kept e'.1) := by
      intro e' he'
      have hx : e'.1 ≠ e.1 := fun heq => hne (heq ▸ List.mem_map_of_mem he')
      rw [OrderedMap.get?_insert, if_neg hx]
      exact hrest e' he'
    obtain ⟨met', hkeep, hmet⟩ := ih hn hrest'
    refine ⟨met', keepNew_cons he hkeep, fun x => ?_⟩
    rw [hmet, OrderedMap.get?_insert, List.map_cons]
    by_cases hx : x = e.1
    · subst hx
      rw [if_neg hne, if_pos rfl, if_pos List.mem_cons_self]
    · simp only [List.mem_cons, hx, false_or, if_false]

/-- What is kept of a page when it is known for each sub-query. -/
theorem gatherPage_of_forall {kept : QueryId → List κ × List Json} {items : Items}
    (h : ∀ x vs, items.get? x = some vs → keepFirst k ((met.get? x).getD []) vs = .ok (kept x)) :
    ∃ met', gatherPage (some k) met items = .ok (met', items.mapValues fun x _ => (kept x).2) ∧
      ∀ x, met'.get? x = if x ∈ items.keys then some (kept x).1 else met.get? x := by
  obtain ⟨met', hkeep, hmet⟩ := keepNew_of_forall items.nodup_keys fun e he =>
    h e.1 e.2 ((items.get?_eq_some_iff).2 he)
  refine ⟨met', ?_, hmet⟩
  rw [gatherPage, hkeep]
  exact congrArg (fun m => Except.ok (met', m))
    (OrderedMap.ofList_entries (items.mapValues fun x _ => (kept x).2))

/-- A key function that gives every item a key. -/
def TotalKey (key : Option (Json → Except Failure κ)) : Prop :=
  ∀ k ∈ key, ∀ v, ∃ c, k v = .ok c

/-- A key function that gives the items of a page a key. -/
def KeysItems (key : Option (Json → Except Failure κ)) (items : Items) : Prop :=
  ∀ k ∈ key, ∀ e ∈ items.entries, ∀ v ∈ e.2, ∃ c, k v = .ok c

theorem exists_keepFirst (hk : ∀ v ∈ vs, ∃ c, k v = .ok c) (met : List κ) :
    ∃ r, keepFirst k met vs = .ok r := by
  induction vs generalizing met with
  | nil => exact ⟨_, rfl⟩
  | cons v vs ih =>
    obtain ⟨⟨c, hc⟩, hk⟩ := List.forall_mem_cons.1 hk
    by_cases hm : c ∈ met
    · rw [keepFirst_cons_of_mem hc hm]
      exact ih hk met
    · obtain ⟨r, hr⟩ := ih hk (c :: met)
      exact ⟨_, keepFirst_cons_of_not_mem hc hm hr⟩

theorem exists_keepNew {entries : List (QueryId × List Json)}
    (hk : ∀ e ∈ entries, ∀ v ∈ e.2, ∃ c, k v = .ok c) (met : KeysMet κ) :
    ∃ r, keepNew k met entries = .ok r := by
  induction entries generalizing met with
  | nil => exact ⟨_, rfl⟩
  | cons e rest ih =>
    obtain ⟨he, hk⟩ := List.forall_mem_cons.1 hk
    obtain ⟨r, hr⟩ := exists_keepFirst he ((met.get? e.1).getD [])
    obtain ⟨r', hr'⟩ := ih hk (met.insert e.1 r.1)
    exact ⟨_, keepNew_cons hr hr'⟩

/-- A page passes when its items have keys. -/
theorem exists_gatherPage {items : Items} (hk : KeysItems key items) (met : KeysMet κ) :
    ∃ r, gatherPage key met items = .ok r := by
  cases key with
  | none => exact ⟨_, rfl⟩
  | some k =>
    obtain ⟨r, hr⟩ := exists_keepNew (hk k rfl) met
    exact ⟨_, by rw [gatherPage, hr]; rfl⟩

/-- A key function that never fails lets every page pass. -/
theorem gatherPage_of_total (hk : TotalKey key) (met : KeysMet κ) (items : Items) :
    ∃ r, gatherPage key met items = .ok r :=
  exists_gatherPage (fun k hkey _ _ v _ => hk k hkey v) met

end Keeping

end ForestPager
