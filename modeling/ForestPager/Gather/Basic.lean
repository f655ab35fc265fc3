import ForestPager.Session

/-!
# Gathering all items

Going through all pages of a query and putting the items of each sub-query
together, in the order of the rounds. With a key function only the first item of
each key is kept, sub-query by sub-query. The number of rounds may be limited; a
run that is not over by then fails.

How many rounds a run takes is up to the service, so the runs here are given a
number of calls to make; `Gathers` says what they come to with enough calls.

Results:

* `Items.get?_append`, `Items.keys_append`: putting items together, sub-query by sub-query.
* `gather_of_finished`: a finished session has nothing to add.
-/

namespace ForestPager

/-- The keys met so far in each sub-query, the last one first: `seen` in `query_all`. -/
abbrev KeysMet (κ : Type) := OrderedMap QueryId (List κ)

/-- The items of two stretches of a run, those of the first one in front. -/
def Items.append (first rest : Items) : Items :=
  first.insertAll (rest.entries.map fun e => (e.1, (first.get? e.1).getD [] ++ e.2))

/-- A sub-query has its items of both stretches. -/
theorem Items.get?_append (first rest : Items) (x : QueryId) :
    (first.append rest).get? x =
      ((rest.get? x).map ((first.get? x).getD [] ++ ·)).or (first.get? x) := by
  let both := rest.mapValues fun y vs => (first.get? y).getD [] ++ vs
  have hb : both.get? x = (rest.get? x).map ((first.get? x).getD [] ++ ·) :=
    OrderedMap.get?_mapValues _ _ _
  rw [← hb, Items.append, OrderedMap.get?_insertAll]
  exact congrArg (·.or (first.get? x)) (OrderedMap.lookup_reverse both.nodup_keys x)

theorem Items.keys_append_of_subset {first rest : Items} (h : ∀ x ∈ rest.keys, x ∈ first.keys) :
    (first.append rest).keys = first.keys := by
  refine OrderedMap.keys_insertAll_of_subset fun e he => ?_
  obtain ⟨e', he', rfl⟩ := List.mem_map.1 he
  exact h e'.1 (List.mem_map_of_mem (f := Prod.fst) he')

theorem Items.mem_keys_append (first rest : Items) (x : QueryId) :
    x ∈ (first.append rest).keys ↔ x ∈ first.keys ∨ x ∈ rest.keys := by
  rw [Items.append, OrderedMap.mem_keys_insertAll, List.map_map]
  rfl

/-- The sub-queries of both stretches, in the order in which they first occur. -/
theorem Items.keys_append (first rest : Items) :
    (first.append rest).keys = first.keys ++ rest.keys.filter fun x => x ∉ first.keys := by
  have hkeys : (rest.entries.map fun e => (e.1, (first.get? e.1).getD [] ++ e.2)).map Prod.fst =
      rest.keys := by
    rw [List.map_map]
    rfl
  have hnodup := rest.keys_nodup
  rw [← hkeys] at hnodup ⊢
  exact first.keys_insertAll_of_nodup hnodup

@[simp] theorem Items.empty_append (rest : Items) : (∅ : Items).append rest = rest := by
  have hentries : (rest.entries.map fun e => (e.1, ((∅ : Items).get? e.1).getD [] ++ e.2)) =
      rest.entries := by simp
  rw [Items.append, hentries]
  exact OrderedMap.ofList_entries rest

theorem Items.getD_append (first rest : Items) (x : QueryId) :
    ((first.append rest).get? x).getD [] = (first.get? x).getD [] ++ (rest.get? x).getD [] := by
  rw [Items.get?_append]
  cases rest.get? x <;> simp

/-- How gathering ends: all pages were gone through, something went wrong, or the calls did not
suffice. -/
inductive Ending
  | complete (items : Items)
  | failed (failure : Failure)
  | unfinished
deriving DecidableEq

/-- The ending of a run that gathered some items before. -/
def Ending.after (first : Items) : Ending → Ending
  | complete rest => complete (first.append rest)
  | ending => ending

/-- What gathering came to: how it ended, and what happened, in order. -/
structure Gathered where
  ending : Ending
  events : List Event

variable {κ : Type} [DecidableEq κ]

/-- The inner loop of `query_all`: go through items and keep the first of each key; `met` are the
keys met before. -/
def keepFirst (key : Json → Except Failure κ) (met : List κ) :
    List Json → Except Failure (List κ × List Json)
  | [] => .ok (met, [])
  | v :: vs => do
    let k ← key v
    if k ∈ met then keepFirst key met vs
    else
      let (met, kept) ← keepFirst key (k :: met) vs
      pure (met, v :: kept)

/-- Keep the first item of each key, sub-query by sub-query. -/
def keepNew (key : Json → Except Failure κ) (met : KeysMet κ) :
    List (QueryId × List Json) → Except Failure (KeysMet κ × List (QueryId × List Json))
  | [] => .ok (met, [])
  | (x, vs) :: rest => do
    let (keys, kept) ← keepFirst key ((met.get? x).getD []) vs
    let (met, kepts) ← keepNew key (met.insert x keys) rest
    pure (met, (x, kept) :: kepts)

/-- What `query_all` takes from the items of a page: all of them when there is no `dedupe_key`. -/
def gatherPage (key : Option (Json → Except Failure κ)) (met : KeysMet κ) (items : Items) :
    Except Failure (KeysMet κ × Items) :=
  match key with
  | none => .ok (met, items)
  | some key => (keepNew key met items.entries).map fun r => (r.1, .ofList r.2)

/-- The check of `max_rounds` after a page: the failure of a run that has used up the rounds
allowed and is not over. -/
def overLimit (limit : Option Int) (s : Session) : Option Failure :=
  match limit with
  | some n => if !s.isFinished ∧ n ≤ s.roundsRun then some (.tooManyRounds n) else none
  | none => none

/-- The loop of `query_all`: go through the pages of a session, with at most `calls` calls, and
put their items together; `met` are the keys met before. -/
def gather {m : Type → Type} [Monad m] (fetch : Request → m Outcome)
    (key : Option (Json → Except Failure κ)) (limit : Option Int) :
    (calls : Nat) → Session → KeysMet κ → m Gathered
  | calls, s, met =>
    if s.isFinished then pure ⟨.complete ∅, []⟩
    else
      match calls with
      | 0 => pure ⟨.unfinished, []⟩
      | n + 1 => do
        let call ← s.nextPage fetch
        match call.result with
        | .error failure => pure ⟨.failed failure, call.events⟩
        | .ok page =>
          match gatherPage key met page.items with
          | .error failure => pure ⟨.failed failure, call.events⟩
          | .ok (met, items) =>
            match overLimit limit call.session with
            | some failure => pure ⟨.failed failure, call.events⟩
            | none =>
              let rest ← gather fetch key limit n call.session met
              pure ⟨rest.ending.after items, call.events ++ rest.events⟩

/-- Gather all items of a query (`query_all`). -/
def gatherAll {m : Type → Type} [Monad m] (shape : Shape) (excluded : IdSet)
    (fetch : Request → m Outcome) (key : Option (Json → Except Failure κ))
    (limit : Option Int) (calls : Nat) : m Gathered :=
  if limit.any (· < 1) then pure ⟨.failed .roundLimit, []⟩
  else
    match Session.ofShape shape excluded with
    | .error failure => pure ⟨.failed failure, []⟩
    | .ok (session, events) => do
      let run ← gather fetch key limit calls session ∅
      pure { run with events := events ++ run.events }

/-- With enough calls, and starting from the state `σ` of the backend, gathering all
items of a query comes to an ending. -/
def Gathers {σ : Type} (shape : Shape) (excluded : IdSet)
    (fetch : Request → StateM σ Outcome) (key : Option (Json → Except Failure κ))
    (limit : Option Int) (state : σ) (ending : Ending) : Prop :=
  ending ≠ .unfinished ∧
    ∃ calls, ((gatherAll shape excluded fetch key limit calls).run state).1.ending = ending

theorem gather_of_finished {m : Type → Type} [Monad m] (fetch : Request → m Outcome)
    (key : Option (Json → Except Failure κ)) (limit : Option Int) (calls : Nat) {s : Session}
    (h : s.isFinished = true) (met : KeysMet κ) :
    gather fetch key limit calls s met = pure ⟨.complete ∅, []⟩ := by
  unfold gather
  simp [h]

end ForestPager
