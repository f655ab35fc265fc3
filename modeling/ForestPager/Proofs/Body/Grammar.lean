import ForestPager.Proofs.Body.Pairs
import ForestPager.Shape.Body

/-!
# Which query bodies are read

The reader of query bodies takes many things for absent, takes lists of pairs for objects, and
stops at the first fault. Here the bodies that it reads are described without it, part by part:
the definitions, their sources, the columns, the parameters and the ids. A body is read exactly
if it is so described, and what is read from it is what the parts say.

Results:

* `sourceOf_eq`: the source of a definition is the first of its named sources that is not void.
* `SubQuery.ofBody_eq_ok_iff`: when one sub-query is read, and what is read.
* `Shape.queriesOfBody_eq_ok_iff`: the sub-queries of a body, one by one.
* `Shape.ofBody_eq_ok_iff`: when a body is read, and what is read.
* `Shape.IsReadingOf.unique`: the fields of a body say one thing.
* `reads_exactly_grammar`: the bodies that are read.
-/

namespace ForestPager

/-- Each element of a list is related to something exactly if the whole list is related, element
by element, to a list. -/
theorem exists_forall₂_iff {α β : Type} {R : α → β → Prop} {as : List α} :
    (∃ bs, List.Forall₂ R as bs) ↔ ∀ a ∈ as, ∃ b, R a b := by
  induction as with
  | nil => simp
  | cons a as ih =>
    rw [List.forall_mem_cons, ← ih]
    constructor
    · rintro ⟨bs, h⟩
      cases h with
      | cons hb hbs => exact ⟨⟨_, hb⟩, _, hbs⟩
    · rintro ⟨⟨b, hb⟩, bs, hbs⟩
      exact ⟨b :: bs, .cons hb hbs⟩

/-! ## Parts of a body -/

/-- The fields of an object; any other value has none. -/
def Json.members : Json → Json.Fields
  | .obj fields => fields
  | _ => []

/-- A value that is void or an object. -/
def Json.IsOptionalObject (v : Json) : Prop := v.isVoid = true ∨ ∃ fields, v = .obj fields

theorem Json.members_of_isVoid {v : Json} (h : v.isVoid = true) : v.members = [] := by
  cases v with
  | obj fields => exact List.isEmpty_iff.1 h
  | _ => rfl

theorem Payload.optionalFields_eq_ok_iff {method : String} {v : Json} {fs : Json.Fields} :
    optionalFields method v = .ok fs ↔ v.IsOptionalObject ∧ fs = v.members := by
  rw [optionalFields_ok_iff, Json.IsOptionalObject]
  cases hv : v.isVoid with
  | true => simp [Json.members_of_isVoid hv]
  | false =>
    simp only [Bool.false_eq_true, false_and, true_and, false_or]
    constructor
    · rintro rfl
      exact ⟨⟨fs, rfl⟩, rfl⟩
    · rintro ⟨⟨fields, rfl⟩, rfl⟩
      rfl

/-! ## Sources -/

/-- The value that a definition gives for its source in one of its expressions: `from`, if the
expression is an object. -/
def namedSourceIn (definition : Json.Fields) (name : String) : Option Json :=
  match Json.field? name definition with
  | some (.obj expression) => Json.field? "from" expression
  | _ => none

/-- The source of a definition. Of the values that it gives in `nodes` and in `edges` the first
one that is not void has to be a text, which is the source; there is none if all are void. -/
def NamesSource (definition : Json.Fields) (source : Option QueryId) : Prop :=
  (["nodes", "edges"].filterMap (namedSourceIn definition)).find? (fun v => !v.isVoid) =
    source.map Json.str

theorem sourceIn_eq (definition : Json.Fields) (name : String) :
    sourceIn definition name = (namedSourceIn definition name).filter fun v => !v.isVoid := by
  unfold sourceIn namedSourceIn
  cases Json.field? name definition with
  | none => rfl
  | some v => cases v <;> rfl

theorem sourceOf_eq (definition : Json.Fields) :
    sourceOf definition = ((["nodes", "edges"].filterMap (namedSourceIn definition)).find?
      fun v => !v.isVoid).getD .null := by
  unfold sourceOf sourceExpressions
  congr 1
  induction ["nodes", "edges"] with
  | nil => rfl
  | cons name names ih =>
    rw [List.findSome?_cons, List.filterMap_cons, sourceIn_eq, ih]
    cases namedSourceIn definition name with
    | none => rfl
    | some v => cases hv : v.isVoid <;> simp [Option.filter, hv]

theorem readSource_eq_iff {name : String} {definition : Json.Fields} {source : Option QueryId} :
    SubQuery.readSource name (sourceOf definition) = (source, []) ↔
      NamesSource definition source := by
  rw [sourceOf_eq, NamesSource]
  cases h : (["nodes", "edges"].filterMap (namedSourceIn definition)).find? fun v => !v.isVoid with
  | none => cases source <;> simp [SubQuery.readSource]
  | some v =>
    have hv := List.find?_some h
    cases v with
    | null => simp [Json.isVoid] at hv
    | str s => cases source <;> simp [SubQuery.readSource]
    | _ => cases source <;> simp [SubQuery.readSource]

/-! ## Sub-queries -/

/-- A sub-query is read if its definition is an object that names a source or none, and its
columns are an optional object. -/
theorem SubQuery.ofBody_eq_ok_iff {definition : Json} {columns : Except Failure Json}
    {q : SubQuery} :
    ofBody definition columns = .ok q ↔
      definition = .obj q.definition ∧ NamesSource q.definition q.source ∧
        ∃ v, columns = .ok v ∧ v.ReadsAs q.select := by
  unfold ofBody
  simp only [bind_eq_ok_iff, Payload.fields_ok_iff]
  constructor
  · rintro ⟨fields, rfl, v, hv, pairs, hpairs, hq⟩
    split at hq
    · next hnone =>
      obtain ⟨hsource, hselect⟩ := List.append_eq_nil_iff.1 hnone
      obtain rfl := Except.ok.inj hq
      exact ⟨rfl, readSource_eq_iff.1 (Prod.ext rfl hsource), v, hv,
        Pairs.read_iff.1 ⟨pairs, hpairs, Prod.ext rfl hselect⟩⟩
    · cases hq
  · rintro ⟨rfl, hsource, v, hv, hreads⟩
    obtain ⟨pairs, hpairs, hselect⟩ := Pairs.read_iff.2 hreads
    refine ⟨q.definition, rfl, v, hv, pairs, hpairs, ?_⟩
    rw [readSource_eq_iff.2 hsource, hselect]
    rfl

namespace Shape

variable {select : Json} {x : QueryId} {definitions : Json.Fields}
variable {queries : List (QueryId × SubQuery)}

/-- Columns are looked up if there is an object to look them up in. -/
theorem columnsOf_eq_ok_iff {v : Json} :
    columnsOf select x = .ok v ↔
      select.IsOptionalObject ∧ v = Json.fieldOrNull x select.members := by
  unfold columnsOf Json.IsOptionalObject
  cases hselect : select.isVoid with
  | true =>
    rw [Json.members_of_isVoid hselect]
    simp [Json.fieldOrNull, Json.field?, eq_comm]
  | false =>
    cases select with
    | obj fields => simp [Payload.fields, Except.map, Json.members, eq_comm]
    | _ => simp [Payload.fields, Except.map]

/-- An entry of a body is read as a sub-query of its id: with its definition as it is, the source
that this names, and the columns of the id, for which there has to be an object to look them up
in. -/
structure Declares (select : Json) (d : String × Json) (e : QueryId × SubQuery) : Prop where
  id_eq : e.1 = d.1
  definition_eq : d.2 = .obj e.2.definition
  source : NamesSource e.2.definition e.2.source
  optional : select.IsOptionalObject
  columns : (Json.fieldOrNull d.1 select.members).ReadsAs e.2.select

theorem declares_iff {d : String × Json} {e : QueryId × SubQuery} :
    Declares select d e ↔
      e.1 = d.1 ∧ SubQuery.ofBody d.2 (columnsOf select d.1) = .ok e.2 := by
  simp only [SubQuery.ofBody_eq_ok_iff, columnsOf_eq_ok_iff]
  constructor
  · rintro ⟨hid, hdefinition, hsource, hoptional, hcolumns⟩
    exact ⟨hid, hdefinition, hsource, _, ⟨hoptional, rfl⟩, hcolumns⟩
  · rintro ⟨hid, hdefinition, hsource, _, ⟨hoptional, rfl⟩, hcolumns⟩
    exact ⟨hid, hdefinition, hsource, hoptional, hcolumns⟩

/-- The sub-queries of a body are read one by one. -/
theorem queriesOfBody_eq_ok_iff :
    queriesOfBody select definitions = .ok queries ↔
      List.Forall₂ (Declares select) definitions queries := by
  induction definitions generalizing queries with
  | nil => simp [queriesOfBody, eq_comm]
  | cons d definitions ih =>
    rw [queriesOfBody, List.forall₂_cons_left_iff]
    simp only [bind_eq_ok_iff, ih, declares_iff]
    constructor
    · rintro ⟨q, hq, qs, hqs, h⟩
      exact ⟨(d.1, q), qs, ⟨rfl, hq⟩, hqs, (Except.ok.inj h).symm⟩
    · rintro ⟨⟨x, q⟩, qs, ⟨rfl, hq⟩, hqs, rfl⟩
      exact ⟨q, hq, qs, hqs, rfl⟩

/-- The definitions can be told from what is read from them. -/
theorem eq_map_of_declares (h : List.Forall₂ (Declares select) definitions queries) :
    definitions = queries.map fun e => (e.1, .obj e.2.definition) := by
  induction h with
  | nil => rfl
  | cons hd _ ih => rw [List.map_cons, ← ih, hd.id_eq, ← hd.definition_eq]

theorem map_fst_of_declares (h : List.Forall₂ (Declares select) definitions queries) :
    queries.map Prod.fst = definitions.map Prod.fst := by
  rw [eq_map_of_declares h, List.map_map]
  rfl

/-! ## Bodies -/

variable {body : Json} {fields : Json.Fields} {s : Shape}

/-- A body is read if its parts are and no id is blank. -/
theorem ofBody_eq_ok_iff :
    ofBody body = .ok s ↔ ∃ fields, body = .obj fields ∧
      (Json.fieldOrNull "with" fields).IsOptionalObject ∧
      (∀ d ∈ (Json.fieldOrNull "with" fields).members, Text.isBlankText d.1 = false) ∧
      (∃ queries, List.Forall₂ (Declares (Json.fieldOrNull "select" fields))
        (Json.fieldOrNull "with" fields).members queries ∧ s.queries = .ofList queries) ∧
      (Json.fieldOrNull "parameters" fields).ReadsAs s.parameters := by
  have hids : ∀ {select definitions queries}, List.Forall₂ (Declares select) definitions queries →
      (idIssues (queries.map Prod.fst) = [] ↔
        ∀ d ∈ definitions, Text.isBlankText d.1 = false) := by
    intro select definitions queries h
    rw [map_fst_of_declares h, idIssues_eq_nil_iff, List.forall_mem_map]
  unfold ofBody
  simp only [bind_eq_ok_iff, Payload.fields_ok_iff, Payload.optionalFields_eq_ok_iff,
    queriesOfBody_eq_ok_iff]
  constructor
  · rintro ⟨fields, rfl, _, ⟨hoptional, rfl⟩, queries, hqueries, pairs, hpairs, hs⟩
    split at hs
    · next hnone =>
      obtain ⟨hblank, hparameters⟩ := List.append_eq_nil_iff.1 hnone
      obtain rfl := Except.ok.inj hs
      exact ⟨fields, rfl, hoptional, (hids hqueries).1 hblank, ⟨queries, hqueries, rfl⟩,
        Pairs.read_iff.1 ⟨pairs, hpairs, Prod.ext rfl hparameters⟩⟩
    · cases hs
  · rintro ⟨fields, rfl, hoptional, hblank, ⟨queries, hqueries, hs⟩, hreads⟩
    obtain ⟨pairs, hpairs, hparameters⟩ := Pairs.read_iff.2 hreads
    refine ⟨fields, rfl, _, ⟨hoptional, rfl⟩, queries, hqueries, pairs, hpairs, ?_⟩
    rw [hparameters, (hids hqueries).2 hblank, ← hs]
    rfl

/-- Each definition with its columns stands for one sub-query. -/
theorem Declares.unique {d : String × Json} {e e' : QueryId × SubQuery} (h : Declares select d e)
    (h' : Declares select d e') : e = e' := by
  rw [declares_iff] at h h'
  exact Prod.ext (h.1.trans h'.1.symm) (Except.ok.inj (h.2.symm.trans h'.2))

end Shape

/-! ## The grammar -/

/-- The grammar of query bodies: what the fields of an object are like if it is read. Definitions
and columns may be left out; else they are in an object, the columns at least if there is a
definition. Every definition is an object that names a text as its source, or none. No id is
blank. The columns of every id and the parameters are optional objects. -/
structure IsQueryBody (fields : Json.Fields) : Prop where
  definitions : (Json.fieldOrNull "with" fields).IsOptionalObject
  definition : ∀ d ∈ (Json.fieldOrNull "with" fields).members,
    ∃ definition source, d.2 = .obj definition ∧ NamesSource definition source
  id : ∀ d ∈ (Json.fieldOrNull "with" fields).members, Text.isBlankText d.1 = false
  select : (Json.fieldOrNull "with" fields).members ≠ [] →
    (Json.fieldOrNull "select" fields).IsOptionalObject
  columns : ∀ d ∈ (Json.fieldOrNull "with" fields).members,
    ∃ columns, (Json.fieldOrNull d.1 (Json.fieldOrNull "select" fields).members).ReadsAs columns
  parameters : ∃ parameters, (Json.fieldOrNull "parameters" fields).ReadsAs parameters

namespace Shape

/-- A shape with what the fields of a body say, and nothing else: its sub-queries are those of the
definitions, in their order, and its parameters are those of the body. -/
structure IsReadingOf (s : Shape) (fields : Json.Fields) : Prop where
  queries : List.Forall₂ (Declares (Json.fieldOrNull "select" fields))
    (Json.fieldOrNull "with" fields).members s.queries.entries
  parameters : (Json.fieldOrNull "parameters" fields).ReadsAs s.parameters

variable {body : Json} {fields : Json.Fields} {s s' : Shape}

theorem IsReadingOf.ids_eq (h : s.IsReadingOf fields) :
    s.ids = (Json.fieldOrNull "with" fields).members.map Prod.fst :=
  map_fst_of_declares h.queries

/-- The fields of a body say what is in the shape. -/
theorem IsReadingOf.unique (h : s.IsReadingOf fields) (h' : s'.IsReadingOf fields) : s = s' := by
  have hunique : Relator.RightUnique (Declares (Json.fieldOrNull "select" fields)) :=
    fun _ _ _ => Declares.unique
  have hqueries : s.queries = s'.queries :=
    OrderedMap.ext (List.right_unique_forall₂' hunique h.queries h'.queries)
  have hparameters := h.parameters.unique h'.parameters
  cases s
  cases s'
  subst hqueries hparameters
  rfl

/-- A body is read exactly if it is in the grammar. -/
theorem exists_ofBody_iff :
    (∃ s, ofBody body = .ok s) ↔ ∃ fields, body = .obj fields ∧ IsQueryBody fields := by
  constructor
  · rintro ⟨s, hs⟩
    obtain ⟨fields, rfl, hoptional, hblank, ⟨queries, hqueries, -⟩, hparameters⟩ :=
      ofBody_eq_ok_iff.1 hs
    have hdeclared := exists_forall₂_iff.1 ⟨queries, hqueries⟩
    refine ⟨fields, rfl, hoptional, fun d hd => ?_, hblank, fun hne => ?_, fun d hd => ?_,
      _, hparameters⟩
    · obtain ⟨e, he⟩ := hdeclared d hd
      exact ⟨_, _, he.definition_eq, he.source⟩
    · obtain ⟨d, hd⟩ := List.exists_mem_of_ne_nil _ hne
      obtain ⟨e, he⟩ := hdeclared d hd
      exact he.optional
    · obtain ⟨e, he⟩ := hdeclared d hd
      exact ⟨_, he.columns⟩
  · rintro ⟨fields, rfl, h⟩
    obtain ⟨parameters, hparameters⟩ := h.parameters
    have hdeclared : ∀ d ∈ (Json.fieldOrNull "with" fields).members,
        ∃ e, Declares (Json.fieldOrNull "select" fields) d e := by
      intro d hd
      obtain ⟨definition, source, hdefinition, hsource⟩ := h.definition d hd
      obtain ⟨columns, hcolumns⟩ := h.columns d hd
      exact ⟨(d.1, ⟨source, definition, columns⟩), rfl, hdefinition, hsource,
        h.select (List.ne_nil_of_mem hd), hcolumns⟩
    obtain ⟨queries, hqueries⟩ := exists_forall₂_iff.2 hdeclared
    exact ⟨⟨.ofList queries, parameters⟩, ofBody_eq_ok_iff.2
      ⟨fields, rfl, h.definitions, h.id, ⟨queries, hqueries, rfl⟩, hparameters⟩⟩

/-- The definitions of a well-formed body have distinct names. -/
theorem nodup_definitions (h : (Json.obj fields).WellFormed) (name : String) :
    ((Json.fieldOrNull name fields).members.map Prod.fst).Nodup := by
  have hfield := h.fieldOrNull name
  cases hv : Json.fieldOrNull name fields with
  | obj fs =>
    rw [hv] at hfield
    exact hfield.1
  | _ => exact List.nodup_nil

/-- What is read from a body is what its fields say. -/
theorem isReadingOf_of_ofBody (hwell : (Json.obj fields).WellFormed)
    (h : ofBody (.obj fields) = .ok s) : s.IsReadingOf fields := by
  obtain ⟨_, hfields, -, -, ⟨queries, hqueries, hs⟩, hparameters⟩ := ofBody_eq_ok_iff.1 h
  obtain rfl := Json.obj.inj hfields
  refine ⟨?_, hparameters⟩
  have hnodup := map_fst_of_declares hqueries ▸ nodup_definitions hwell "with"
  rwa [hs, OrderedMap.entries_ofList_of_nodup hnodup]

end Shape

/-- The query bodies are those of the grammar. A body is read exactly if it is an object that is
in the grammar. If it is well formed, what is read is what its fields say: the sub-queries have
the names of the definitions as their ids, in their order, every definition is kept as it is, its
source is the first one that it names and that is not void, and the columns and the parameters
are as they are read. No other shape is as the fields say. -/
theorem reads_exactly_grammar (body : Json) :
    ((∃ s, Shape.ofBody body = .ok s) ↔ ∃ fields, body = .obj fields ∧ IsQueryBody fields) ∧
    (body.WellFormed → ∀ s, Shape.ofBody body = .ok s → ∃ fields, body = .obj fields ∧
      s.ids = (Json.fieldOrNull "with" fields).members.map Prod.fst ∧
      s.IsReadingOf fields ∧ ∀ s', s'.IsReadingOf fields → s' = s) := by
  refine ⟨Shape.exists_ofBody_iff, fun hwell s hs => ?_⟩
  obtain ⟨fields, rfl, -⟩ := Shape.exists_ofBody_iff.1 ⟨s, hs⟩
  have hreading := Shape.isReadingOf_of_ofBody hwell hs
  exact ⟨fields, rfl, hreading.ids_eq, hreading, fun s' hs' => hs'.unique hreading⟩

/-- A body with a void source before another one, and with columns that are listed in every way
in which pairs are: an array, a text of two characters and the names of an object. -/
def oddBody : Json :=
  .obj [("select", .obj [("A", .arr [.arr [.str "a", .int 1], .str "bc",
      .obj [("a", .null), ("x", .bool true)]])]),
    ("with", .obj [("A", .obj [("nodes", .obj [("from", .str "")]),
      ("edges", .obj [("from", .str "B")])]), ("B", .obj [("nodes", .int 0)])])]

/-- What `oddBody` is read as. -/
def oddShape : Shape where
  queries := .ofList [("A", ⟨some "B", [("nodes", .obj [("from", .str "")]),
      ("edges", .obj [("from", .str "B")])], [("a", .str "x"), ("b", .str "c")]⟩),
    ("B", ⟨none, [("nodes", .int 0)], []⟩)]

theorem wellFormed_oddBody : oddBody.WellFormed := by
  simp [oddBody, Json.WellFormed, Json.WellFormedFields, Json.WellFormedElements]

theorem ofBody_oddBody : Shape.ofBody oddBody = .ok oddShape := by decide +kernel

/-- The body `oddBody` is in the grammar, and `oddShape` is the one reading of it. -/
theorem reads_exactly_grammar_oddBody :
    oddBody.WellFormed ∧ Shape.ofBody oddBody = .ok oddShape ∧
      ∃ fields, oddBody = .obj fields ∧ IsQueryBody fields ∧ oddShape.IsReadingOf fields ∧
        ∀ s, s.IsReadingOf fields → s = oddShape := by
  obtain ⟨hgrammar, hreading⟩ := reads_exactly_grammar oddBody
  obtain ⟨fields, hbody, hfields⟩ := hgrammar.1 ⟨oddShape, ofBody_oddBody⟩
  obtain ⟨fields', hbody', -, hodd, hunique⟩ :=
    hreading wellFormed_oddBody oddShape ofBody_oddBody
  obtain rfl := Json.obj.inj (hbody.symm.trans hbody')
  exact ⟨wellFormed_oddBody, ofBody_oddBody, fields, hbody, hfields, hodd, hunique⟩

end ForestPager
