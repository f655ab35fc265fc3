import ForestPager.Shape.Pairs
import Mathlib.Data.List.Forall2
import Mathlib.Data.List.Nodup

/-!
# What is read as an object

Columns and parameters are objects that may be left out, and that may be given as lists of
pairs. Their reader works with keys of any kind and finds fault with those that are no texts when
it is done. Here it is said without the reader what is read as an object, and with which fields.

Results:

* `bind_eq_ok_iff`: what has to go well for two steps to go well.
* `isPair_iff`: the elements that are pairs with a text as key.
* `Pairs.addAll_ofTexts`: pairs with texts as keys make a map by texts.
* `Pairs.exists_of_addAll`: if only texts are keys in the end, all elements had texts as keys.
* `Pairs.read_iff`: an optional object is read exactly if it is one.
* `Json.ReadsAs.unique`: in one way.
-/

namespace ForestPager

/-- Two steps go well when the first one does and the second one does with its result. -/
theorem bind_eq_ok_iff {ε α β : Type} {x : Except ε α} {f : α → Except ε β} {b : β} :
    (x >>= f) = .ok b ↔ ∃ a, x = .ok a ∧ f a = .ok b := by
  cases x with
  | error e => simp [bind, Except.bind]
  | ok a => simp [bind, Except.bind]

/-! ## The grammar -/

/-- An element of a list of pairs, with the key and the value that it stands for: an array of a
text and a value, a text of two characters, or an object with two fields, of which the names
count. -/
inductive IsPair : Json → String × Json → Prop
  | array (key : String) (value : Json) : IsPair (.arr [.str key, value]) (key, value)
  | text (key value : Char) : IsPair (.str (String.ofList [key, value]))
    (String.singleton key, .str (String.singleton value))
  | names (key name : String) (v w : Json) : IsPair (.obj [(key, v), (name, w)]) (key, .str name)

/-- An optional object with its fields. A void value has none, and a list of pairs has those that
it lists; of several with one key the first one stands and the last value counts. -/
inductive Json.ReadsAs : Json → Json.Fields → Prop
  | absent {v : Json} : v.isVoid = true → ReadsAs v []
  | object (fields : Json.Fields) : ReadsAs (.obj fields) fields
  | pairs {elements : List Json} {entries : List (String × Json)} :
    List.Forall₂ IsPair elements entries →
      ReadsAs (.arr elements) (OrderedMap.ofList entries).entries

theorem isPair_iff {v w : Json} {key : String} :
    IsPair v (key, w) ↔ v.elements? = some [.str key, w] := by
  constructor
  · intro h
    cases h with
    | array => rfl
    | text a b => simp [Json.elements?]
    | names => rfl
  · intro h
    cases v with
    | arr vs =>
      obtain rfl := Option.some.inj h
      exact .array key w
    | obj fields =>
      simp only [Json.elements?, Option.some.injEq] at h
      obtain ⟨⟨k, a⟩, rest, rfl, hk, hrest⟩ := List.map_eq_cons_iff.1 h
      obtain ⟨⟨l, b⟩, rest, rfl, rfl, hnil⟩ := List.map_eq_cons_iff.1 hrest
      obtain rfl := List.map_eq_nil_iff.1 hnil
      obtain rfl := Json.str.inj hk
      exact .names k l a b
    | str s =>
      simp only [Json.elements?, Option.some.injEq] at h
      obtain ⟨a, rest, hs, hk, hrest⟩ := List.map_eq_cons_iff.1 h
      obtain ⟨b, rest, rfl, rfl, hnil⟩ := List.map_eq_cons_iff.1 hrest
      obtain rfl := List.map_eq_nil_iff.1 hnil
      obtain rfl := Json.str.inj hk
      rw [← @String.ofList_toList s, hs]
      exact .text a b
    | _ => cases h

namespace Pairs

/-! ## Keys that are texts -/

theorem scalar?_eq_text_iff {v : Json} {key : String} :
    v.scalar? = some (.text key) ↔ v = .str key := by
  cases v with
  | float x => cases x <;> simp [Json.scalar?, Binary64.toDyadic?]
  | _ => simp [Json.scalar?]

/-- A map by texts, as the map that is made from pairs. -/
def ofTexts (t : OrderedMap String Json) : OrderedMap Scalar (Json × Json) where
  entries := t.entries.map fun e => (.text e.1, (.str e.1, e.2))
  nodup_keys := by
    have hinj : Function.Injective Scalar.text := fun _ _ => Scalar.text.inj
    simpa [List.map_map, Function.comp_def] using t.nodup_keys.map hinj

/-- All keys of a map that is made from pairs are texts. -/
def Textual (m : OrderedMap Scalar (Json × Json)) : Prop := ∀ e ∈ m.values, ∃ key, e.1 = .str key

variable {t : OrderedMap String Json} {m m' : OrderedMap Scalar (Json × Json)}
variable {v w : Json} {vs : List Json} {index : Nat} {key : String}

theorem values_ofTexts (t : OrderedMap String Json) :
    (ofTexts t).values = t.entries.map fun e => (.str e.1, e.2) := by
  simp [OrderedMap.values, ofTexts]

theorem get?_ofTexts (t : OrderedMap String Json) (key : String) :
    (ofTexts t).get? (.text key) = (t.get? key).map fun v => (.str key, v) := by
  apply Option.ext
  intro e
  simp [OrderedMap.get?_eq_some_iff, ofTexts]

theorem get?_ofTexts_of_ne {s : Scalar} (h : ∀ key, s ≠ .text key) : (ofTexts t).get? s = none := by
  rw [OrderedMap.get?_eq_none_iff]
  simp [OrderedMap.keys, ofTexts, Ne.symm (h _)]

theorem insert_ofTexts (t : OrderedMap String Json) (key : String) (w : Json) :
    (ofTexts t).insert (.text key) (.str key, w) = ofTexts (t.insert key w) := by
  apply OrderedMap.ext
  show OrderedMap.insertEntry _ _ (t.entries.map _) = (OrderedMap.insertEntry key w t.entries).map _
  induction t.entries with
  | nil => rfl
  | cons e es ih =>
    by_cases h : e.1 = key
    · simp [OrderedMap.insertEntry, h]
    · simp [OrderedMap.insertEntry, h, ih]

/-- A pair is added under the key that is there already, if there is an equal one. -/
theorem add_eq_ok_iff :
    add m v w = .ok m' ↔
      ∃ s, v.scalar? = some s ∧ m' = m.insert s (((m.get? s).map Prod.fst).getD v, w) := by
  unfold add
  cases v.scalar? with
  | none => simp
  | some s => cases hold : m.get? s <;> simp [hold, eq_comm]

theorem add_ofTexts (t : OrderedMap String Json) (key : String) (w : Json) :
    add (ofTexts t) (.str key) w = .ok (ofTexts (t.insert key w)) := by
  refine add_eq_ok_iff.2 ⟨.text key, rfl, ?_⟩
  rw [get?_ofTexts, ← insert_ofTexts]
  cases t.get? key <;> rfl

theorem parts_eq_ok_iff (index : Nat) {k : Json} :
    parts index v = .ok (k, w) ↔ v.elements? = some [k, w] := by
  unfold parts
  split <;> simp_all

/-- Pairs with texts as keys make a map by texts. -/
theorem addAll_ofTexts {entries : List (String × Json)} (h : List.Forall₂ IsPair vs entries)
    (t : OrderedMap String Json) (index : Nat) :
    addAll (ofTexts t) index vs = .ok (ofTexts (t.insertAll entries)) := by
  induction h generalizing t index with
  | nil => rfl
  | @cons v e vs entries hv _ ih =>
    rw [addAll, (parts_eq_ok_iff index).2 (isPair_iff.1 hv)]
    show add (ofTexts t) (.str e.1) e.2 >>= (fun m => addAll m (index + 1) vs) = _
    rw [add_ofTexts]
    exact ih _ _

/-! ## Keys that are no texts -/

/-- A key that is there keeps its form. -/
theorem textual_of_add (h : add m v w = .ok m') (hm : Textual m') : Textual m := by
  obtain ⟨s, -, rfl⟩ := add_eq_ok_iff.1 h
  intro e he
  obtain ⟨s', hs'⟩ := m.mem_values_iff.1 he
  by_cases hs : s' = s
  · subst hs
    have hnew := hm (e.1, w) ((OrderedMap.mem_values_iff _).2 ⟨s', by simp [hs']⟩)
    exact hnew
  · exact hm e ((OrderedMap.mem_values_iff _).2 ⟨s', by simp [hs, hs']⟩)

/-- Among texts, a new key is a text if all keys are texts then. -/
theorem exists_str_of_add (h : add (ofTexts t) v w = .ok m') (hm : Textual m') :
    ∃ key, v = .str key := by
  obtain ⟨s, hs, rfl⟩ := add_eq_ok_iff.1 h
  by_cases htext : ∃ key, s = .text key
  · obtain ⟨key, rfl⟩ := htext
    exact ⟨key, scalar?_eq_text_iff.1 hs⟩
  · have hnone : (ofTexts t).get? s = none := get?_ofTexts_of_ne fun key hk => htext ⟨key, hk⟩
    exact hm (v, w) ((OrderedMap.mem_values_iff _).2 ⟨s, by simp [hnone]⟩)

theorem textual_of_addAll (h : addAll m index vs = .ok m') (hm : Textual m') : Textual m := by
  induction vs generalizing m index with
  | nil => exact Except.ok.inj h ▸ hm
  | cons v vs ih =>
    obtain ⟨⟨k, w⟩, -, h⟩ := bind_eq_ok_iff.1 h
    obtain ⟨m₁, hadd, h⟩ := bind_eq_ok_iff.1 h
    exact textual_of_add hadd (ih h)

/-- If all keys are texts in the end, every element is a pair with a text as its key. -/
theorem exists_of_addAll (h : addAll (ofTexts t) index vs = .ok m) (hm : Textual m) :
    ∃ entries, List.Forall₂ IsPair vs entries := by
  induction vs generalizing t index with
  | nil => exact ⟨[], .nil⟩
  | cons v vs ih =>
    obtain ⟨⟨k, w⟩, hparts, h⟩ := bind_eq_ok_iff.1 h
    obtain ⟨m₁, hadd, h⟩ := bind_eq_ok_iff.1 h
    -- all keys are texts after the rest, hence already now
    obtain ⟨key, rfl⟩ := exists_str_of_add hadd (textual_of_addAll h hm)
    obtain rfl := Except.ok.inj ((add_ofTexts t key w).symm.trans hadd)
    obtain ⟨entries, hentries⟩ := ih h
    exact ⟨(key, w) :: entries, .cons (isPair_iff.2 ((parts_eq_ok_iff index).1 hparts)) hentries⟩

/-! ## Reading -/

variable {path : List PathStep} {fs : Json.Fields}

/-- No fault is found with keys that are texts, and with no others. -/
theorem fields_snd_eq_nil_iff {pairs : Pairs} :
    (fields path pairs).2 = [] ↔ ∀ e ∈ pairs, ∃ key, e.1 = .str key := by
  simp only [fields, List.filterMap_eq_nil_iff]
  refine forall₂_congr fun e _ => ?_
  cases e.1 <;> simp

/-- A list is read exactly if its elements are pairs with texts as keys. -/
theorem addAll_read_iff (path : List PathStep) :
    (∃ m, addAll ∅ 0 vs = .ok m ∧ fields path m.values = (fs, [])) ↔
      ∃ entries, List.Forall₂ IsPair vs entries ∧ fs = (OrderedMap.ofList entries).entries := by
  have hread : ∀ entries, List.Forall₂ IsPair vs entries →
      addAll ∅ 0 vs = .ok (ofTexts (OrderedMap.ofList entries)) := fun entries h =>
    addAll_ofTexts h ∅ 0
  constructor
  · rintro ⟨m, hm, hfields⟩
    have htextual : Textual m := fields_snd_eq_nil_iff.1 (congrArg Prod.snd hfields)
    obtain ⟨entries, hentries⟩ := exists_of_addAll (t := ∅) hm htextual
    obtain rfl := Except.ok.inj (hm.symm.trans (hread entries hentries))
    rw [values_ofTexts, fields_obj] at hfields
    exact ⟨entries, hentries, (congrArg Prod.fst hfields).symm⟩
  · rintro ⟨entries, hentries, rfl⟩
    exact ⟨_, hread entries hentries, by rw [values_ofTexts, fields_obj]⟩

/-- A single character is no pair. -/
theorem not_isPair_singleton (c : Char) (e : String × Json) :
    ¬ IsPair (.str (String.singleton c)) e := by
  intro h
  have helements : (Json.str (String.singleton c)).elements? = some [.str e.1, e.2] :=
    isPair_iff.1 h
  simp [Json.elements?] at helements

/-- Of what is not void only objects and arrays are read, the arrays as lists of pairs. -/
theorem readsAs_iff_of_not_void {v : Json} (h : v.isVoid = false) :
    v.ReadsAs fs ↔ v = .obj fs ∨
      ∃ vs entries, v = .arr vs ∧ List.Forall₂ IsPair vs entries ∧
        fs = (OrderedMap.ofList entries).entries := by
  constructor
  · intro hreads
    cases hreads with
    | absent hvoid => simp [h] at hvoid
    | object => exact .inl rfl
    | pairs hpairs => exact .inr ⟨_, _, rfl, hpairs, rfl⟩
  · rintro (rfl | ⟨vs, entries, rfl, hpairs, rfl⟩)
    · exact .object fs
    · exact .pairs hpairs

theorem readsAs_iff_of_void {v : Json} (h : v.isVoid = true) : v.ReadsAs fs ↔ fs = [] := by
  constructor
  · intro hreads
    cases hreads with
    | absent => rfl
    | object => exact List.isEmpty_iff.1 h
    | pairs hpairs =>
      obtain rfl := List.isEmpty_iff.1 h
      cases hpairs
      rfl
  · rintro rfl
    exact .absent h

/-- A value that is gone through element by element is read exactly if its elements are pairs
with texts as keys. -/
theorem payload_read_iff {v : Json} (h : ofPayload v = (addAll ∅ 0 vs).map OrderedMap.values) :
    (∃ pairs, ofPayload v = .ok pairs ∧ fields path pairs = (fs, [])) ↔
      ∃ entries, List.Forall₂ IsPair vs entries ∧ fs = (OrderedMap.ofList entries).entries := by
  rw [← addAll_read_iff path, h]
  cases addAll ∅ 0 vs <;> simp [Except.map]

/-- A value is read as an optional object exactly if it is one. -/
theorem read_iff {v : Json} :
    (∃ pairs, ofOptional v = .ok pairs ∧ fields path pairs = (fs, [])) ↔ v.ReadsAs fs := by
  unfold ofOptional
  cases hv : v.isVoid with
  | true =>
    rw [readsAs_iff_of_void hv]
    constructor
    · rintro ⟨pairs, hpairs, hfields⟩
      cases hpairs
      exact (congrArg Prod.fst hfields).symm
    · rintro rfl
      exact ⟨[], rfl, rfl⟩
  | false =>
    rw [readsAs_iff_of_not_void hv]
    simp only [Bool.false_eq_true, if_false]
    cases v with
    | obj fields => simp [fields_obj]
    | arr vs =>
      rw [payload_read_iff rfl]
      simp
    | str s =>
      rw [payload_read_iff rfl]
      constructor
      · rintro ⟨entries, hentries, -⟩
        cases hs : s.toList with
        | nil => simp [Json.isVoid, String.toList_eq_nil_iff.1 hs] at hv
        | cons c cs =>
          rw [hs] at hentries
          cases hentries with
          | cons hc => exact absurd hc (not_isPair_singleton c _)
      · simp
    | _ => simp [ofPayload, Json.elements?]

end Pairs

/-- A value is read in one way. -/
theorem Json.ReadsAs.unique {v : Json} {fs fs' : Json.Fields} (h : v.ReadsAs fs)
    (h' : v.ReadsAs fs') : fs = fs' := by
  obtain ⟨pairs, hpairs, hfs⟩ :
      ∃ pairs, Pairs.ofOptional v = .ok pairs ∧ Pairs.fields [] pairs = (fs, []) :=
    Pairs.read_iff.2 h
  obtain ⟨pairs', hpairs', hfs'⟩ :
      ∃ pairs, Pairs.ofOptional v = .ok pairs ∧ Pairs.fields [] pairs = (fs', []) :=
    Pairs.read_iff.2 h'
  obtain rfl := Except.ok.inj (hpairs.symm.trans hpairs')
  exact congrArg Prod.fst (hfs.symm.trans hfs')

end ForestPager
