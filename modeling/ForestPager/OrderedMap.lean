/-!
# Maps that keep the order of first insertion

An `OrderedMap` is a list of key–value pairs with distinct keys. Setting a key
that is already there changes its value and leaves its position; a new key goes
to the end. Iteration order is therefore the order in which keys first came.

Results:

* `get?_insert`, `keys_insert`: what setting a key does to look-up and order.
* `keys_insertAll_of_nodup`: new keys go to the end, in the order of their pairs.
* `get?_ofList`: of several pairs with one key the last one counts.
* `mem_keys_iff`: a key is listed exactly when it has a value.
* `get?_filterMap`: narrowing works value by value.
* `ofList_entries`: a map is the map of its pairs.
-/

namespace ForestPager

/-- A finite map with distinct keys, listed in the order of first insertion. -/
structure OrderedMap (κ ν : Type) where
  entries : List (κ × ν)
  nodup_keys : (entries.map Prod.fst).Nodup
deriving DecidableEq

namespace OrderedMap

variable {κ ν μ : Type}

@[ext] theorem ext {m n : OrderedMap κ ν} (h : m.entries = n.entries) : m = n := by
  cases m; cases n; cases h; rfl

/-- The keys, in order. -/
def keys (m : OrderedMap κ ν) : List κ := m.entries.map Prod.fst

/-- The values, in the order of their keys. -/
def values (m : OrderedMap κ ν) : List ν := m.entries.map Prod.snd

/-- The number of keys. -/
def size (m : OrderedMap κ ν) : Nat := m.entries.length

/-- Whether there is no key at all. -/
def isEmpty (m : OrderedMap κ ν) : Bool := m.entries.isEmpty

/-- The map without keys. -/
def empty : OrderedMap κ ν := ⟨[], List.nodup_nil⟩

instance : EmptyCollection (OrderedMap κ ν) := ⟨empty⟩

instance : Inhabited (OrderedMap κ ν) := ⟨empty⟩

theorem keys_nodup (m : OrderedMap κ ν) : m.keys.Nodup := m.nodup_keys

@[simp] theorem keys_empty : (∅ : OrderedMap κ ν).keys = [] := rfl

@[simp] theorem length_keys (m : OrderedMap κ ν) : m.keys.length = m.size := by
  simp [keys, size]

theorem isEmpty_iff_eq_empty (m : OrderedMap κ ν) : m.isEmpty = true ↔ m = ∅ := by
  rw [isEmpty, List.isEmpty_iff]
  exact ⟨fun h => OrderedMap.ext h, fun h => congrArg entries h⟩

/-- Apply a function to every value; keys and order stay. -/
def mapValues (f : κ → ν → μ) (m : OrderedMap κ ν) : OrderedMap κ μ where
  entries := m.entries.map fun e => (e.1, f e.1 e.2)
  nodup_keys := by
    have h := m.nodup_keys
    simpa [List.map_map, Function.comp_def] using h

@[simp] theorem keys_mapValues (f : κ → ν → μ) (m : OrderedMap κ ν) :
    (m.mapValues f).keys = m.keys := by
  simp [keys, mapValues, List.map_map, Function.comp_def]

theorem keys_filterMap_sublist (f : κ → ν → Option μ) (es : List (κ × ν)) :
    ((es.filterMap fun e => (f e.1 e.2).map (e.1, ·)).map Prod.fst).Sublist (es.map Prod.fst) := by
  induction es with
  | nil => simp
  | cons e es ih =>
    cases h : f e.1 e.2 with
    | none => simpa [h] using ih.cons _
    | some w => simpa [h] using ih.cons_cons e.1

/-- Keep the keys to which `f` gives a new value; their order stays. -/
def filterMap (f : κ → ν → Option μ) (m : OrderedMap κ ν) : OrderedMap κ μ where
  entries := m.entries.filterMap fun e => (f e.1 e.2).map (e.1, ·)
  nodup_keys := (keys_filterMap_sublist f m.entries).nodup m.nodup_keys

/-- Selecting pairs neither adds a key nor moves one. -/
theorem sublist_keys_filterMap (f : κ → ν → Option μ) (m : OrderedMap κ ν) :
    (m.filterMap f).keys.Sublist m.keys :=
  keys_filterMap_sublist f m.entries

/-- Keep the keys that satisfy `p`. -/
def filterKeys (p : κ → Bool) (m : OrderedMap κ ν) : OrderedMap κ ν :=
  m.filterMap fun k v => if p k then some v else none

/-! ## Look-up -/

section Lookup

variable [DecidableEq κ]

/-- The value of a key. -/
def get? (m : OrderedMap κ ν) (k : κ) : Option ν := m.entries.lookup k

/-- Whether a key has a value. -/
def contains (m : OrderedMap κ ν) (k : κ) : Bool := (m.get? k).isSome

theorem lookup_cons_eq (e : κ × ν) (es : List (κ × ν)) (k : κ) :
    (e :: es).lookup k = if k = e.1 then some e.2 else es.lookup k := by
  obtain ⟨a, b⟩ := e
  by_cases h : k = a
  · simp [h]
  · have h' : (k == a) = false := by simpa using h
    simp [List.lookup_cons, h, h']

theorem isSome_lookup (es : List (κ × ν)) (k : κ) :
    (es.lookup k).isSome = true ↔ k ∈ es.map Prod.fst := by
  induction es with
  | nil => simp
  | cons e es ih =>
    rw [lookup_cons_eq]
    split
    · next h => simp [h]
    · next h => simp only [ih, List.map_cons, List.mem_cons, h, false_or]

theorem contains_iff (m : OrderedMap κ ν) (k : κ) : m.contains k = true ↔ k ∈ m.keys :=
  isSome_lookup m.entries k

theorem mem_keys_iff (m : OrderedMap κ ν) (k : κ) : k ∈ m.keys ↔ ∃ v, m.get? k = some v := by
  rw [← contains_iff, contains, Option.isSome_iff_exists]

theorem get?_eq_some_getD {m : OrderedMap κ ν} {k : κ} (h : k ∈ m.keys) (v : ν) :
    m.get? k = some ((m.get? k).getD v) := by
  obtain ⟨w, hw⟩ := (m.mem_keys_iff k).1 h
  rw [hw]
  rfl

theorem get?_eq_none_iff (m : OrderedMap κ ν) (k : κ) : m.get? k = none ↔ k ∉ m.keys := by
  rw [← contains_iff, contains]; simp

@[simp] theorem get?_empty (k : κ) : (∅ : OrderedMap κ ν).get? k = none := rfl

theorem lookup_eq_some_iff {es : List (κ × ν)} (hn : (es.map Prod.fst).Nodup) {k : κ} {v : ν} :
    es.lookup k = some v ↔ (k, v) ∈ es := by
  induction es with
  | nil => simp
  | cons e es ih =>
    obtain ⟨hmem, hn'⟩ := List.nodup_cons.1 hn
    rw [lookup_cons_eq]
    split
    · next h =>
      subst h
      have : (e.1, v) ∉ es := fun hv => hmem (List.mem_map.2 ⟨_, hv, rfl⟩)
      simp [this, Prod.ext_iff, eq_comm]
    · next h => simp [ih hn', Prod.ext_iff, h]

/-- A pair is listed exactly when looking its key up gives its value. -/
theorem get?_eq_some_iff (m : OrderedMap κ ν) {k : κ} {v : ν} :
    m.get? k = some v ↔ (k, v) ∈ m.entries :=
  lookup_eq_some_iff m.nodup_keys

/-- The keys with a given value, in order. -/
theorem map_fst_filter_eq [DecidableEq ν] (m : OrderedMap κ ν) (v : ν) :
    (m.entries.filter fun e => decide (e.2 = v)).map Prod.fst =
      m.keys.filter fun k => decide (m.get? k = some v) := by
  rw [keys, List.filter_map]
  congr 1
  refine List.filter_congr fun e he => decide_eq_decide.2 ?_
  rw [(m.get?_eq_some_iff (k := e.1) (v := e.2)).2 he, Option.some.injEq]

/-- With distinct keys the order of the pairs does not matter for look-up. -/
theorem lookup_reverse {es : List (κ × ν)} (hn : (es.map Prod.fst).Nodup) (k : κ) :
    es.reverse.lookup k = es.lookup k := by
  have hr : (es.reverse.map Prod.fst).Nodup := by
    rw [List.map_reverse]
    exact (List.reverse_perm _).nodup_iff.2 hn
  exact Option.ext fun v => by
    rw [lookup_eq_some_iff hr, lookup_eq_some_iff hn, List.mem_reverse]

theorem isEmpty_iff (m : OrderedMap κ ν) : m.isEmpty = true ↔ ∀ k, m.get? k = none := by
  simp only [get?_eq_none_iff]
  rw [← List.eq_nil_iff_forall_not_mem, keys, List.map_eq_nil_iff, isEmpty, List.isEmpty_iff]

/-- The values are those that look-up gives. -/
theorem mem_values_iff (m : OrderedMap κ ν) {v : ν} : v ∈ m.values ↔ ∃ k, m.get? k = some v := by
  simp only [values, List.mem_map, Prod.exists, exists_eq_right, get?_eq_some_iff]

theorem get?_mapValues (f : κ → ν → μ) (m : OrderedMap κ ν) (k : κ) :
    (m.mapValues f).get? k = (m.get? k).map (f k) := by
  cases h : m.get? k with
  | none =>
    rw [get?_eq_none_iff] at h
    simpa [get?_eq_none_iff] using h
  | some v =>
    rw [get?_eq_some_iff] at h
    simp only [Option.map_some, get?_eq_some_iff, mapValues]
    exact List.mem_map.2 ⟨_, h, rfl⟩

theorem get?_filterMap (f : κ → ν → Option μ) (m : OrderedMap κ ν) (k : κ) :
    (m.filterMap f).get? k = (m.get? k).bind (f k) := by
  apply Option.ext
  intro w
  simp only [get?_eq_some_iff, filterMap, List.mem_filterMap, Option.map_eq_some_iff,
    Option.bind_eq_some_iff, Prod.exists]
  constructor
  · rintro ⟨k', v, hm, w', hw, he⟩
    cases he
    exact ⟨v, hm, hw⟩
  · rintro ⟨v, hm, hw⟩
    exact ⟨k, v, hm, w, hw, rfl⟩

theorem get?_filterKeys (p : κ → Bool) (m : OrderedMap κ ν) (k : κ) :
    (m.filterKeys p).get? k = if p k then m.get? k else none := by
  rw [filterKeys, get?_filterMap]
  cases m.get? k <;> cases p k <;> rfl

end Lookup

/-- Two selections in a row are one. -/
theorem filterMap_filterMap {ξ : Type} (f : κ → ν → Option μ) (g : κ → μ → Option ξ)
    (m : OrderedMap κ ν) :
    (m.filterMap f).filterMap g = m.filterMap fun k v => (f k v).bind (g k) := by
  apply ext
  show List.filterMap _ (List.filterMap _ m.entries) = List.filterMap _ m.entries
  rw [List.filterMap_filterMap]
  congr 1
  funext e
  show ((f e.1 e.2).map (e.1, ·)).bind (fun e' => (g e'.1 e'.2).map (e'.1, ·)) =
    ((f e.1 e.2).bind (g e.1)).map (e.1, ·)
  generalize f e.1 e.2 = v
  cases v <;> rfl

/-- Keeping some keys of what was selected is selecting among these keys. -/
theorem filterKeys_filterMap (p : κ → Bool) (f : κ → ν → Option μ) (m : OrderedMap κ ν) :
    (m.filterMap f).filterKeys p = m.filterMap fun k v => if p k then f k v else none := by
  rw [filterKeys, filterMap_filterMap]
  congr 1
  funext k v
  cases p k <;> cases f k v <;> rfl

theorem filterMap_filterKeys (p : κ → Bool) (f : κ → ν → Option μ) (m : OrderedMap κ ν) :
    (m.filterKeys p).filterMap f = m.filterMap fun k v => if p k then f k v else none := by
  rw [filterKeys, filterMap_filterMap]
  congr 1
  funext k v
  cases p k <;> rfl

theorem mapValues_filterMap {ξ : Type} (f : κ → ν → Option μ) (g : κ → μ → ξ)
    (m : OrderedMap κ ν) :
    (m.filterMap f).mapValues g = m.filterMap fun k v => (f k v).map (g k) := by
  apply ext
  show List.map _ (List.filterMap _ m.entries) = List.filterMap _ m.entries
  rw [List.map_filterMap]
  congr 1
  funext e
  rw [Option.map_map, Option.map_map]
  rfl

theorem filterMap_congr {f g : κ → ν → Option μ} {m : OrderedMap κ ν}
    (h : ∀ e ∈ m.entries, f e.1 e.2 = g e.1 e.2) : m.filterMap f = m.filterMap g := by
  apply ext
  show List.filterMap _ m.entries = List.filterMap _ m.entries
  revert h
  induction m.entries with
  | nil => exact fun _ => rfl
  | cons e es ih =>
    intro h
    obtain ⟨he, hes⟩ := List.forall_mem_cons.1 h
    rw [List.filterMap_cons, List.filterMap_cons, he, ih hes]

theorem mapValues_eq_filterMap (f : κ → ν → μ) (m : OrderedMap κ ν) :
    m.mapValues f = m.filterMap fun k v => some (f k v) := by
  apply ext
  show List.map _ m.entries = List.filterMap _ m.entries
  rw [← List.filterMap_eq_map]
  rfl

/-- The pairs that are kept stay in their order. -/
theorem entries_filterKeys (p : κ → Bool) (m : OrderedMap κ ν) :
    (m.filterKeys p).entries = m.entries.filter fun e => p e.1 := by
  show List.filterMap _ m.entries = _
  rw [← List.filterMap_eq_filter]
  congr 1
  funext e
  cases h : p e.1 <;> simp [h, Option.guard]

theorem keys_filterKeys (p : κ → Bool) (m : OrderedMap κ ν) :
    (m.filterKeys p).keys = m.keys.filter p := by
  rw [keys, entries_filterKeys, keys, List.filter_map]
  rfl

theorem mapValues_filterKeys (f : κ → ν → μ) (p : κ → Bool) (m : OrderedMap κ ν) :
    (m.filterKeys p).mapValues f = (m.mapValues f).filterKeys p := by
  apply ext
  rw [entries_filterKeys]
  show List.map _ (m.filterKeys p).entries = List.filter _ (List.map _ m.entries)
  rw [entries_filterKeys, List.filter_map]
  rfl

/-! ## Insertion -/

section Insert

variable [DecidableEq κ]

/-- Set a key in a list of pairs: in its place if it is there, at the end if not. -/
def insertEntry (k : κ) (v : ν) : List (κ × ν) → List (κ × ν)
  | [] => [(k, v)]
  | e :: es => if e.1 = k then (k, v) :: es else e :: insertEntry k v es

theorem map_fst_insertEntry (k : κ) (v : ν) (es : List (κ × ν)) :
    (insertEntry k v es).map Prod.fst =
      if k ∈ es.map Prod.fst then es.map Prod.fst else es.map Prod.fst ++ [k] := by
  induction es with
  | nil => simp [insertEntry]
  | cons e es ih =>
    by_cases h : e.1 = k
    · simp [insertEntry, h]
    · have h' : ¬ k = e.1 := fun hk => h hk.symm
      simp only [insertEntry, h, if_false, List.map_cons, ih, List.mem_cons, h', false_or]
      split <;> simp

/-- Set the value of a key. -/
def insert (m : OrderedMap κ ν) (k : κ) (v : ν) : OrderedMap κ ν where
  entries := insertEntry k v m.entries
  nodup_keys := by
    rw [map_fst_insertEntry]
    split
    · exact m.nodup_keys
    · next h =>
      rw [List.nodup_append]
      refine ⟨m.nodup_keys, by simp, ?_⟩
      intro a ha b hb hab
      rw [List.mem_singleton] at hb
      exact h (hb ▸ hab ▸ ha)

theorem keys_insert (m : OrderedMap κ ν) (k : κ) (v : ν) :
    (m.insert k v).keys = if k ∈ m.keys then m.keys else m.keys ++ [k] :=
  map_fst_insertEntry k v m.entries

theorem mem_keys_insert (m : OrderedMap κ ν) (k : κ) (v : ν) (k' : κ) :
    k' ∈ (m.insert k v).keys ↔ k' = k ∨ k' ∈ m.keys := by
  rw [keys_insert]
  split
  · next h => exact ⟨Or.inr, fun hk => hk.elim (fun e => e ▸ h) id⟩
  · simp [or_comm]

theorem lookup_insertEntry (k : κ) (v : ν) (es : List (κ × ν)) (k' : κ) :
    (insertEntry k v es).lookup k' = if k' = k then some v else es.lookup k' := by
  induction es with
  | nil => simp [insertEntry, lookup_cons_eq]
  | cons e es ih =>
    by_cases h : e.1 = k
    · subst h
      simp only [insertEntry, if_true, lookup_cons_eq]
      split <;> rfl
    · simp only [insertEntry, h, if_false, lookup_cons_eq, ih]
      by_cases h' : k' = e.1
      · simp [h', h]
      · simp [h']

@[simp] theorem get?_insert (m : OrderedMap κ ν) (k : κ) (v : ν) (k' : κ) :
    (m.insert k v).get? k' = if k' = k then some v else m.get? k' :=
  lookup_insertEntry k v m.entries k'

/-- Insert pairs one after the other. -/
def insertAll (m : OrderedMap κ ν) (pairs : List (κ × ν)) : OrderedMap κ ν :=
  pairs.foldl (fun m e => m.insert e.1 e.2) m

/-- The map of a list of pairs: a key stands where it first came and has the
value that came last. -/
def ofList (pairs : List (κ × ν)) : OrderedMap κ ν := insertAll ∅ pairs

theorem insertAll_cons (m : OrderedMap κ ν) (e : κ × ν) (pairs : List (κ × ν)) :
    m.insertAll (e :: pairs) = (m.insert e.1 e.2).insertAll pairs := rfl

theorem get?_insertAll (m : OrderedMap κ ν) (pairs : List (κ × ν)) (k : κ) :
    (m.insertAll pairs).get? k = (pairs.reverse.lookup k).or (m.get? k) := by
  induction pairs generalizing m with
  | nil => simp [insertAll]
  | cons e pairs ih =>
    rw [insertAll_cons, ih, List.reverse_cons, List.lookup_append, get?_insert, lookup_cons_eq]
    cases pairs.reverse.lookup k with
    | some w => simp
    | none => by_cases hk : k = e.1 <;> simp [hk]

/-- Of several pairs with one key the last one counts. -/
theorem get?_ofList (pairs : List (κ × ν)) (k : κ) :
    (ofList pairs).get? k = pairs.reverse.lookup k := by
  simp [ofList, get?_insertAll]

theorem mem_of_get?_ofList {pairs : List (κ × ν)} {k : κ} {v : ν}
    (h : (ofList pairs).get? k = some v) : (k, v) ∈ pairs := by
  rw [get?_ofList] at h
  obtain ⟨l₁, l₂, hl, -⟩ := List.lookup_eq_some_iff.1 h
  rw [← List.mem_reverse, hl]
  exact List.mem_append_right _ List.mem_cons_self

/-- Where all pairs of a key have the same value, the key has that value. -/
theorem get?_ofList_of_forall {pairs : List (κ × ν)} {k : κ} {v : ν} (hk : k ∈ pairs.map Prod.fst)
    (hv : ∀ w, (k, w) ∈ pairs → w = v) : (ofList pairs).get? k = some v := by
  have hs : (pairs.reverse.lookup k).isSome = true := by
    rw [isSome_lookup, List.map_reverse, List.mem_reverse]
    exact hk
  rw [← get?_ofList, Option.isSome_iff_exists] at hs
  obtain ⟨w, hw⟩ := hs
  rw [hw, hv w (mem_of_get?_ofList hw)]

theorem mem_keys_insertAll (m : OrderedMap κ ν) (pairs : List (κ × ν)) (k : κ) :
    k ∈ (m.insertAll pairs).keys ↔ k ∈ m.keys ∨ k ∈ pairs.map Prod.fst := by
  induction pairs generalizing m with
  | nil => simp [insertAll]
  | cons e pairs ih => rw [insertAll_cons, ih, mem_keys_insert]; grind

theorem mem_keys_ofList (pairs : List (κ × ν)) (k : κ) :
    k ∈ (ofList pairs).keys ↔ k ∈ pairs.map Prod.fst := by
  simp [ofList, mem_keys_insertAll]

theorem keys_insertAll_of_subset {m : OrderedMap κ ν} {pairs : List (κ × ν)}
    (h : ∀ e ∈ pairs, e.1 ∈ m.keys) : (m.insertAll pairs).keys = m.keys := by
  induction pairs generalizing m with
  | nil => rfl
  | cons e pairs ih =>
    obtain ⟨he, hrest⟩ := List.forall_mem_cons.1 h
    have hkeys : (m.insert e.1 e.2).keys = m.keys := by rw [keys_insert, if_pos he]
    rw [insertAll_cons, ih fun e' he' => hkeys.symm ▸ hrest e' he', hkeys]

/-- Of pairs with distinct keys those with new keys go to the end, in their order. -/
theorem keys_insertAll_of_nodup (m : OrderedMap κ ν) {pairs : List (κ × ν)}
    (h : (pairs.map Prod.fst).Nodup) :
    (m.insertAll pairs).keys = m.keys ++ (pairs.map Prod.fst).filter fun k => k ∉ m.keys := by
  induction pairs generalizing m with
  | nil => simp [insertAll]
  | cons e pairs ih =>
    obtain ⟨hnew, hrest⟩ := List.nodup_cons.1 h
    rw [insertAll_cons, ih _ hrest, keys_insert, List.map_cons, List.filter_cons]
    by_cases he : e.1 ∈ m.keys
    · simp [he]
    · -- the key just set does not come again
      have hlater : ((pairs.map Prod.fst).filter fun k => k ∉ m.keys ++ [e.1]) =
          (pairs.map Prod.fst).filter fun k => k ∉ m.keys := by
        refine List.filter_congr fun k hk => ?_
        have hne : k ≠ e.1 := fun heq => hnew (heq ▸ hk)
        simp [hne]
      rw [if_neg he, hlater]
      simp [he]

theorem insertEntry_of_not_mem {es : List (κ × ν)} {k : κ} {v : ν} (h : k ∉ es.map Prod.fst) :
    insertEntry k v es = es ++ [(k, v)] := by
  induction es with
  | nil => rfl
  | cons e es ih =>
    rw [List.map_cons, List.mem_cons, not_or] at h
    rw [insertEntry, if_neg (Ne.symm h.1), ih h.2, List.cons_append]

theorem entries_insertAll_of_nodup {m : OrderedMap κ ν} {pairs : List (κ × ν)}
    (h : ((m.entries ++ pairs).map Prod.fst).Nodup) :
    (m.insertAll pairs).entries = m.entries ++ pairs := by
  induction pairs generalizing m with
  | nil => simp [insertAll]
  | cons e pairs ih =>
    have he : e.1 ∉ m.entries.map Prod.fst := by
      rw [List.map_append, List.map_cons, List.nodup_append] at h
      exact fun hm => h.2.2 _ hm _ List.mem_cons_self rfl
    have hins : (m.insert e.1 e.2).entries = m.entries ++ [e] := insertEntry_of_not_mem he
    rw [insertAll_cons, ih]
    · rw [hins, List.append_assoc, List.singleton_append]
    · rwa [hins, List.append_assoc, List.singleton_append]

theorem entries_ofList_of_nodup {pairs : List (κ × ν)} (h : (pairs.map Prod.fst).Nodup) :
    (ofList pairs).entries = pairs :=
  entries_insertAll_of_nodup (m := ∅) h

/-- A map is the map of its pairs. -/
theorem ofList_entries (m : OrderedMap κ ν) : ofList m.entries = m :=
  OrderedMap.ext (entries_ofList_of_nodup m.nodup_keys)

end Insert

end OrderedMap

end ForestPager
