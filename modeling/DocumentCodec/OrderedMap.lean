/-!
# Maps in key order

A map with string keys is its list of entries, keys ascending by code point, which is also the
order of their UTF-8 bytes.  `insert` keeps that order and gives each key one entry: a later value
for a key takes the place of the earlier one.
-/

namespace DocumentCodec.OrderedMap

variable {α : Type}

/-- The map with `key` bound to `value`. -/
def insert (key : String) (value : α) : List (String × α) → List (String × α)
  | [] => [(key, value)]
  | (k, v) :: rest =>
    if key < k then (key, value) :: (k, v) :: rest
    else if key = k then (key, value) :: rest
    else (k, v) :: insert key value rest

/-- The map of `entries`; of two entries with one key the later one counts. -/
def ofList (entries : List (String × α)) : List (String × α) :=
  entries.foldl (fun map entry => insert entry.1 entry.2 map) []

/-- The value bound to `key`. -/
def find? (key : String) (map : List (String × α)) : Option α :=
  (map.find? (·.1 = key)).map (·.2)

/-- The keys ascend, so each occurs once. -/
abbrev Ascending (map : List (String × α)) : Prop := map.Pairwise fun a b => a.1 < b.1

/-! ## Small lemmas -/

/-- A new key is the only one that an insertion adds. -/
theorem mem_insert {key : String} {value : α} {map : List (String × α)} {entry : String × α}
    (h : entry ∈ insert key value map) : entry = (key, value) ∨ entry ∈ map := by
  induction map with
  | nil => exact Or.inl (List.mem_singleton.mp h)
  | cons first rest ih =>
    obtain ⟨k, v⟩ := first
    unfold insert at h
    split at h
    · rcases List.mem_cons.mp h with same | there
      · exact Or.inl same
      · exact Or.inr there
    · split at h
      · rcases List.mem_cons.mp h with same | there
        · exact Or.inl same
        · exact Or.inr (List.mem_cons_of_mem _ there)
      · rcases List.mem_cons.mp h with same | there
        · exact Or.inr (same ▸ List.mem_cons_self)
        · rcases ih there with same | deeper
          · exact Or.inl same
          · exact Or.inr (List.mem_cons_of_mem _ deeper)

/-- Insertion keeps the order of the keys. -/
theorem ascending_insert {map : List (String × α)} (ordered : Ascending map) (key : String)
    (value : α) : Ascending (insert key value map) := by
  induction map with
  | nil => exact List.pairwise_singleton _ _
  | cons first rest ih =>
    obtain ⟨k, v⟩ := first
    obtain ⟨below, ordered'⟩ := List.pairwise_cons.mp ordered
    unfold insert
    split
    · next less =>
      -- the new key goes in front: it is below the first one, and so below all others
      refine List.pairwise_cons.mpr ⟨fun entry h => ?_, ordered⟩
      rcases List.mem_cons.mp h with same | there
      · exact same ▸ less
      · exact String.lt_trans less (below entry there)
    · split
      · next same =>
        subst same
        -- the same key keeps its place
        exact List.pairwise_cons.mpr ⟨below, ordered'⟩
      · next notLess notSame =>
        -- the new key goes further back, and whatever follows the first entry now is the new one or
        -- was there
        have more : k < key := by
          rcases Std.le_total (a := k) (b := key) with le | le
          · exact Std.lt_of_le_of_ne le (Ne.symm notSame)
          · exact absurd (Std.lt_of_le_of_ne le notSame) notLess
        refine List.pairwise_cons.mpr ⟨fun entry h => ?_, ih ordered'⟩
        rcases mem_insert h with same | there
        · exact same ▸ more
        · exact below entry there

/-- Whatever entries a map is made from, its keys ascend. -/
theorem ascending_ofList (entries : List (String × α)) : Ascending (ofList entries) := by
  have general : ∀ (entries map : List (String × α)), Ascending map →
      Ascending (entries.foldl (fun map entry => insert entry.1 entry.2 map) map) := by
    intro entries
    induction entries with
    | nil =>
      intro map ordered
      exact ordered
    | cons entry rest ih =>
      intro map ordered
      exact ih _ (ascending_insert ordered entry.1 entry.2)
  exact general entries [] List.Pairwise.nil

/-- A key that was just bound is found. -/
theorem find?_insert_self (key : String) (value : α) (map : List (String × α)) :
    find? key (insert key value map) = some value := by
  induction map with
  | nil => simp [insert, find?]
  | cons entry rest ih =>
    obtain ⟨k, v⟩ := entry
    unfold insert
    split
    · simp [find?]
    · split
      · simp [find?]
      · next _ differs =>
        have skip : find? key ((k, v) :: insert key value rest)
            = find? key (insert key value rest) := by
          simp [find?, Ne.symm differs]
        rw [skip, ih]

/-- The other keys keep their values. -/
theorem find?_insert_of_ne {key other : String} (differs : other ≠ key) (value : α)
    (map : List (String × α)) : find? other (insert key value map) = find? other map := by
  induction map with
  | nil => simp [insert, find?, Ne.symm differs]
  | cons entry rest ih =>
    obtain ⟨k, v⟩ := entry
    unfold insert
    split
    · simp [find?, Ne.symm differs]
    · split
      · next _ same =>
        subst same
        simp [find?, Ne.symm differs]
      · -- the first entry stays: either it is what is looked for, or the search goes on behind it
        by_cases here : k = other
        · simp [find?, here]
        · have skip (tail : List (String × α)) :
              find? other ((k, v) :: tail) = find? other tail := by
            simp [find?, here]
          rw [skip, skip, ih]

/-- A key above all others goes to the end. -/
theorem insert_of_above {key : String} {value : α} {map : List (String × α)}
    (above : ∀ entry ∈ map, entry.1 < key) : insert key value map = map ++ [(key, value)] := by
  induction map with
  | nil => rfl
  | cons first rest ih =>
    obtain ⟨k, v⟩ := first
    have less : k < key := above (k, v) List.mem_cons_self
    have differs : key ≠ k := fun same => String.lt_irrefl k (same ▸ less)
    rw [insert, if_neg (String.lt_asymm less), if_neg differs,
      ih fun entry there => above entry (List.mem_cons_of_mem _ there), List.cons_append]

/-- Entries in order are the map that they make. -/
theorem ofList_eq_self {entries : List (String × α)} (ordered : Ascending entries) :
    ofList entries = entries := by
  -- the entries already inserted vary: they are all below those to come, so each of those goes to
  -- the end
  have general : ∀ (entries map : List (String × α)), Ascending (map ++ entries) →
      entries.foldl (fun map entry => insert entry.1 entry.2 map) map = map ++ entries := by
    intro entries
    induction entries with
    | nil =>
      intro map _
      rw [List.foldl_nil, List.append_nil]
    | cons first rest ih =>
      intro map ordered
      have above : ∀ entry ∈ map, entry.1 < first.1 := fun entry there =>
        (List.pairwise_append.mp ordered).2.2 entry there first List.mem_cons_self
      rw [List.append_cons] at ordered
      rw [List.foldl_cons, insert_of_above above, ih _ ordered, List.append_assoc,
        List.singleton_append]
  exact general entries [] ordered

end DocumentCodec.OrderedMap
