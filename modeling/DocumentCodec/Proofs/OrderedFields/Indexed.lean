import DocumentCodec.Proofs.Appending
/-!
# Fields with an index of their names

A record finds a field by scanning its names.  A record that answers at once keeps, beside its
fields in their order, an index from each name to its place, and follows the index wherever it
points: `IndexedFields` does what such a record does, change by change.

The index is a second copy of the order, so it can be wrong in two ways: it can point past the
fields, or at a field of another name.  An operation that would read past the fields, or would move
a field up from the first place, has no answer here.  That none of them ever does, and that each
gives what the scan gives, is one statement about every operation: it takes fields that are
`IndexedFields.Of` a record to fields that are `Of` the record after the same operation.

Only taking a field out is more than a step: every field behind it moves up by one, and its place in
the index with it, one field after the other.
-/

namespace DocumentCodec

/-! ## The place of a name

Where a name is found, and that there is one place for it, is what the index has to know and the
scan finds out. -/

/-- The field of a name stands between fields of other names. -/
structure Parted (fields : List Field) (name : String) (front : List Field) (field : Field)
    (back : List Field) : Prop where
  split : fields = front ++ field :: back
  named : field.name = name
  before : ∀ other ∈ front, other.name ≠ name
  behind : ∀ other ∈ back, other.name ≠ name

namespace Record

variable {record : Record} {name : String}

/-- Where names are distinct, the field of a name parts the others. -/
theorem exists_parted (distinct : record.fieldNames.Nodup) (there : record.contains name = true) :
    ∃ front field back, Parted record.fields name front field back := by
  obtain ⟨field, mem, named⟩ := List.mem_map.mp ((contains_iff record name).mp there)
  obtain ⟨front, back, split⟩ := List.append_of_mem mem
  subst named
  rw [fieldNames, split, List.map_append, List.map_cons, List.nodup_append, List.nodup_cons]
    at distinct
  -- the names are distinct, so no other field has this one, before it or behind
  obtain ⟨-, ⟨fresh, -⟩, apart⟩ := distinct
  refine ⟨front, field, back, split, rfl, ?_, ?_⟩
  · intro other among
    exact apart _ (List.mem_map_of_mem among) _ (List.mem_cons_self)
  · intro other among same
    exact fresh (same ▸ List.mem_map_of_mem among)

theorem index?_of_missing (absent : record.contains name = false) : record.index? name = none :=
  findIdx?_others ((contains_eq_false_iff record name).mp absent)

theorem entry?_of_missing (absent : record.contains name = false) : record.entry? name = none :=
  find?_others ((contains_eq_false_iff record name).mp absent)

/-- There is nothing to change where no field has the name. -/
theorem modifyField_of_missing (absent : record.contains name = false) (change : Field → Field) :
    record.modifyField name change = record := by
  rw [modifyField, map_others ((contains_eq_false_iff record name).mp absent)]
  cases record
  rfl

theorem fields_remove_of_missing (absent : record.contains name = false) :
    (record.remove name).2.fields = record.fields :=
  filter_others ((contains_eq_false_iff record name).mp absent)

end Record

namespace Parted

variable {record : Record} {name : String} {front back : List Field} {field : Field}

theorem index? (parted : Parted record.fields name front field back) :
    record.index? name = some front.length := by
  simp [Record.index?, parted.split, List.findIdx?_append, List.findIdx?_cons,
    Record.findIdx?_others parted.before, parted.named]

theorem entry? (parted : Parted record.fields name front field back) :
    record.entry? name = some field := by
  simp [Record.entry?, parted.split, List.find?_append, Record.find?_others parted.before, parted.named]

/-- One field changes, the others stay. -/
theorem modifyField (parted : Parted record.fields name front field back) (change : Field → Field) :
    (record.modifyField name change).fields = front ++ change field :: back := by
  rw [Record.modifyField, parted.split, List.map_append, List.map_cons, if_pos parted.named,
    Record.map_others parted.before, Record.map_others parted.behind]

/-- One field goes, the others stay. -/
theorem remove (parted : Parted record.fields name front field back) :
    (record.remove name).2.fields = front ++ back := by
  rw [Record.remove, parted.split, List.filter_append,
    List.filter_cons_of_neg (by simp [parted.named]), Record.filter_others parted.before,
    Record.filter_others parted.behind]

/-- Another name has its place in front, or one place further behind than without the field. -/
theorem index?_of_ne (parted : Parted record.fields name front field back) {other : String}
    (differs : other ≠ name) :
    record.index? other = (front.findIdx? (·.name = other)).or
      ((back.findIdx? (·.name = other)).map (· + (front.length + 1))) := by
  have named : field.name ≠ other := fun same => differs (same.symm.trans parted.named)
  rw [Record.index?, parted.split, List.findIdx?_append, List.findIdx?_cons,
    if_neg (by simpa using named), Option.map_map]
  congr 2
  funext place
  show place + 1 + front.length = _
  omega

theorem index?_remove (parted : Parted record.fields name front field back) (other : String) :
    (record.remove name).2.index? other = (front.findIdx? (·.name = other)).or
      ((back.findIdx? (·.name = other)).map (· + front.length)) := by
  rw [Record.index?, parted.remove, List.findIdx?_append]

/-- The names in front are distinct, those behind are, and no name is in front and behind. -/
theorem distinct (parted : Parted record.fields name front field back)
    (distinct : record.fieldNames.Nodup) :
    (front.map (·.name)).Nodup ∧ (back.map (·.name)).Nodup ∧
      ∀ one ∈ front.map (·.name), ∀ other ∈ back.map (·.name), one ≠ other := by
  rw [Record.fieldNames, parted.split, List.map_append, List.map_cons, List.nodup_append,
    List.nodup_cons] at distinct
  obtain ⟨distinctFront, ⟨-, distinctBack⟩, apart⟩ := distinct
  exact ⟨distinctFront, distinctBack, fun one among other among' =>
    apart one among other (List.mem_cons_of_mem _ among')⟩

end Parted

/-! ## Operations

Each operation asks the index first, and has no answer where that points past the fields. -/

/-- Fields in their order, with an index of their names. -/
structure IndexedFields where
  fields : List Field
  index : NameIndex

namespace IndexedFields

/-- No fields. -/
def empty : IndexedFields := ⟨[], fun _ => none⟩

variable (indexed : IndexedFields) (name : String)

/-- The index has the name. -/
def contains : Bool := (indexed.index name).isSome

/-- The field that the index points at, if it has the name. -/
def entry? : Option (Option Field) :=
  match indexed.index name with
  | none => some none
  | some place => (indexed.fields[place]?).map some

/-- Enters a field behind the others. -/
def push (field : Field) : IndexedFields :=
  ⟨indexed.fields ++ [field],
    Function.update indexed.index field.name (some indexed.fields.length)⟩

/-- Changes the field at a place. -/
def change (place : Nat) (change : Field → Field) : Option IndexedFields :=
  (indexed.fields[place]?).map fun field =>
    { indexed with fields := indexed.fields.set place (change field) }

/-- Gives a field a value: where the index points, or behind the others. -/
def set (value : Value) : Option IndexedFields :=
  match indexed.index name with
  | some place => indexed.change place fun field => { field with value := value }
  | none => some (indexed.push ⟨name, value, none⟩)

/-- Gives a field a value and pins its type. -/
def setPinned (value : Value) (tag : TypeTag) : Option IndexedFields :=
  match indexed.index name with
  | some place =>
    indexed.change place fun field => { field with value := value, pinned := some tag }
  | none => some (indexed.push ⟨name, value, some tag⟩)

/-- Pins a field to a type, or to none; `false` if the index does not have it. -/
def pin (tag : Option TypeTag) : Option (Bool × IndexedFields) :=
  match indexed.index name with
  | some place =>
    (indexed.change place fun field => { field with pinned := tag }).map fun pinned =>
      (true, pinned)
  | none => some (false, indexed)

end IndexedFields

/-- The index after the fields moved up by one, one after the other. -/
def NameIndex.movedUp : List Field → NameIndex → Option NameIndex
  | [], index => some index
  | field :: later, index =>
    match index field.name with
    | none => movedUp later index
    | some 0 => none
    | some (place + 1) => movedUp later (Function.update index field.name (some place))

/-- Takes the field out that the index points at, and gives its value. -/
def IndexedFields.remove (indexed : IndexedFields) (name : String) :
    Option (Option Value × IndexedFields) :=
  match indexed.index name with
  | none => some (none, indexed)
  | some place =>
    match indexed.fields[place]? with
    | none => none
    | some field =>
      let fields := indexed.fields.eraseIdx place
      let index := Function.update indexed.index name none
      (NameIndex.movedUp (fields.drop place) index).map fun index =>
        (some field.value, ⟨fields, index⟩)

/-! ## The index stays right

An operation that changes no name leaves the index as it is; one that adds a name gives it the last
place; and one that takes a name out moves every place behind it up by one. -/

/-- The index gives the places of the record's fields, whose names are distinct. -/
structure IndexedFields.Of (indexed : IndexedFields) (record : Record) : Prop where
  fields : indexed.fields = record.fields
  index : indexed.index.IsOf record
  distinct : record.fieldNames.Nodup

namespace IndexedFields.Of

variable {indexed : IndexedFields} {record : Record} {name : String}

theorem empty (owner : Record) : IndexedFields.empty.Of { owner with fields := [] } where
  fields := rfl
  index _ := rfl
  distinct := List.nodup_nil

theorem index_of_absent (right : indexed.Of record) (absent : record.contains name = false) :
    indexed.index name = none := (right.index name).trans (Record.index?_of_missing absent)

theorem contains (right : indexed.Of record) : indexed.contains name = record.contains name := by
  rw [IndexedFields.contains, right.index, Record.index?, Record.contains, List.findIdx?_isSome]

/-- What is found through the index is the field of the name, and the index never points past the
end. -/
theorem entry? (right : indexed.Of record) : indexed.entry? name = some (record.entry? name) := by
  cases there : record.contains name with
  | false =>
    rw [IndexedFields.entry?, right.index_of_absent there, Record.entry?_of_missing there]
  | true =>
    obtain ⟨front, field, back, parted⟩ := Record.exists_parted right.distinct there
    rw [IndexedFields.entry?, right.index, parted.index?, parted.entry?, right.fields, parted.split]
    simp

/-- A field that was pushed is entered at its place. -/
theorem push (right : indexed.Of record) {field : Field}
    (absent : record.contains field.name = false) :
    (indexed.push field).Of (record.append field.name field.value field.pinned) where
  fields := by
    rw [IndexedFields.push, Record.append, right.fields]
    cases field
    rfl
  index name := by
    have place := Record.index?_bind absent field.value field.pinned name
    rw [Record.bind] at place
    show Function.update indexed.index field.name (some indexed.fields.length) name = _
    rw [place, Function.update_apply, right.index name, right.fields]
    rfl
  distinct := Record.nodup_append _ _ _ _ right.distinct absent

/-- A change that keeps the name keeps every place. -/
theorem change (right : indexed.Of record) (there : record.contains name = true)
    (change : Field → Field) (keeps : ∀ field, (change field).name = field.name) :
    ∃ place changed, indexed.index name = some place ∧
      indexed.change place change = some changed ∧ changed.Of (record.modifyField name change) := by
  obtain ⟨front, field, back, parted⟩ := Record.exists_parted right.distinct there
  refine ⟨front.length, { indexed with fields := front ++ change field :: back },
    (right.index name).trans parted.index?, ?_, ?_⟩
  · rw [IndexedFields.change, right.fields, parted.split]
    simp
  · -- the names are as they were, so every other place is found where it was
    have names := Record.fieldNames_modifyField record name keeps
    refine ⟨(parted.modifyField change).symm, fun other => ?_, names ▸ right.distinct⟩
    have places (record : Record) : record.index? other = record.fieldNames.findIdx? (· = other) := by
      rw [Record.fieldNames, List.findIdx?_map]
      rfl
    rw [places, names, ← places]
    exact right.index other

/-- To set a value changes the field at its place, or puts a new one at the end and into the index.
-/
theorem set (right : indexed.Of record) (name : String) (value : Value) :
    ∃ changed, indexed.set name value = some changed ∧ changed.Of (record.set name value) := by
  cases there : record.contains name with
  | true =>
    obtain ⟨place, changed, index, change, right'⟩ :=
      right.change there (fun field => { field with value := value }) fun _ => rfl
    exact ⟨changed, by rw [IndexedFields.set, index]; exact change,
      by rw [Record.set, if_pos there]; exact right'⟩
  | false =>
    exact ⟨_, by rw [IndexedFields.set, right.index_of_absent there],
      by rw [Record.set, if_neg (by simp [there])]; exact right.push there⟩

/-- The same with a tag. -/
theorem setPinned (right : indexed.Of record) (name : String) (value : Value) (tag : TypeTag) :
    ∃ changed, indexed.setPinned name value tag = some changed ∧
      changed.Of (record.setPinned name value tag) := by
  cases there : record.contains name with
  | true =>
    obtain ⟨place, changed, index, change, right'⟩ := right.change there
      (fun field => { field with value := value, pinned := some tag }) fun _ => rfl
    exact ⟨changed, by rw [IndexedFields.setPinned, index]; exact change,
      by rw [Record.setPinned, if_pos there]; exact right'⟩
  | false =>
    exact ⟨_, by rw [IndexedFields.setPinned, right.index_of_absent there],
      by rw [Record.setPinned, if_neg (by simp [there])]; exact right.push there⟩

/-- To pin a tag changes a field that there is and says so; without one nothing changes. -/
theorem pin (right : indexed.Of record) (name : String) (tag : Option TypeTag) :
    ∃ changed, indexed.pin name tag = some ((record.pin name tag).1, changed) ∧
      changed.Of (record.pin name tag).2 := by
  cases there : record.contains name with
  | true =>
    obtain ⟨place, changed, index, change, right'⟩ :=
      right.change there (fun field => { field with pinned := tag }) fun _ => rfl
    refine ⟨changed, ?_, right'⟩
    rw [IndexedFields.pin, index]
    dsimp only
    rw [change, Record.pin, there]
    rfl
  | false =>
    refine ⟨indexed, ?_, ?_⟩
    · rw [IndexedFields.pin, right.index_of_absent there, Record.pin, there]
    · rw [Record.pin, Record.modifyField_of_missing there]
      exact right

end IndexedFields.Of

/-- Fields of distinct names that do not stand in front move up; the places of others stay. -/
theorem NameIndex.movedUp_eq_some {later : List Field} (distinct : (later.map (·.name)).Nodup) :
    ∀ index : NameIndex, (∀ field ∈ later, index field.name ≠ some 0) →
    ∃ moved, movedUp later index = some moved ∧ ∀ name, moved name =
      if name ∈ later.map (·.name) then (index name).map (· - 1) else index name := by
  induction later with
  | nil =>
    intro index _
    exact ⟨index, rfl, fun name => by simp⟩
  | cons field later ih =>
    intro index behind
    rw [List.map_cons, List.nodup_cons] at distinct
    obtain ⟨fresh, distinct⟩ := distinct
    have apart : ∀ other ∈ later, other.name ≠ field.name := fun other among same =>
      fresh (same ▸ List.mem_map_of_mem among)
    have rest : ∀ other ∈ later, index other.name ≠ some 0 := fun other among =>
      behind other (List.mem_cons_of_mem _ among)
    cases there : index field.name with
    | none =>
      -- a name that the index does not know is passed over
      obtain ⟨moved, run, places⟩ := ih distinct index rest
      refine ⟨moved, by rw [movedUp, there]; exact run, fun name => ?_⟩
      rw [places, List.map_cons]
      by_cases same : name = field.name
      · subst same
        simp [fresh, there]
      · simp [same]
    | some place =>
      cases place with
      -- the place is one more than another, so the subtraction is safe
      | zero => exact absurd there (behind field List.mem_cons_self)
      | succ place =>
        obtain ⟨moved, run, places⟩ :=
          ih distinct (Function.update index field.name (some place)) fun other among => by
            rw [Function.update_of_ne (apart other among)]
            exact rest other among
        refine ⟨moved, by rw [movedUp, there]; exact run, fun name => ?_⟩
        rw [places, List.map_cons]
        by_cases same : name = field.name
        · subst same
          simp [fresh, there]
        · simp [same]

namespace IndexedFields.Of

variable {indexed : IndexedFields} {record : Record} {name : String} {front back : List Field}
  {field : Field}

/-- The places after a field was taken out: those behind it went down by one, the others stayed. -/
theorem movedUp (right : indexed.Of record)
    (parted : Parted record.fields name front field back) :
    ∃ moved, NameIndex.movedUp back (Function.update indexed.index name none) = some moved ∧
      moved.IsOf (record.remove name).2 := by
  obtain ⟨-, distinctBack, apart⟩ := parted.distinct right.distinct
  have places {other : String} (differs : other ≠ name) :
      Function.update indexed.index name none other = (front.findIdx? (·.name = other)).or
        ((back.findIdx? (·.name = other)).map (· + (front.length + 1))) := by
    rw [Function.update_of_ne differs, right.index, parted.index?_of_ne differs]
  have missing {other : String} (among : other ∈ back.map (·.name)) :
      front.findIdx? (·.name = other) = none :=
    Record.findIdx?_others fun before mem => apart _ (List.mem_map_of_mem mem) _ among
  obtain ⟨moved, run, moves⟩ := NameIndex.movedUp_eq_some distinctBack
    (Function.update indexed.index name none) fun later among => by
      rw [places (parted.behind later among), missing (List.mem_map_of_mem among)]
      cases back.findIdx? (·.name = later.name) <;> simp
  refine ⟨moved, run, fun other => ?_⟩
  rw [moves, parted.index?_remove]
  by_cases same : other = name
  · -- the name that was taken out is in neither part
    subst same
    have absent : other ∉ back.map (·.name) := fun among => by
      obtain ⟨later, mem, named⟩ := List.mem_map.mp among
      exact parted.behind later mem named
    rw [if_neg absent, Function.update_self, Record.findIdx?_others parted.before,
      Record.findIdx?_others parted.behind]
    rfl
  · -- a name in front keeps its place, one behind it goes down by the field taken out
    rw [places same]
    split
    · next among =>
      rw [missing among]
      cases back.findIdx? (·.name = other) with
      | none => rfl
      | some place =>
        show some (place + (front.length + 1) - 1) = some (place + front.length)
        congr 1
    · next absent =>
      have missing : back.findIdx? (·.name = other) = none :=
        Record.findIdx?_others fun later mem same => absent (same ▸ List.mem_map_of_mem mem)
      rw [missing]
      rfl

/-- **Taking a field out** moves the fields behind it up, and their places with them. -/
theorem remove (right : indexed.Of record) (name : String) :
    ∃ changed, indexed.remove name = some ((record.remove name).1, changed) ∧
      changed.Of (record.remove name).2 := by
  cases there : record.contains name with
  | false =>
    have fields := Record.fields_remove_of_missing there
    have found : (record.remove name).1 = none := by
      rw [Record.remove, Record.field?, Record.entry?_of_missing there]
      rfl
    refine ⟨indexed, ?_, right.fields.trans fields.symm, fun other => ?_, ?_⟩
    · rw [IndexedFields.remove, right.index_of_absent there, found]
    · rw [right.index, Record.index?, Record.index?, fields]
    · rw [Record.fieldNames, fields]
      exact right.distinct
  | true =>
    obtain ⟨front, field, back, parted⟩ := Record.exists_parted right.distinct there
    obtain ⟨distinctFront, distinctBack, apart⟩ := parted.distinct right.distinct
    obtain ⟨moved, run, places⟩ := right.movedUp parted
    have found : (record.remove name).1 = some field.value := by
      rw [Record.remove, Record.field?, parted.entry?]
      rfl
    have index : indexed.index name = some front.length := (right.index name).trans parted.index?
    have fields : indexed.fields = front ++ field :: back := right.fields.trans parted.split
    -- the index leads to the field, so taking out its place is taking out the field
    have here : indexed.fields[front.length]? = some field := by simp [fields]
    have erased : indexed.fields.eraseIdx front.length = front ++ back := by
      rw [fields, List.eraseIdx_append_of_length_le (Nat.le_refl _), Nat.sub_self]
      rfl
    refine ⟨⟨front ++ back, moved⟩, ?_, parted.remove.symm, places, ?_⟩
    · rw [IndexedFields.remove, index]
      dsimp only
      rw [here]
      dsimp only
      rw [erased, List.drop_left, run, found]
      rfl
    · rw [Record.fieldNames, parted.remove, List.map_append, List.nodup_append]
      exact ⟨distinctFront, distinctBack, apart⟩

example :
    let three : IndexedFields := ((IndexedFields.empty.push ⟨"a", .null, none⟩).push
      ⟨"b", .null, none⟩).push ⟨"c", .null, none⟩
    (three.remove "b").map (fun removed => (removed.2.index "a", removed.2.index "c"))
      = some (some 0, some 1) := by decide

end IndexedFields.Of
end DocumentCodec
