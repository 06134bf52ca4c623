import DocumentCodec.Value
/-!
# Records as ordered maps

The operations on a record's fields.  Field names are distinct in every record that these
operations build: `set` and `setPinned` overwrite a field where it stands or append a new one, and
`bind`, which the decoder uses, appends a field that was checked to be absent.
-/

namespace DocumentCodec.Record

/-- A record with no class, no identity and no fields. -/
def new : Record := ⟨none, RecordId.empty, [], false⟩

instance : Inhabited Record := ⟨new⟩

/-- The field that holds the class name of a serializable object in the record made from it. -/
def serializableClassField : String := "__orientdb_serilized_class__ "

/-! ## Looking up -/

variable (record : Record) (name : String)

/-- The number of fields. -/
def size : Nat := record.fields.length

/-- There are no fields. -/
def isEmpty : Bool := record.fields.isEmpty

/-- The names of the fields in order. -/
def fieldNames : List String := record.fields.map (·.name)

/-- The field of a name, with its value and its pinned type. -/
def entry? : Option Field := record.fields.find? (·.name = name)

/-- The place of a field among the fields. -/
def index? : Option Nat := record.fields.findIdx? (·.name = name)

/-- The record has a field of that name. -/
def contains : Bool := record.fields.any (·.name = name)

/-- The value of a field. -/
def field? : Option Value := (record.entry? name).map (·.value)

/-- The type that a field is pinned to. -/
def pinnedType? : Option TypeTag := (record.entry? name).bind (·.pinned)

/-! ## Changing -/

/-- Changes the field of a name, where there is one. -/
def modifyField (change : Field → Field) : Record :=
  { record with
    fields := record.fields.map fun f => if f.name = name then change f else f }

/-- Appends a field. -/
def append (value : Value) (pinned : Option TypeTag) : Record :=
  { record with fields := record.fields ++ [⟨name, value, pinned⟩] }

/-- Gives a field a value.  A field that is there keeps its place and its pinned type. -/
def set (value : Value) : Record :=
  if record.contains name then record.modifyField name fun f => { f with value := value }
  else record.append name value none

/-- Gives a field a value and pins its type.  A field that is there keeps its place. -/
def setPinned (value : Value) (tag : TypeTag) : Record :=
  if record.contains name then
    record.modifyField name fun f => { f with value := value, pinned := some tag }
  else record.append name value (some tag)

/-- Pins a field to a type, or to none; `false` if there is no such field. -/
def pin (tag : Option TypeTag) : Bool × Record :=
  (record.contains name, record.modifyField name fun f => { f with pinned := tag })

/-- Takes a field out and gives its value; the fields after it move up. -/
def remove : Option Value × Record :=
  (record.field? name, { record with fields := record.fields.filter (·.name ≠ name) })

/-- Appends a decoded field, which the caller knows to be absent. -/
def bind (value : Value) (pinned : Option TypeTag) : Record := record.append name value pinned

/-! ## Small lemmas -/

/-- To change a field under its name changes no name. -/
@[simp] theorem fieldNames_modifyField {change : Field → Field}
    (keeps : ∀ f, (change f).name = f.name) :
    (record.modifyField name change).fieldNames = record.fieldNames := by
  simp only [fieldNames, modifyField, List.map_map]
  apply List.map_congr_left
  intro f _
  show (if f.name = name then change f else f).name = f.name
  split
  · exact keeps f
  · rfl

@[simp] theorem fieldNames_append (value : Value) (pinned : Option TypeTag) :
    (record.append name value pinned).fieldNames = record.fieldNames ++ [name] := by
  simp [fieldNames, append]

theorem contains_iff : record.contains name = true ↔ name ∈ record.fieldNames := by
  simp [contains, fieldNames]

theorem contains_eq_false_iff :
    record.contains name = false ↔ ∀ field ∈ record.fields, field.name ≠ name := by
  simp [contains]

section Others

variable {fields : List Field} {name : String} (others : ∀ field ∈ fields, field.name ≠ name)
include others

/-! Fields of other names: nothing is found among them, and nothing changes. -/

theorem findIdx?_others : fields.findIdx? (·.name = name) = none :=
  List.findIdx?_eq_none_iff.mpr fun field among => decide_eq_false (others field among)

theorem find?_others : fields.find? (·.name = name) = none :=
  List.find?_eq_none.mpr fun field among => by simpa using others field among

theorem map_others (change : Field → Field) :
    fields.map (fun f => if f.name = name then change f else f) = fields :=
  (List.map_congr_left fun field among => if_neg (others field among)).trans (List.map_id _)

theorem filter_others : fields.filter (·.name ≠ name) = fields :=
  List.filter_eq_self.mpr fun field among => by simpa using others field among

end Others

/-- Where names are distinct, the field of a name is the one that has it. -/
theorem entry?_eq_some_iff {record : Record} (distinct : record.fieldNames.Nodup) {name : String}
    {field : Field} :
    record.entry? name = some field ↔ field ∈ record.fields ∧ field.name = name := by
  unfold entry?
  constructor
  · intro found
    exact ⟨List.mem_of_find?_eq_some found, by simpa using List.find?_some found⟩
  · rintro ⟨there, rfl⟩
    rw [fieldNames] at distinct
    generalize record.fields = fields at distinct there ⊢
    induction fields with
    | nil => simp at there
    | cons first rest ih =>
      rw [List.map_cons, List.nodup_cons] at distinct
      rcases List.mem_cons.mp there with rfl | later
      · simp
      · -- the names are distinct, so the search does not stop before
        have differs : first.name ≠ field.name := fun same =>
          distinct.1 (List.mem_map.mpr ⟨field, later, same.symm⟩)
        simpa [differs] using ih distinct.2 later

/-- The value of a field is found under its name. -/
theorem field?_of_mem {record : Record} {field : Field} (distinct : record.fieldNames.Nodup)
    (there : field ∈ record.fields) : record.field? field.name = some field.value := by
  rw [field?, (entry?_eq_some_iff distinct).mpr ⟨there, rfl⟩]
  rfl

/-- Appending a field that is not there keeps the names distinct. -/
theorem nodup_append (value : Value) (pinned : Option TypeTag)
    (distinct : record.fieldNames.Nodup) (absent : record.contains name = false) :
    (record.append name value pinned).fieldNames.Nodup := by
  have fresh : name ∉ record.fieldNames := by simp [← contains_iff, absent]
  rw [fieldNames_append]
  refine List.nodup_append.mpr ⟨distinct, by simp, ?_⟩
  rintro other there last same rfl
  exact fresh (List.mem_singleton.mp same ▸ there)

/-- A bound field is there, and the others as before. -/
theorem contains_bind (value : Value) (pinned : Option TypeTag) (other : String) :
    (record.bind name value pinned).contains other
      = (record.contains other || decide (name = other)) := by
  simp [contains, bind, append]

end DocumentCodec.Record
