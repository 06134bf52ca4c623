import DocumentCodec.Proofs.OrderedFields.Indexed
/-!
# Fields as a plain association list

What an ordered map is, with nothing in it but the order: a list of names, each with a value and the
type it is pinned to.  Every operation walks the list to the first entry of the name and changes it
there, or comes to the end.

A record changes every field of a name and a list its first entry; the two are the same only where
names are distinct.  Each walk passes over the entries of other names, so it is enough to see what
it does at the entry itself and at the end.
-/

namespace DocumentCodec

/-- Names in order, each with its value and the type it is pinned to. -/
abbrev Entries := List (String × Value × Option TypeTag)

namespace Entries

/-- Overwrites the value of a name in place, or appends it; `repin` makes the pinned type from the
one before. -/
def write (name : String) (value : Value) (repin : Option TypeTag → Option TypeTag) :
    Entries → Entries
  | [] => [(name, value, repin none)]
  | (other, old, pinned) :: rest =>
    if other = name then (name, value, repin pinned) :: rest
    else (other, old, pinned) :: write name value repin rest

/-- Pins the entry of a name to a type, or to none; `false` if there is no such entry. -/
def pin (name : String) (tag : Option TypeTag) : Entries → Bool × Entries
  | [] => (false, [])
  | (other, value, pinned) :: rest =>
    if other = name then (true, (name, value, tag) :: rest)
    else ((pin name tag rest).1, (other, value, pinned) :: (pin name tag rest).2)

/-- Deletes the entry of a name, and gives its value. -/
def remove (name : String) : Entries → Option Value × Entries
  | [] => (none, [])
  | (other, value, pinned) :: rest =>
    if other = name then (some value, rest)
    else ((remove name rest).1, (other, value, pinned) :: (remove name rest).2)

/-- The entries of fields. -/
def ofFields (fields : List Field) : Entries :=
  fields.map fun field => (field.name, field.value, field.pinned)

@[simp] theorem ofFields_append (front back : List Field) :
    ofFields (front ++ back) = ofFields front ++ ofFields back := List.map_append

@[simp] theorem ofFields_cons (field : Field) (fields : List Field) : ofFields (field :: fields)
    = (field.name, field.value, field.pinned) :: ofFields fields := rfl

/-! ## Walks pass over other names

A walk that meets entries of other names does the same behind them, so an operation is what it does
where its name stands. -/

section Past

variable {front : List Field} {name : String} (others : ∀ field ∈ front, field.name ≠ name)
  (rest : Entries)
include others

/-- Entries of other names are passed over when a name is looked up. -/
theorem lookup_past : List.lookup name (ofFields front ++ rest) = List.lookup name rest := by
  induction front with
  | nil => rfl
  | cons field front ih =>
    have differs : (name == field.name) = false := by
      simpa using Ne.symm (others field List.mem_cons_self)
    rw [ofFields_cons, List.cons_append, List.lookup_cons, differs]
    exact ih fun other among => others other (List.mem_cons_of_mem _ among)

/-- They are passed over when a value is written. -/
theorem write_past (value : Value) (repin : Option TypeTag → Option TypeTag) :
    write name value repin (ofFields front ++ rest)
      = ofFields front ++ write name value repin rest := by
  induction front with
  | nil => rfl
  | cons field front ih =>
    rw [ofFields_cons, List.cons_append, write, if_neg (others field List.mem_cons_self),
      ih fun other among => others other (List.mem_cons_of_mem _ among), List.cons_append]

/-- They are passed over when a tag is pinned. -/
theorem pin_past (tag : Option TypeTag) : pin name tag (ofFields front ++ rest)
    = ((pin name tag rest).1, ofFields front ++ (pin name tag rest).2) := by
  induction front with
  | nil => rfl
  | cons field front ih =>
    rw [ofFields_cons, List.cons_append, pin, if_neg (others field List.mem_cons_self),
      ih fun other among => others other (List.mem_cons_of_mem _ among), List.cons_append]

/-- They are passed over when a name is removed. -/
theorem remove_past : remove name (ofFields front ++ rest)
    = ((remove name rest).1, ofFields front ++ (remove name rest).2) := by
  induction front with
  | nil => rfl
  | cons field front ih =>
    rw [ofFields_cons, List.cons_append, remove, if_neg (others field List.mem_cons_self),
      ih fun other among => others other (List.mem_cons_of_mem _ among), List.cons_append]

end Past

/-! ## The list is that of the record -/

/-- The entries are those of the record's fields, whose names are distinct. -/
structure Of (entries : Entries) (record : Record) : Prop where
  entries : entries = ofFields record.fields
  distinct : record.fieldNames.Nodup

namespace Of

variable {entries : Entries} {record : Record} {name : String}

theorem empty (owner : Record) : Of [] { owner with fields := [] } := ⟨rfl, List.nodup_nil⟩

theorem names (right : Of entries record) : entries.map (·.1) = record.fieldNames := by
  rw [right.entries, ofFields, List.map_map]
  rfl

/-- A name that is not there: the walk comes to the end. -/
theorem eq_of_absent (right : Of entries record) (absent : record.contains name = false) :
    entries = ofFields record.fields ++ [] ∧ ∀ field ∈ record.fields, field.name ≠ name :=
  ⟨by rw [right.entries, List.append_nil], (Record.contains_eq_false_iff record name).mp absent⟩

/-- A name that is there: the walk comes to its entry. -/
theorem eq_of_parted {front back : List Field} {field : Field} (right : Of entries record)
    (parted : Parted record.fields name front field back) :
    entries = ofFields front ++ (name, field.value, field.pinned) :: ofFields back := by
  rw [right.entries, parted.split, ofFields_append, ofFields_cons, parted.named]

/-- What the list has for a name is the value and the tag of the record's field. -/
theorem lookup (right : Of entries record) : List.lookup name entries
    = (record.entry? name).map fun field => (field.value, field.pinned) := by
  cases there : record.contains name with
  | false =>
    obtain ⟨same, others⟩ := right.eq_of_absent there
    rw [same, lookup_past others, Record.entry?_of_missing there]
    rfl
  | true =>
    obtain ⟨front, field, back, parted⟩ := Record.exists_parted right.distinct there
    rw [right.eq_of_parted parted, lookup_past parted.before, parted.entry?, List.lookup_cons,
      beq_self_eq_true]
    rfl

/-- A field that was bound is appended. -/
theorem push (right : Of entries record) (field : Field)
    (absent : record.contains field.name = false) :
    Of (entries ++ [(field.name, field.value, field.pinned)])
      (record.append field.name field.value field.pinned) where
  entries := by
    rw [right.entries, Record.append, ofFields_append]
    rfl
  distinct := Record.nodup_append _ _ _ _ right.distinct absent

/-- What overwrites a field or appends it is a `write`. -/
theorem write (right : Of entries record) (value : Value)
    (repin : Option TypeTag → Option TypeTag) :
    Of (Entries.write name value repin entries)
      (if record.contains name then record.modifyField name fun field =>
          { field with value := value, pinned := repin field.pinned }
        else record.append name value (repin none)) := by
  cases there : record.contains name with
  | false =>
    obtain ⟨same, others⟩ := right.eq_of_absent there
    rw [if_neg (by simp), same, write_past others]
    exact right.entries ▸ right.push ⟨name, value, repin none⟩ there
  | true =>
    obtain ⟨front, field, back, parted⟩ := Record.exists_parted right.distinct there
    rw [if_pos rfl]
    constructor
    · rw [right.eq_of_parted parted, write_past parted.before, parted.modifyField, Entries.write,
        if_pos rfl, ofFields_append, ofFields_cons, parted.named]
    · rw [Record.fieldNames_modifyField]
      · exact right.distinct
      · exact fun _ => rfl

theorem set (right : Of entries record) (name : String) (value : Value) :
    Of (Entries.write name value id entries) (record.set name value) := right.write value id

theorem setPinned (right : Of entries record) (name : String) (value : Value) (tag : TypeTag) :
    Of (Entries.write name value (fun _ => some tag) entries) (record.setPinned name value tag) :=
  right.write value fun _ => some tag

/-- To pin a tag in both answers alike and keeps them in step. -/
theorem pin (right : Of entries record) (name : String) (tag : Option TypeTag) :
    (Entries.pin name tag entries).1 = (record.pin name tag).1 ∧
      Of (Entries.pin name tag entries).2 (record.pin name tag).2 := by
  cases there : record.contains name with
  | false =>
    obtain ⟨same, others⟩ := right.eq_of_absent there
    rw [same, pin_past others, Record.pin, there, Record.modifyField_of_missing there]
    exact ⟨rfl, by rw [Entries.pin, List.append_nil], right.distinct⟩
  | true =>
    obtain ⟨front, field, back, parted⟩ := Record.exists_parted right.distinct there
    rw [right.eq_of_parted parted, pin_past parted.before, Entries.pin, if_pos rfl, Record.pin, there]
    refine ⟨rfl, ?_, ?_⟩
    · rw [parted.modifyField, ofFields_append, ofFields_cons, parted.named]
    · show (record.modifyField name _).fieldNames.Nodup
      rw [Record.fieldNames_modifyField]
      · exact right.distinct
      · exact fun _ => rfl

/-- To remove a name in both answers alike and keeps them in step. -/
theorem remove (right : Of entries record) (name : String) :
    (Entries.remove name entries).1 = (record.remove name).1 ∧
      Of (Entries.remove name entries).2 (record.remove name).2 := by
  have distinct : (record.remove name).2.fieldNames.Nodup :=
    List.Nodup.sublist (List.Sublist.map _ List.filter_sublist) right.distinct
  cases there : record.contains name with
  | false =>
    -- nothing has the name, and nothing is taken out
    obtain ⟨same, others⟩ := right.eq_of_absent there
    rw [same, remove_past others]
    refine ⟨?_, ?_, distinct⟩
    · rw [Record.remove, Record.field?, Record.entry?_of_missing there]
      rfl
    · rw [Record.fields_remove_of_missing there, Entries.remove, List.append_nil]
  | true =>
    -- the one field of the name is taken out, and those in front of it are passed over
    obtain ⟨front, field, back, parted⟩ := Record.exists_parted right.distinct there
    rw [right.eq_of_parted parted, remove_past parted.before, Entries.remove, if_pos rfl]
    refine ⟨?_, ?_, distinct⟩
    · rw [Record.remove, Record.field?, parted.entry?]
      rfl
    · rw [parted.remove, ofFields_append]

end Of
end Entries
end DocumentCodec
