import DocumentCodec.Proofs.RoundTrip.Record
/-!
# Embedded records and objects, read back

A serializable object is stored as its record with one field more, which holds the class name, and
a reader takes every embedded record with such a field for an object.  So an object comes back as
one because the field is found, and its record comes back because the field is taken out again; a
plain record comes back as one because it has no such field.
-/

namespace DocumentCodec

/-! ## The field that marks an object

Setting the field and taking it out again leaves the record, if it had none of that name; and a
record in order has no two of a name. -/

namespace Record

variable {record : Record} {name : String} {value : Value}

theorem className_set : (record.set name value).className = record.className := by
  rw [set]
  split <;> rfl

theorem fields_set (absent : record.contains name = false) :
    (record.set name value).fields = record.fields ++ [⟨name, value, none⟩] := by
  rw [set, absent]
  rfl

/-- Setting a field changes no other one. -/
theorem mem_fields_set {field : Field} (there : field ∈ (record.set name value).fields) :
    field ∈ record.fields ∨ field.name = name ∧ field.value = value := by
  rw [set] at there
  split at there
  · obtain ⟨before, inside, same⟩ := List.mem_map.mp there
    by_cases here : before.name = name
    · rw [if_pos here] at same
      exact Or.inr ⟨same ▸ here, same ▸ rfl⟩
    · rw [if_neg here] at same
      exact Or.inl (same ▸ inside)
  · rcases List.mem_append.mp there with inside | last
    · exact Or.inl inside
    · rw [List.mem_singleton.mp last]
      exact Or.inr ⟨rfl, rfl⟩

/-- Setting a field keeps the names distinct. -/
theorem nodup_set (distinct : record.fieldNames.Nodup) :
    (record.set name value).fieldNames.Nodup := by
  rw [set]
  split
  · rw [fieldNames_modifyField]
    · exact distinct
    · exact fun _ => rfl
  · next absent => exact nodup_append record name value none distinct (Bool.eq_false_iff.mpr absent)

theorem isWellFormed_distinct (formed : record.isWellFormed = true) : record.fieldNames.Nodup := by
  cases record
  exact of_decide_eq_true (Bool.and_eq_true_iff.mp formed).1

/-- A record whose names are those of the fields that another one leaves a trace of has no other
names than that one. -/
theorem absent_of_kept {made : Record}
    (names : made.fieldNames = (record.fields.filter (!Encoding.isOmitted ·)).map (·.name))
    (absent : record.contains name = false) : ∀ field ∈ made.fields, field.name ≠ name := by
  intro field there same
  have inside : field.name ∈ made.fieldNames := List.mem_map_of_mem there
  rw [names] at inside
  obtain ⟨before, kept, named⟩ := List.mem_map.mp inside
  exact (contains_eq_false_iff record name).mp absent before (List.mem_filter.mp kept).1
    (named.trans same)

/-- The field that was appended is found, for no other has its name. -/
theorem field?_append {pinned : Option TypeTag}
    (absent : ∀ field ∈ record.fields, field.name ≠ name) :
    (record.append name value pinned).field? name = some value := by
  have last : [(⟨name, value, pinned⟩ : Field)].find? (·.name = name)
      = some ⟨name, value, pinned⟩ := List.find?_cons_of_pos (decide_eq_true rfl)
  rw [field?, entry?, append, List.find?_append, find?_others absent, last]
  rfl

/-- Taking out the field that was appended leaves the record as it was. -/
theorem remove_append {pinned : Option TypeTag}
    (absent : ∀ field ∈ record.fields, field.name ≠ name) :
    ((record.append name value pinned).remove name).2 = record := by
  have marker : [(⟨name, value, pinned⟩ : Field)].filter (·.name ≠ name) = [] :=
    List.filter_cons_of_neg fun kept => of_decide_eq_true kept rfl
  rw [remove, append]
  show { record with fields := (record.fields ++ [_]).filter (·.name ≠ name) } = record
  rw [List.filter_append, filter_others absent, marker, List.append_nil]
  cases record
  rfl

end Record

namespace Decoding

/-- What an embedded record is taken for: an object, if it is marked as one, and else a record. -/
def embed (context : Context) (record : Record) : Decoder Value :=
  match record.field? Record.serializableClassField with
  | some (.string className) =>
    match context.registry with
    | none => throw (.codec (.unregisteredType className))
    | some registry => do
      let object ← orThrow
        (registry.makeSerializable className (record.remove Record.serializableClassField).2)
      return .serializable object.className object.record
  | _ => return .embedded { record with isEmbedded := true }

/-- An embedded record is read like a record, into a target of its own, and then looked at for the
mark. -/
theorem readEmbedded_eq (context : Context) (input : List UInt8) (inner : BodyReader) :
    readEmbedded context input inner
      = readRecordInto context input inner none Record.new >>= embed context := by
  rw [readEmbedded, onNew_readRecord]
  rfl

end Decoding

/-- Taking a record for what it is reads nothing, and gives what is recalled of it. -/
theorem Recalls.embed {context : Context} {exact : Prop} {input : List UInt8} {start : Nat}
    {record : Record} {earlier : List LinkTarget} :
    Recalls exact context.RefusesWith input (Decoding.embed context record) start []
      (Recalling.answer (Recall.embed context record)) earlier earlier := by
  rw [Decoding.embed, Recall.embed]
  cases record.field? Record.serializableClassField with
  -- no mark: the record is what is embedded
  | none => exact pure _
  | some marker =>
    cases marker with
    | string className =>
      -- a mark: the record is handed to a factory, if there is one
      cases known : context.registry with
      | none => exact refused rfl (fun _ => rfl) (Or.inl rfl)
      | some registry =>
        simp only [Option.bind_eq_bind, Option.bind_some]
        generalize outcome : registry.makeSerializable className
          (record.remove Record.serializableClassField).2 = made
        cases made with
        | ok object => exact pure _
        | error e =>
          exact refused rfl (fun _ => rfl) (Context.isOverlap_makeSerializable known outcome)
    -- a field of that name that is no text marks nothing
    | _ => exact pure _

/-! ## Both kinds read back

An embedded record and the record of an object are read in one way, and what is made of it is
decided by the field. -/

/-- What marks an object is no record. -/
theorem Readable.marker (tag : TypeTag) (className : String) :
    Readable (tag, .string className) := by
  have holdsNone : heldRecord (tag, .string className) = none := by
    cases tag <;> rfl
  constructor
  · rfl
  · exact fun record held => by cases holdsNone.symm.trans held

/-- What is written for a marked record is what is written for the record, and the mark. -/
theorem Encoding.mem_written_markedRecord {context : Context} {className : String} {record : Record}
    {w : TypeTag × Value} (inside : w ∈ (markedRecord className record).written context) :
    w ∈ record.written context ∨ ∃ tag, w = (tag, .string className) := by
  rw [Record.written_eq, writtenFields_eq] at inside ⊢
  rw [markedRecord, Record.className_set] at inside
  obtain ⟨field, kept, inside⟩ := List.mem_flatMap.mp inside
  obtain ⟨there, notOmitted⟩ := List.mem_filter.mp kept
  rcases Record.mem_fields_set there with before | ⟨-, marks⟩
  · exact Or.inl (List.mem_flatMap.mpr ⟨field, List.mem_filter.mpr ⟨before, notOmitted⟩, inside⟩)
  · rw [writtenField, marks] at inside
    obtain ⟨tag, inside⟩ := mem_inSlot inside
    exact Or.inr ⟨tag, List.mem_singleton.mp inside⟩

/-- What is written for a marked record can be read back if what is written for the record can. -/
theorem Encoding.readable_markedRecord {context : Context} {className : String} {record : Record}
    (readable : ∀ w ∈ record.written context, Readable w) :
    ∀ w ∈ (markedRecord className record).written context, Readable w := by
  intro w inside
  rcases mem_written_markedRecord inside with before | ⟨tag, rfl⟩
  · exact readable w before
  · exact Readable.marker tag className

/-- The field for the mark has a name too. -/
theorem Encoding.named_markedRecord {className : String} {record : Record}
    (named : ∀ field ∈ record.fields, field.name ≠ "") :
    ∀ field ∈ (markedRecord className record).fields, field.name ≠ "" := by
  intro field there
  rcases Record.mem_fields_set there with before | ⟨marker, -⟩
  · exact named field before
  · rw [marker]
    decide

namespace Restores

variable {context : Context} {exact : Prop} {input : List UInt8} {write : BodyWriter}
  {read : BodyReader} {remember : BodyRecall}
  (restores : Restores context exact input write read remember)
  (coherent : ∀ schema, context.schema = some schema → schema.IsCoherent)
  (small : input.length < 2 ^ 63) {record : Record} {start : Nat}
  {earlier calls : List LinkTarget} {bytes : List UInt8} {linked : Option TypeTag}
include restores coherent small

/-- An embedded record comes back as one, or as the object that it is taken for. -/
theorem embedded
    (readable : ∀ w ∈ (Value.embedded record).written context .embedded linked,
      Readable w)
    (run : Encoding.writeRecord context write record start earlier = ⟨bytes, calls, .ok ()⟩) :
    Recalls exact context.RefusesWith input (Decoding.readEmbedded context input read) start bytes
      (Recall.embedded context remember record) earlier (earlier ++ calls) := by
  have self := readable _ (Value.mem_written _ _ _)
  rw [Decoding.readEmbedded_eq]
  exact (restores.record coherent small (fun w inside => readable w (List.mem_cons_of_mem _ inside))
    (self.named record rfl) (Record.isWellFormed_distinct self.formed) run).check
      fun made _ => Recalls.embed

/-- An object comes back from the record that it was stored as. -/
theorem serializable {className : String}
    (readable : ∀ w ∈ (Value.serializable className record).written context .embedded linked,
      Readable w)
    (run : Encoding.writeRecord context write (Encoding.markedRecord className record) start earlier
      = ⟨bytes, calls, .ok ()⟩) :
    Recalls exact context.RefusesWith input (Decoding.readEmbedded context input read) start bytes
      (Recall.embedded context remember (Encoding.markedRecord className record)) earlier
      (earlier ++ calls) := by
  have self := readable _ (Value.mem_written _ _ _)
  rw [Decoding.readEmbedded_eq]
  exact (restores.record coherent small
    (Encoding.readable_markedRecord fun w inside => readable w (List.mem_cons_of_mem _ inside))
    (Encoding.named_markedRecord (self.named record rfl))
    (Record.nodup_set (Record.isWellFormed_distinct self.formed)) run).check
      fun made _ => Recalls.embed

end Restores
end DocumentCodec
