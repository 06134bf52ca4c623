import DocumentCodec.Proofs.Lockstep
import DocumentCodec.Proofs.Normal
import DocumentCodec.Proofs.Schema
/-!
# A schema that binds nothing

Without a schema every field is written by name, but the bytes may be read under a schema all the
same.  Both are what a schema does that still resolves ids and binds no field: it writes as none
does, and it reads as the whole schema does.  So an encoding and a decoding under different contexts
become an encoding and a decoding under one.
-/

namespace DocumentCodec

/-- The schema that resolves the same ids and binds no field. -/
def Snapshot.unbound (schema : Snapshot) : Snapshot := { schema with ofField? := fun _ _ => none }

namespace Context

/-- The context without a schema. -/
def plain (context : Context) : Context := { context with schema := none }

/-- The context with a schema that resolves the same ids and binds no field. -/
def unbound (context : Context) : Context :=
  { context with schema := context.schema.map (·.unbound) }

end Context

variable (context : Context)

/-- No field is bound there. -/
theorem Encoding.property?_unbound (className : Option String) (field : String) :
    property? context.unbound className field = none := by
  obtain ⟨options, schema, registry, resolver⟩ := context
  cases schema with
  | none => rfl
  | some schema => cases className <;> rfl

theorem pinnedTag_unbound (className : Option String) (field : String) :
    pinnedTag context.unbound className field = none :=
  pinnedTag_of_none (Encoding.property?_unbound context className field)

theorem linkedTag_unbound (className : Option String) (field : String) :
    linkedTag context.unbound className field = none :=
  linkedTag_of_none (Encoding.property?_unbound context className field)

/-- A schema that says nothing of fields does not contradict itself. -/
theorem Context.isCoherent_unbound (schema : Snapshot) (known : context.unbound.schema = some schema) :
    schema.IsCoherent := by
  obtain ⟨whole, -, rfl⟩ := Option.map_eq_some_iff.mp known
  exact ⟨fun className field property found => by cases found⟩

/-! ## Writing without a schema -/

namespace Encoding

/-- One record: each entry of its header names the field, and no tag is prescribed. -/
theorem writeRecord_plain (inner : BodyWriter) :
    writeRecord context.plain inner = writeRecord context.unbound inner := by
  have entries : fieldEntry context.plain inner = fieldEntry context.unbound inner := by
    funext className field
    rw [fieldEntry, fieldEntry, property?_unbound]
    rfl
  funext record
  rw [writeRecord, writeRecord, entries]

/-- One level of bodies; what is written of a scalar does not ask the schema. -/
theorem writeBodyWith_plain (inner : Except CodecError BodyWriter) :
    writeBodyWith context.plain inner = writeBodyWith context.unbound inner := by
  have scalar : writeScalar context.plain = writeScalar context.unbound := rfl
  unfold writeBodyWith
  simp only [writeRecord_plain, scalar]

/-- Every level, by induction on them. -/
theorem writeBody_plain (room : Nat) :
    writeBody context.plain room = writeBody context.unbound room := by
  induction room with
  | zero => exact writeBodyWith_plain context _
  | succ room ih => rw [writeBody, writeBody, ih, writeBodyWith_plain]

end Encoding

/-- **Without a schema the same is written as with one that binds no field.** -/
theorem Record.encode_plain (record : Record) :
    record.encode context.plain = record.encode context.unbound := by
  have emission : record.emission context.plain = record.emission context.unbound := by
    rw [emission, emission, Encoding.writeRecord_plain]
    exact congrArg (Encoding.writeRecord context.unbound · record)
      (Encoding.writeBody_plain context context.options.maxDepth)
  rw [encode, encode, emission]

/-! ## Reading under the schema -/

/-- A schema is read with by its ids alone. -/
theorem Lockstep.unbound (input : List UInt8) :
    Lockstep (fun _ => False) context context.unbound input input := by
  refine .of_context input (fun id => Or.inl ?_) rfl rfl
  obtain ⟨options, schema, registry, resolver⟩ := context
  cases schema with
  | none => rfl
  | some schema => rfl

/-- **With the schema that binds no field the same is read as with the whole one**, since a reader
asks a schema for the property of an id and for nothing else. -/
theorem Record.decode_unbound (input : List UInt8) (projection : Option (List String))
    (target : Record) :
    decode context.unbound input projection target = decode context input projection target := by
  have follows := (Lockstep.unbound context input).decodeFrom (Nat.le_refl _)
    (fun less => absurd less (Nat.lt_irrefl _)) projection
  rw [decode, decode, follows.eq]

/-! ## What is written -/

/-- The parts of a record are the same too, each with the tag it is written under. -/
theorem Record.written_plain (record : Record) :
    record.written context.plain = record.written context.unbound := by
  refine record.written_congr ?_ ?_ <;> funext className field
  · rw [pinnedTag_unbound]
    rfl
  · rw [linkedTag_unbound]
    rfl

end DocumentCodec
