import DocumentCodec.Proofs.Factories
import DocumentCodec.Proofs.Normal
/-!
# Encoding calls no factory

An encoding asks a registry whether it has a factory for a type of objects, and calls none.  So it
is the same encoding with all factories muted, and the same values are written.
-/

namespace DocumentCodec

variable {context : Context} {other : Option Registry}
  (names : ∀ name, other.any (·.hasCustom name) = context.registry.any (·.hasCustom name))

namespace Encoding

include names

/-- Of all bodies that hold no others only that of an object looks at the registry, for whether its
type has a name there. -/
theorem writeScalar_registering : writeScalar (context.registering other) = writeScalar context := by
  have custom : writeCustom (context.registering other) = writeCustom context := by
    funext field typeName stream
    rw [writeCustom, writeCustom, ← names typeName]
    rfl
  funext field tag value
  unfold writeScalar
  rw [custom]
  rfl

/-- One level of bodies. -/
theorem writeBodyWith_registering (inner : Except CodecError BodyWriter) :
    writeBodyWith (context.registering other) inner = writeBodyWith context inner := by
  have record (write : BodyWriter) :
      writeRecord (context.registering other) write = writeRecord context write := rfl
  unfold writeBodyWith
  simp only [writeScalar_registering names, record]

/-- Every level, by induction on them. -/
theorem writeBody_registering (room : Nat) :
    writeBody (context.registering other) room = writeBody context room := by
  induction room with
  | zero => exact writeBodyWith_registering names _
  | succ room ih => rw [writeBody, writeBody, ih, writeBodyWith_registering names]

end Encoding

namespace Record

include names in
/-- An encoding asks for the names that have factories and for nothing else of a registry. -/
theorem encode_registering (record : Record) :
    record.encode (context.registering other) = record.encode context := by
  have emission : record.emission (context.registering other) = record.emission context :=
    congrArg (Encoding.writeRecord context · record)
      (Encoding.writeBody_registering names context.options.maxDepth)
  rw [encode, encode, emission]

variable (context)

/-- **Muted factories are written for like any others.** -/
theorem encode_muted (record : Record) : record.encode context.muted = record.encode context := by
  refine encode_registering (fun name => ?_) record
  cases context.registry with
  | none => rfl
  | some registry => exact Registry.isKeptBy_muted.hasCustom

theorem levels_muted (record : Record) : record.levels context.muted = record.levels context := by
  have pinned : pinnedTag context.muted = pinnedTag context := rfl
  have linked : linkedTag context.muted = linkedTag context := rfl
  exact Record.levels_congr pinned linked record

end Record
end DocumentCodec
