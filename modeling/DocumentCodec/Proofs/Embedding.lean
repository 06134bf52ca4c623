import DocumentCodec.Proofs.Embedding.Container
import DocumentCodec.Proofs.RoundTrip
/-!
# Embedded records stay embedded

Without a schema and a registry nothing can be lost but days and records that bear the mark of an
object.  So where no day is written decoding goes through just if no record inside bears the mark,
and then every value comes back under the tag that it was written under: an embedded record as an
embedded record, with the names of its fields in order.
-/

namespace DocumentCodec

/-! ## Level by level -/

section Levels

variable {context : Context} (schemaless : context.schema = none)
  (unregistered : context.registry = none)
include schemaless unregistered

/-- One level more of containers, given that the bodies inside them come back. -/
theorem preserving_bodyWith {inner : Except CodecError BodyWriter} {remember : Option BodyRecall}
    (deeper : ∀ write, inner = .ok write →
      ∃ inside, remember = some inside ∧ Preserving context write inside) :
    Preserving context (Encoding.writeBodyWith context inner) (Recall.bodyWith context remember) := by
  constructor
  intro field tag value start earlier calls bytes run short ordinary
  have self := ordinary _ (Value.mem_written _ _ _)
  have below (w : TypeTag × Value) (there : w ∈ (value.written context tag none).tail) :
      Ordinary w := ordinary w (List.mem_of_mem_tail there)
  cases WrittenBody.of_eq_ok run with
  | scalar flat written =>
    rw [Recall.bodyWith_flat flat]
    exact .scalar unregistered self.dateless flat short written
  | embedded inside written =>
    obtain ⟨inner, rfl, preserving⟩ := deeper _ inside
    exact preserving.embedded schemaless unregistered ordinary written short
  | serializable inside written => exact absurd rfl (self.objectless _ _)
  | sequence sort elements inside written =>
    obtain ⟨inner, rfl, preserving⟩ := deeper _ inside
    have other : tag ≠ .embedded := by
      rintro rfl
      cases sort
    rw [Value.written_sequence elements] at below
    rw [Recall.bodyWith_sequence sort elements]
    refine .container other (Value.written_sequence elements none)
      (preserving.items below written short) (TypeTag.naturalTag_sequence sort) (fun made => ?_)
      fun made => Value.written_sequence (TypeTag.items?_sequence tag made) none
    -- neither is a text
    rw [Value.text?_of_items? elements, Value.text?_of_items? (TypeTag.items?_sequence tag made)]
  | map inside written =>
    obtain ⟨inner, rfl, preserving⟩ := deeper _ inside
    exact .container (by decide) rfl (preserving.members below written short) (fun _ => rfl)
      (fun _ => rfl) fun _ => rfl

/-- Every body comes back, however deep it nests. -/
theorem preserving_body (room : Nat) :
    Preserving context (Encoding.writeBody context room) (Recall.body context room) := by
  induction room with
  | zero => exact preserving_bodyWith schemaless unregistered fun write none => by cases none
  | succ room ih =>
    refine preserving_bodyWith schemaless unregistered fun write same => ⟨_, rfl, ?_⟩
    cases same
    exact ih

end Levels

namespace Record

variable {context : Context} {record : Record} {bytes : List UInt8}

/-- **Embedded records stay embedded, if none of them is taken for an object.**  Without a schema
and a registry, and where neither days nor objects are written, decoding what was encoded succeeds
just then.  It gives back the fields that left a trace, in order, and each value that was written
under the tag that it was written under: an embedded record as one, with the names that left a
trace. -/
theorem decode_embedded (formed : record.isWellFormed = true) (named : record.IsNamed context)
    (schemaless : context.schema = none) (unregistered : context.registry = none)
    (plain : ∀ w ∈ record.written context,
      w.1 ≠ .date ∧ ∀ className nested, w.2 ≠ .serializable className nested)
    (run : record.encode context = .ok bytes) (short : bytes.length < 2 ^ 31) :
    ((∃ state, decode context bytes none Record.new = .ok () state) ↔
      ¬BearsMark (record.written context)) ∧
    ∀ there made, decode context bytes none Record.new = .ok () ⟨there, made⟩ →
      there = ⟨bytes.length, bytes.length⟩ ∧ made.fieldNames = record.keptNames ∧
        List.Forall₂ ReadBackAs (record.written context) (made.written context) := by
  obtain ⟨calls, emitted⟩ := encode_eq_ok run
  -- the conditions on the parts are what one level needs of its contents
  have ordinary (w : TypeTag × Value) (there : w ∈ record.written context) : Ordinary w := by
    refine ⟨(plain w there).1, (plain w there).2, fun held holds => ?_⟩
    have formed := record.isWellFormed_written context formed w there
    rw [holds] at formed
    exact isWellFormed_distinct formed
  have told : UnlessMarked (record.written context) (record.recalled context) [] _ _ :=
    (preserving_body schemaless unregistered context.options.maxDepth).record schemaless ordinary
      emitted short
  have coherent (schema : Snapshot) (known : context.schema = some schema) :
      schema.IsCoherent := by
    rw [schemaless] at known
    cases known
  -- decoding gives what is recalled, or fails where nothing is; which of both it is depends on the
  -- marks
  rcases decode_encode_cases coherent formed named run (by omega) with
    ⟨made, _, -, recalled, decoded⟩ | ⟨lost, e, state, failed⟩
  · have unmarked : ¬BearsMark (record.written context) := by
      intro marked
      rw [told.lost marked] at recalled
      cases recalled
    obtain ⟨made', recalled', all⟩ := told.kept unmarked
    rw [recalled] at recalled'
    cases recalled'
    refine ⟨iff_of_true ⟨_, decoded⟩ unmarked, fun there again read => ?_⟩
    rw [decoded] at read
    cases read
    exact ⟨rfl, PreservedField.fieldNames all, PreservedField.written all⟩
  · have marked : BearsMark (record.written context) := by
      by_contra unmarked
      obtain ⟨made, recalled, -⟩ := told.kept unmarked
      rw [lost] at recalled
      cases recalled
    rw [failed]
    refine ⟨iff_of_false ?_ (not_not_intro marked), fun there made read => ?_⟩
    · rintro ⟨state, read⟩
      cases read
    · cases read

/-- A record whose mark is no text, and one in a list. -/
theorem decode_embedded_of_two :
    let marked : Record := ⟨none, RecordId.empty,
      [⟨serializableClassField, .byte 5, none⟩, ⟨"t", .transient, none⟩, ⟨"n", .null, none⟩], false⟩
    let listed : Record := ⟨some "C", RecordId.empty, [⟨"s", .string "x", none⟩], false⟩
    let record : Record := ⟨none, RecordId.empty,
      [⟨"r", .embedded marked, none⟩, ⟨"l", .embeddedList [.embedded listed], none⟩], false⟩
    let bytes : List UInt8 := [0, 1, 114, 0, 0, 0, 16, 9, 1, 108, 0, 0, 0, 61, 10, 0, 0, 29, 95, 95,
      111, 114, 105, 101, 110, 116, 100, 98, 95, 115, 101, 114, 105, 108, 105, 122, 101, 100, 95,
      99, 108, 97, 115, 115, 95, 95, 32, 0, 0, 0, 60, 17, 1, 110, 0, 0, 0, 0, 0, 0, 5, 1, 23, 9, 1,
      67, 1, 115, 0, 0, 0, 74, 7, 0, 1, 120]
    record.encode {} = .ok bytes ∧ ∃ made,
      decode {} bytes none Record.new = .ok () ⟨⟨bytes.length, bytes.length⟩, made⟩ ∧
        List.Forall₂ ReadBackAs (record.written {}) (made.written {}) := by
  intro marked listed record bytes
  have run : record.encode {} = .ok bytes := eq_ok_of_toOption (by decide +kernel)
  have named : record.IsNamed {} := by
    unfold IsNamed
    decide
  have written : record.written {} = [(.embedded, .embedded marked),
      (.byte, .byte 5), (.embeddedList, .embeddedList [.embedded listed]),
      (.embedded, .embedded listed), (.string, .string "x")] := rfl
  have plain : ∀ w ∈ record.written {},
      w.1 ≠ .date ∧ ∀ className nested, w.2 ≠ .serializable className nested := by
    simp [written]
  have unmarked : ¬BearsMark (record.written {}) := by
    rw [written]
    rintro ⟨nested, there, marks⟩
    simp only [List.mem_cons, Prod.mk.injEq, Value.embedded.injEq, reduceCtorEq, true_and,
      false_and, false_or, List.not_mem_nil, or_false] at there
    rcases there with rfl | rfl
    · exact absurd marks (by decide)
    · exact absurd marks (by decide)
  obtain ⟨back, each⟩ := decode_embedded rfl named rfl rfl plain run (by decide)
  obtain ⟨⟨there, made⟩, decoded⟩ := back.mpr unmarked
  obtain ⟨rfl, -, same⟩ := each there made decoded
  exact ⟨run, made, decoded, same⟩

/-- An embedded record with the mark of an object is lost, and so is the record around it. -/
theorem marked_lost :
    let marked : Record := ⟨none, RecordId.empty, [⟨serializableClassField, .string "x", none⟩], false⟩
    let record : Record := ⟨none, RecordId.empty, [⟨"e", .embedded marked, none⟩], false⟩
    let bytes : List UInt8 := [0, 1, 101, 0, 0, 0, 9, 9, 0, 0, 29, 95, 95, 111, 114, 105, 101, 110,
      116, 100, 98, 95, 115, 101, 114, 105, 108, 105, 122, 101, 100, 95, 99, 108, 97, 115, 115, 95,
      95, 32, 0, 0, 0, 46, 7, 0, 1, 120]
    record.isWellFormed = true ∧ record.IsNamed {} ∧
      record.written {} = [(.embedded, .embedded marked), (.string, .string "x")] ∧
      record.encode {} = .ok bytes ∧ bytes.length < 2 ^ 31 ∧
      decode {} bytes none Record.new
        = .error (.codec (.unregisteredType "x")) ⟨⟨48, 47⟩, Record.new⟩ := by
  intro marked record bytes
  have named : record.IsNamed {} := by
    unfold IsNamed
    decide
  have run : record.encode {} = .ok bytes := eq_ok_of_toOption (by decide +kernel)
  refine ⟨rfl, named, rfl, run, by decide, ?_⟩
  subst bytes
  rfl

end Record
end DocumentCodec
