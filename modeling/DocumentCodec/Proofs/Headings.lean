import DocumentCodec.Proofs.Projection
import DocumentCodec.Proofs.RoundTrip
import Mathlib.Data.List.TakeWhile
/-!
# Which fields a header tells of

Three things stand in a header under one signed number: a name, as its length; a property, as the
negative of its id less one; and the end, as zero.  A reader takes them apart by the sign.

The writer does not make sure that it can.  A name of no bytes begins with the zero that ends the
header, and so does a property of the id -1: whatever the record has from there on is written, but
never read.  An id below -1 would begin as a name does.  `endsHeader` and `looksNamed` say which
fields these are, and all that is told of the others is told truly.
-/

namespace DocumentCodec

/-- What the schema says of a field it says again when it is asked for the property's id, whatever
that id is. -/
structure Snapshot.AnswersAgain (schema : Snapshot) : Prop where
  again : ∀ className field property, schema.ofField? className field = some property →
    property.name = field ∧ schema.byId? property.id = some property

namespace Encoding

variable (context : Context) (className : Option String) (name : String)

/-- The heading of the field begins with the zero that ends the header. -/
def endsHeader : Bool :=
  match property? context className name with
  | some property => property.id.toInt = -1
  | none => name.isEmpty

/-- The heading of the field is a property id that begins as the length of a name does. -/
def looksNamed : Bool := (property? context className name).any (·.id.toInt < -1)

end Encoding

/-! ## Readings that went through

Of a reading that is known to come back if it succeeds, and that did succeed, it is known that it
came back. -/

/-- A reading that went through ends behind the bytes that it reads back, however much of the budget
was left to it. -/
theorem ReadsBack.of_ok {α : Type} {exact : Prop} {said : Failure → Prop}
    {input bytes : List UInt8} {read : Decoder α} {start visited : Nat} {there : Cursor} {a : α}
    {p : Nat → α → Prop} {q : α → Prop} (back : ReadsBack exact said input read start bytes q)
    (metered : Metered input read p) (holds : Holds input start bytes)
    (run : read ⟨start, visited⟩ = .ok a there) :
    there.position = start + bytes.length ∧ q a := by
  -- with the whole budget it goes through alike, and there it has room
  obtain ⟨spent, -, -, -, again⟩ := metered.ok run
  have room := holds.bound
  have ends := back holds 0 (by omega)
  rw [again 0 (Nat.zero_le _)] at ends
  exact ⟨congrArg Cursor.position ends.1, ends.2⟩

/-! ## One heading

Zero ends the header, whatever it was written for.  Any other heading names its field, by one way or
the other. -/

namespace Decoding

variable {context : Context} {input : List UInt8} {write : BodyWriter} {inner : BodyReader}
  {className : Option String} {field : Field} {start : Nat}

/-- A heading that begins with zero is taken for the end of the header. -/
theorem heading_ends (ends : Encoding.endsHeader context className field.name = true) :
    ReadsBack False Failure.Unsaid input (readHeading context input) start
      (Encoding.fieldEntry context write className field).label (· = none) := by
  rw [Encoding.endsHeader] at ends
  rw [Encoding.fieldEntry]
  cases known : Encoding.property? context className field.name with
  | none =>
    rw [known] at ends
    -- the length of an empty name is the zero that ends a header
    have empty : field.name = "" := String.isEmpty_iff.mp ends
    rw [empty]
    exact ReadsBack.headerEnd
  | some property =>
    rw [known] at ends
    -- and so is the negative of this id less one
    have last : property.id.toInt = -1 := of_decide_eq_true ends
    simp only [last]
    exact ReadsBack.headerEnd

variable (coherent : ∀ schema, context.schema = some schema → schema.AnswersAgain)
  (small : input.length < 2 ^ 63)
include coherent small

/-- **Any other heading leads back to its field.**  Wherever it stands, what is read there is the
name of the field and the type that the schema pins it to, unless nothing is read at all. -/
theorem heading_tells (goesOn : Encoding.endsHeader context className field.name = false)
    (plain : Encoding.looksNamed context className field.name = false) :
    ReadsBack False Failure.Unsaid input (readHeading context input) start
      (Encoding.fieldEntry context write className field).label
      (· = some ⟨field.name, pinnedTag context className field.name⟩) := by
  rw [Encoding.endsHeader] at goesOn
  rw [Encoding.looksNamed] at plain
  rw [Encoding.fieldEntry, pinnedTag]
  cases known : Encoding.property? context className field.name with
  | none =>
    rw [known] at goesOn
    have someName : field.name ≠ "" := by simpa using goesOn
    have recalled :
        Recalls False Failure.Unsaid input (readHeading context input) start _ _ [] [] :=
      Recalls.name small someName
    refine (recalled False.elim).mono fun heading same => ?_
    obtain ⟨_, _, -, same⟩ := Recalling.run_bind_eq_some.mp same
    cases same
    rfl
  | some property =>
    rw [known] at goesOn plain
    -- the id is neither that of the end of a header nor one that begins like a name
    have natural : 0 ≤ property.id.toInt := by
      have high := of_decide_eq_false goesOn
      have low : ¬property.id.toInt < -1 := by simpa using plain
      omega
    obtain ⟨schema, className', declared, there⟩ := Encoding.property?_eq_some known
    obtain ⟨same, again⟩ := (coherent schema declared).again className' field.name property there
    rw [← same]
    refine ReadsBack.naturalId natural ?_
    rw [property?, declared]
    exact again

/-! ## One walk

The walk goes through the fields as they were written, up to the first one whose heading ends it. -/

/-- A walk over the header binds the fields before the first one whose heading ends it, and no other
ones.  The induction is on the fields; the names are distinct, so the target has none of those to
come. -/
theorem walk_names : ∀ (kept : List Field) (entries last bound last₁ : Nat) (here there : Cursor)
    (target made : Record) (fillings : List (Option Filling)),
    (∀ field ∈ kept, Encoding.looksNamed context className field.name = false) →
    (kept.map (·.name)).Nodup →
    (∀ field ∈ kept, target.contains field.name = false) →
    Holds input here.position
      (Entry.encodeAll (kept.map (Encoding.fieldEntry context write className)) fillings
        ++ Varint.encode Encoding.headerEnd) →
    readFieldsInto context input inner none entries last bound target here
      = .ok (last₁, made) there →
    made.fieldNames = target.fieldNames ++ (kept.takeWhile fun field =>
      !Encoding.endsHeader context className field.name).map (·.name) := by
  intro kept
  induction kept with
  | nil =>
    intro entries last bound last₁ here there target made fillings _ _ _ holds run
    cases entries with
    | zero => cases run
    | succ entries =>
      rw [readFieldsInto_succ] at run
      obtain ⟨heading, headed, read, run⟩ := run_bind_eq_ok.mp run
      have back : ReadsBack False Failure.Unsaid input (readHeading context input) here.position
        _ _ := ReadsBack.headerEnd
      obtain ⟨-, rfl⟩ := back.of_ok metered_heading holds read
      cases run
      simp
  | cons field rest ih =>
    intro entries last bound last₁ here there target made fillings plain distinct fresh holds run
    cases entries with
    | zero => cases run
    | succ entries =>
      rw [readFieldsInto_succ] at run
      obtain ⟨heading, headed, read, run⟩ := run_bind_eq_ok.mp run
      have shape : Entry.encodeAll ((field :: rest).map (Encoding.fieldEntry context write className))
          fillings = (Encoding.fieldEntry context write className field).label
            ++ Slot.encode (Encoding.fieldEntry context write className field).pinned
              fillings.head?.join
            ++ Entry.encodeAll (rest.map (Encoding.fieldEntry context write className))
              fillings.tail := rfl
      rw [shape, List.append_assoc] at holds
      by_cases ends : Encoding.endsHeader context className field.name = true
      · -- the header ends here for the reader
        obtain ⟨-, rfl⟩ := (heading_ends ends).of_ok metered_heading holds.left.left read
        cases run
        simp [ends]
      · rw [Bool.not_eq_true] at ends
        obtain ⟨place, rfl⟩ := (heading_tells coherent small ends
          (plain field List.mem_cons_self)).of_ok metered_heading holds.left.left read
        have unbound : (!isWanted none field.name || target.contains field.name) = false := by
          rw [fresh field List.mem_cons_self]
          rfl
        simp only [unbound, Bool.false_eq_true, if_false] at run
        obtain ⟨placed, next, slot, run⟩ := run_bind_eq_ok.mp run
        obtain ⟨behind, -⟩ := position_slot slot
        have others := holds.right
        rw [List.length_append, Slot.length_encode, Encoding.pinned_fieldEntry, ← Nat.add_assoc,
          ← place, ← behind] at others
        have unseen := Record.absent_bind
          (fun other there => fresh other (List.mem_cons_of_mem _ there))
          (List.nodup_cons.mp distinct).1 (Placed.valueOf placed) (placed.map (·.tag))
        have names := ih _ _ _ _ _ _ _ _ _
          (fun other there => plain other (List.mem_cons_of_mem _ there))
          (List.nodup_cons.mp distinct).2 unseen others run
        rw [names, Record.bind, Record.fieldNames_append]
        simp [ends]

end Decoding

/-! ## Whole records -/

namespace Record

open Encoding Decoding

variable {context : Context} {record : Record} {bytes : List UInt8}

/-- **Which fields come back.**  Whatever the names and the ids of properties are, so long as the
schema answers again to the ids it gave and no id begins as a name does: where encoding goes through
and decoding too, the names of the decoded fields are those of the fields that leave a trace, up to
the first one whose heading ends the header.  So they are all of them just if no name among them is
empty and no property has the id -1; and a heading that does not end the header is never taken for
anything but the field it was written for. -/
theorem fieldNames_of_decode (distinct : record.fieldNames.Nodup)
    (coherent : ∀ schema, context.schema = some schema → schema.AnswersAgain)
    (plain : ∀ field ∈ record.fields.filter (!isOmitted ·),
      looksNamed context record.className field.name = false)
    (run : record.encode context = .ok bytes) (short : bytes.length < 2 ^ 63) {made : Binding}
    (decoded : decode context bytes none Record.new = .ok () made) :
    let kept := record.fields.filter (!isOmitted ·)
    let lost := fun field : Field => endsHeader context record.className field.name
    made.target.fieldNames = (kept.takeWhile (!lost ·)).map (·.name) ∧
      (made.target.fieldNames = kept.map (·.name) ↔ ∀ field ∈ kept, lost field = false) ∧
      ∀ field ∈ kept, lost field = false → ∀ write here there heading,
        Holds bytes here.position (fieldEntry context write record.className field).label →
        readHeading context bytes here = .ok heading there →
        heading = some ⟨field.name, pinnedTag context record.className field.name⟩ := by
  intro kept lost
  obtain ⟨calls, emitted⟩ := encode_eq_ok run
  rw [emission, writeRecord] at emitted
  obtain ⟨fillings, bodies, -, layout⟩ := writeTable_eq_ok emitted
  -- what the header is made of stands behind the class name
  have holds := Holds.whole bytes
  nth_rewrite 2 [layout] at holds
  rw [List.append_assoc (Varint.encode _ ++ _)] at holds
  have header := holds.left.right
  have reading := (decodeFrom_ok_iff context bytes none).mp decoded
  rw [readingInto, readRecordInto] at reading
  obtain ⟨className, start, named, reading⟩ := run_bind_eq_ok.mp reading
  obtain ⟨⟨last, walked⟩, ended, walk, reading⟩ := run_bind_eq_ok.mp reading
  obtain ⟨_, back, -, same⟩ := run_bind_eq_ok.mp reading
  have target : made.target = walked := by
    cases same
    rfl
  have front : Recalls False Failure.Unsaid bytes (Cursor.string bytes) 0 _ _ [] [] :=
    Recalls.string short (record.className.getD "")
  obtain ⟨place, -⟩ := (front False.elim).of_ok Metered.string holds.left.left named
  rw [← place] at header
  have fresh : ∀ field ∈ kept, (Binder.named className Record.new).contains field.name = false := by
    intro field _
    rw [contains, Binder.named_fields]
    rfl
  have names : made.target.fieldNames = (kept.takeWhile (!lost ·)).map (·.name) := by
    rw [target, walk_names coherent short kept _ _ _ _ _ _ _ _ _ plain
      ((List.filter_sublist.map _).nodup distinct) fresh header walk, fieldNames,
      Binder.named_fields]
    rfl
  refine ⟨names, ?_, ?_⟩
  · rw [names]
    constructor
    · intro all field there
      have whole : kept.takeWhile (!lost ·) = kept :=
        (List.takeWhile_prefix _).eq_of_length (by simpa using congrArg List.length all)
      simpa using List.takeWhile_eq_self_iff.mp whole field there
    · intro none
      rw [List.takeWhile_eq_self_iff.mpr (by simpa using none)]
  · intro field there goesOn write here there' heading holds read
    exact ((heading_tells coherent short goesOn (plain field there)).of_ok metered_heading holds
      read).2

/-- Of the fields `a`, the nameless one and `b` only the first comes back. -/
theorem fieldNames_of_decode_of_three :
    let record : Record := ⟨none, RecordId.empty,
      [⟨"a", .byte 5, none⟩, ⟨"", .byte 6, none⟩, ⟨"b", .byte 7, none⟩], false⟩
    let bytes : List UInt8 := [0, 1, 97, 0, 0, 0, 22, 17, 0, 0, 0, 0, 23, 17, 1, 98, 0, 0, 0, 24, 17,
      0, 5, 6, 7]
    let made : Binding := ⟨⟨23, 10⟩, ⟨none, RecordId.empty, [⟨"a", .byte 5, some .byte⟩], false⟩⟩
    record.encode {} = .ok bytes ∧ decode {} bytes none Record.new = .ok () made ∧
      (made.target.fieldNames = ["a", "", "b"]
        ↔ ∀ field ∈ record.fields, endsHeader {} none field.name = false) := by
  intro record bytes made
  have run : record.encode {} = .ok bytes := eq_ok_of_toOption (by decide +kernel)
  have decoded : decode {} bytes none Record.new = .ok () made := by
    subst made bytes
    rfl
  have distinct : record.fieldNames.Nodup := by decide
  obtain ⟨-, whole, -⟩ := fieldNames_of_decode distinct (fun _ none => by cases none)
    (fun field _ => rfl) run (by decide) decoded
  exact ⟨run, decoded, whole⟩

/-- A schema whose one property has the id -1. -/
def lastProperty : Snapshot :=
  let property : Property := ⟨-1, "f", none, none⟩
  ⟨fun id => if id = -1 then some property else none,
    fun className field => if className = "C" ∧ field = "f" then some property else none⟩

/-- A field is lost: one without a name, and one that the schema gives the id -1. -/
theorem fields_lost :
    (∃ bytes made, encode {} ⟨none, RecordId.empty, [⟨"", .byte 5, none⟩], false⟩ = .ok bytes ∧
      decode {} bytes none Record.new = .ok () made ∧ made.target.fieldNames = []) ∧
    lastProperty.AnswersAgain ∧
    ∃ bytes made, encode { schema := some lastProperty }
        ⟨some "C", RecordId.empty, [⟨"f", .byte 5, none⟩], false⟩ = .ok bytes ∧
      decode { schema := some lastProperty } bytes none Record.new = .ok () made ∧
      made.target.fieldNames = [] := by
  refine ⟨⟨[0, 0, 0, 0, 0, 8, 17, 0, 5], ⟨⟨2, 2⟩, Record.new⟩, ?_, rfl, rfl⟩, ⟨?_⟩,
    [1, 67, 0, 0, 0, 0, 9, 17, 0, 5], ⟨⟨3, 3⟩, { Record.new with className := some "C" }⟩, ?_, rfl, rfl⟩
  · exact eq_ok_of_toOption (by decide +kernel)
  · rintro className field property known
    simp only [lastProperty, Option.ite_none_right_eq_some, Option.some.injEq] at known
    obtain ⟨⟨-, rfl⟩, rfl⟩ := known
    exact ⟨rfl, rfl⟩
  · exact eq_ok_of_toOption (by decide +kernel)

end Record
end DocumentCodec
