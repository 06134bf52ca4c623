import DocumentCodec.Proofs.RoundTrip.Scalar
import DocumentCodec.Proofs.Zone
/-!
# Numbers and instants that are written but not read

Whatever number, truth value or instant a tag takes, the reader takes the body under the same tag:
it checks the ranges that the writer checked, so it hands out each byte once and answers with the
value of the tag's kind.

Days are the exception.  The writer takes every instant, and the reader refuses a day whose
universal midnight is no 64-bit instant.  There is one such day that is ever written, the one in
which the first instants lie; a sum that stops at that end of the instants lies in it too.
-/

namespace DocumentCodec

/-- The tags of numbers, truth values and instants. -/
def TypeTag.isNumeric (tag : TypeTag) : Bool := tag.isPlain || tag = .date

/-- The day without a midnight. -/
def Zone.firstDay : Int64 := -106751991168

/-- The value is written as the day without a midnight, for local time is before the first one. -/
def Value.isTooEarly (zone : Zone) (tag : TypeTag) (value : Value) : Bool :=
  tag = .date && value.millis?.any fun millis =>
    millis.toInt + (zone.offsetAt millis).toInt < Zone.firstMidnight

/-- A day without a midnight is the first one. -/
theorem Zone.dayNumber_of_none {zone : Zone} {millis : Int64}
    (none : zone.startOfDay? (zone.dayNumber millis) = none) : zone.dayNumber millis = firstDay := by
  have early := startOfDay?_dayNumber_eq_none.mp none
  refine Int64.toInt_inj.mp ?_
  have whole : firstDay.toInt = -106751991168 := by decide
  rw [whole, toInt_dayNumber]
  rw [firstMidnight, millisPerDay] at *
  omega

namespace Decoding

open Encoding

variable {context : Context} {field : String} {tag : TypeTag} {linked : Option TypeTag}
  {value : Value} {start room room' : Nat} {earlier calls : List LinkTarget}
  {input bytes : List UInt8} {place visited : Nat}

/-- A day is read back as the instant at which it begins, or refused. -/
theorem readDate_of_written {millis : Int64}
    (holds : Holds input place (Varint.encodeSigned (context.options.zone.dayNumber millis)))
    (budget : visited + (Varint.encodeSigned (context.options.zone.dayNumber millis)).length
      ≤ input.length) :
    let zone := context.options.zone
    let after : Cursor := ⟨place + (Varint.encodeSigned (zone.dayNumber millis)).length,
      visited + (Varint.encodeSigned (zone.dayNumber millis)).length⟩
    readDate context input ⟨place, visited⟩
      = match zone.startOfDay? (zone.dayNumber millis) with
        | some begins => .ok (.date begins) after
        | none => .error (.codec (.malformedInput place (.dayOutOfRange Zone.firstDay))) after := by
  have back : ReadsBack True Failure.Unsaid input _ place _ _ :=
    ReadsBack.signedVarint (context.options.zone.dayNumber millis)
  obtain ⟨day, read, rfl⟩ := (back holds visited budget).of_exact
  rw [readDate, run_bind_of_ok (Cursor.run_offset _), run_bind_of_ok read]
  dsimp only
  cases found : context.options.zone.startOfDay? (context.options.zone.dayNumber millis) with
  | some begins => rfl
  | none =>
    rw [Zone.dayNumber_of_none found]
    rfl

/-- **Numbers and instants that were written are read back, all but those of the first day.**  Under
any zone and at any depth: where the writer took the value under the tag, the reader takes the bytes
under the same tag, hands out each of them once and answers with the value of the tag's kind; but it
refuses an instant whose local time is before the first midnight. -/
theorem readBody_of_written (numeric : tag.isNumeric = true)
    (run : writeBody context room field tag linked value start earlier = ⟨bytes, calls, .ok ()⟩)
    (holds : Holds input place bytes) (budget : visited + bytes.length ≤ input.length) :
    readBody context input room' tag ⟨place, visited⟩
      = if value.isTooEarly context.options.zone tag then
          .error (.codec (.malformedInput place (.dayOutOfRange Zone.firstDay)))
            ⟨place + bytes.length, visited + bytes.length⟩
        else .ok (value.retagged context.options.zone tag)
          ⟨place + bytes.length, visited + bytes.length⟩ := by
  have flat : tag.isContainer = false := by
    cases tag with
    | embedded | embeddedList | embeddedSet | embeddedMap => cases numeric
    | _ => rfl
  rw [writeBody_flat flat] at run
  rw [readBody_flat context input flat]
  cases plain : tag.isPlain with
  | true =>
    -- every body of fixed form can be read, and no day among them
    have other : value.isTooEarly context.options.zone tag = false := by
      cases tag with
      | date => cases plain
      | _ => rfl
    obtain ⟨-, back⟩ : _ ∧ ReadsBack True Failure.Unsaid input _ place bytes _ :=
      ReadsBack.plain plain run
    obtain ⟨made, read, rfl⟩ := (back holds visited budget).of_exact
    rw [other]
    exact read
  | false =>
    have day : tag = .date := by simpa [TypeTag.isNumeric, plain] using numeric
    subst day
    cases WrittenScalar.of_eq_ok run with
    | @date _ millis instant =>
      -- a day: the reader refuses it just if the zone has no start for it
      have early : value.isTooEarly context.options.zone .date
          = (context.options.zone.startOfDay? (context.options.zone.dayNumber millis)).isNone := by
        rw [Value.isTooEarly, instant, Bool.eq_iff_iff, Option.isNone_iff_eq_none,
          Zone.startOfDay?_dayNumber_eq_none]
        simp
      rw [early, Value.retagged_date instant]
      refine (readDate_of_written holds budget).trans ?_
      cases context.options.zone.startOfDay? (context.options.zone.dayNumber millis) <;> rfl

/-- An hour ahead, the first instant that comes back is an hour before the first midnight. -/
theorem readBody_of_firstMidnight :
    let context : Context := { options := { zone := .ofHours 1 } }
    let value : Value := .dateTime (-9223372036832400000)
    let bytes : List UInt8 := [129, 197, 215, 168, 242, 252, 255, 255, 255, 1]
    TypeTag.date.isNumeric = true ∧
      writeBody context 0 "d" .date none value 0 [] = ⟨bytes, [], .ok ()⟩ ∧
      readBody context bytes 0 .date ⟨0, 0⟩ = .ok (.date (-9223372036832400000)) ⟨10, 10⟩ := by
  intro context value bytes
  have run : writeBody context 0 "d" .date none value 0 [] = ⟨bytes, [], .ok ()⟩ := by
    subst context value bytes
    rfl
  exact ⟨rfl, run, readBody_of_written rfl run (Holds.whole bytes) (by decide)⟩

/-- The first instant of all is written as a day and is not read back. -/
theorem readBody_of_firstInstant :
    let bytes : List UInt8 := [128, 197, 215, 168, 242, 252, 255, 255, 255, 1]
    writeBody {} 0 "d" .date none (.date Int64.minValue) 0 [] = ⟨bytes, [], .ok ()⟩ ∧
      readBody {} bytes 0 .date ⟨0, 0⟩
        = .error (.codec (.malformedInput 0 (.dayOutOfRange (-106751991168)))) ⟨10, 10⟩ :=
  ⟨rfl, rfl⟩

end Decoding
end DocumentCodec
