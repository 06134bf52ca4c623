import DocumentCodec.Dump
import DocumentCodec.Proofs.Failures.Reading
import DocumentCodec.Proofs.Projection
/-!
# Places within the input

A slot may send the cursor anywhere: behind the record, before it, into its own header.  So it is
not true that every step of a decoding moves the cursor on.  What is true is that a slot, jump and
all, ends right behind its own bytes: a jump goes to a place within the input, the body reads on
from there, and then the cursor is put back.  The furthest end of a body is looked at in the end
only, and only to move the cursor on.

`GoesOn` says that of a reading: begun within the input, it ends within it and so many bytes further
on at least; or it fails with the cursor within the input, and for a byte within it.  In a sequence
the bytes add up.

A factory may refuse with a failure that names any byte, of another input perhaps.  So `GoesOn`
leaves out what factories say; and what is left over is told from it by the same decoding with all
factories muted.
-/

namespace DocumentCodec

/-- The failure names no byte past the end of an input of `size` bytes. -/
def Failure.IsWithin (size : Nat) : Failure → Prop
  | .codec (.malformedInput offset _) => offset ≤ size
  | .codec (.unresolvedProperty _ offset) => offset ≤ size
  | _ => True

/-- Begun within the input, the reading ends within it, `least` bytes further on or more; or it
fails within it, and for something in it, unless it is `said` by a factory. -/
structure GoesOn {α : Type} (said : Failure → Prop) (input : List UInt8) (least : Nat)
    (read : Decoder α) : Prop where
  ok : ∀ {here there a}, here.position ≤ input.length → read here = .ok a there →
    here.position + least ≤ there.position ∧ there.position ≤ input.length
  error : ∀ {here there e}, here.position ≤ input.length → read here = .error e there →
    there.position ≤ input.length ∧ (e.IsWithin input.length ∨ said e)

namespace GoesOn

variable {α β : Type} {said : Failure → Prop} {input : List UInt8} {least less more : Nat}

/-! ## Sequences -/

/-- A reading that goes on so far goes on less far. -/
theorem mono {read : Decoder α} (goes : GoesOn said input least read) (le : less ≤ least) :
    GoesOn said input less read where
  ok inside run := by
    obtain ⟨on, within⟩ := goes.ok inside run
    exact ⟨by omega, within⟩
  error := goes.error

/-- An answer moves nothing. -/
theorem pure {a : α} : GoesOn said input 0 (Pure.pure a : Decoder α) where
  ok inside run := by
    cases run
    exact ⟨Nat.le_refl _, inside⟩
  error _ run := nomatch run

/-- A failure leaves the cursor where it is. -/
theorem throw {e : Failure} (known : e.IsWithin input.length ∨ said e) :
    GoesOn said input least (MonadExcept.throw e : Decoder α) where
  ok _ run := nomatch run
  error inside run := by
    cases run
    exact ⟨inside, known⟩

theorem malformed {offset : Nat} {reason : Malformation} (within : offset ≤ input.length) :
    GoesOn said input least (Decoder.malformed offset reason : Decoder α) := throw (Or.inl within)

/-- The bytes of both parts add up. -/
theorem bind {read : Decoder α} {f : α → Decoder β} (first : GoesOn said input least read)
    (second : ∀ a, GoesOn said input more (f a)) :
    GoesOn said input (least + more) (read >>= f) where
  ok inside run := by
    obtain ⟨a, mid, run₁, run₂⟩ := run_bind_eq_ok.mp run
    obtain ⟨on, within⟩ := first.ok inside run₁
    obtain ⟨on', within'⟩ := (second a).ok within run₂
    exact ⟨by omega, within'⟩
  error inside run := by
    rcases run_bind_eq_error.mp run with run₁ | ⟨a, mid, run₁, run₂⟩
    · exact first.error inside run₁
    · exact (second a).error (first.ok inside run₁).2 run₂

/-- How far the cursor is moved on need not be said. -/
theorem weaken {read : Decoder α} (goes : GoesOn said input least read) :
    GoesOn said input 0 read :=
  goes.mono (Nat.zero_le _)

/-- What follows need not move the cursor on. -/
theorem andThen {read : Decoder α} {f : α → Decoder β} (first : GoesOn said input least read)
    (second : ∀ a, GoesOn said input 0 (f a)) : GoesOn said input least (read >>= f) :=
  first.bind second

theorem map {read : Decoder α} {f : α → β} (goes : GoesOn said input least read) :
    GoesOn said input least (read >>= fun a => Pure.pure (f a)) := goes.andThen fun _ => pure

/-- A reading that looks where it stands: it stands within the input. -/
theorem offset_bind {f : Nat → Decoder β}
    (second : ∀ start ≤ input.length, GoesOn said input least (f start)) :
    GoesOn said input least (Cursor.offset >>= f) where
  ok inside run := by
    rw [run_bind_of_ok (Cursor.run_offset _)] at run
    exact (second _ inside).ok inside run
  error inside run := by
    rw [run_bind_of_ok (Cursor.run_offset _)] at run
    exact (second _ inside).error inside run

/-! ## Taking bytes

A byte can be taken only where there is one, so a reading that took one stands further on, and
inside. -/

/-- Taking bytes goes on by as many, or fails where it stands. -/
theorem take (count : Nat) : GoesOn said input count (Cursor.take input count) where
  ok inside run := by
    obtain ⟨left, -, -, rfl⟩ := Cursor.of_take_ok input run
    exact ⟨Nat.le_refl _, left⟩
  error inside run := by
    obtain ⟨rfl, reason, rfl⟩ := Cursor.of_take_error input run
    exact ⟨inside, Or.inl inside⟩

theorem skip (count : Nat) : GoesOn said input count (Cursor.skip input count) := (take count).map

theorem byte : GoesOn said input 1 (Cursor.byte input) := (take 1).map

/-- A varint has a byte at least. -/
theorem varint : GoesOn said input 1 (Cursor.varint input) := by
  rw [Cursor.varint_eq]
  refine offset_bind fun start inside => ?_
  cases spelled : Varint.decode (input.drop start) with
  | error cause => exact malformed inside
  | ok word =>
    obtain ⟨v, count⟩ := word
    have positive : 1 ≤ count := (Varint.spelled_of_decode spelled).1
    exact (skip count).map.mono positive

theorem signedVarint : GoesOn said input 1 (Cursor.signedVarint input) := varint.map

/-- A number that is out of range is refused for where it begins. -/
theorem varint32 : GoesOn said input 1 (Cursor.varint32 input) := by
  refine offset_bind fun start inside => signedVarint.andThen fun v => ?_
  split
  · exact pure
  · exact malformed inside

/-- The same for the smaller range. -/
theorem varint16 : GoesOn said input 1 (Cursor.varint16 input) := by
  refine offset_bind fun start inside => signedVarint.andThen fun v => ?_
  split
  · exact pure
  · exact malformed inside

/-- A negative length is refused for where it begins. -/
theorem length : GoesOn said input 1 (Cursor.length input) := by
  refine offset_bind fun start inside => varint32.andThen fun v => ?_
  split
  · exact pure
  · exact malformed inside

theorem word32 : GoesOn said input 4 (Cursor.word32 input) := (take 4).map

theorem word64 : GoesOn said input 8 (Cursor.word64 input) := (take 8).map

theorem binary : GoesOn said input 1 (Cursor.binary input) :=
  length.andThen fun count => (take count).weaken

/-- Bytes that spell no text are refused for where their length begins. -/
theorem string : GoesOn said input 1 (Cursor.string input) := by
  refine offset_bind fun start inside => binary.andThen fun bytes => ?_
  cases Utf8.decode bytes with
  | ok text => exact pure
  | error cause => exact malformed inside

/-- A byte that is no tag is refused for where it stands. -/
theorem tag : GoesOn said input 1 (Cursor.tag input) := by
  refine offset_bind fun start inside => byte.andThen fun id => ?_
  cases TypeTag.ofId? id with
  | some tag => exact pure
  | none => exact malformed inside

/-- Reading several times goes on as reading once does. -/
theorem times {read : Decoder α} (each : GoesOn said input 0 read) :
    ∀ count : Nat, GoesOn said input 0 (Decoding.times read count) := by
  intro count
  induction count with
  | zero => exact pure
  | succ count ih => exact each.andThen fun _ => ih.map

/-! ## Jumping

A jump goes to a place inside, or is refused for the place it was asked for, which is not; and a
slot comes back from it. -/

/-- A jump is refused for the place it begins at. -/
theorem seek_error {target : Nat} {here there : Cursor} {e : Failure}
    (inside : here.position ≤ input.length) (run : Cursor.seek input target here = .error e there) :
    there.position ≤ input.length ∧ (e.IsWithin input.length ∨ said e) := by
  obtain ⟨rfl, reason, rfl⟩ := Cursor.of_seek_error input run
  exact ⟨inside, Or.inl inside⟩

end GoesOn

namespace Decoding

variable {context : Context} {input : List UInt8}

/-- **A jump to a body and back** is a reading that goes on from where it began, by no bytes. -/
theorem goesOn_at {inner : BodyReader} {tag : TypeTag}
    (body : GoesOn context.RefusesWith input 0 (inner tag))
    (target : Nat) : GoesOn context.RefusesWith input 0 (readAt input inner tag target) where
  ok inside run := by
    have back := position_at run
    exact ⟨by omega, by omega⟩
  error := by
    intro here there e inside run
    -- it may fail in jumping, in the body, or in coming back: each time within the input
    rw [readAt, run_bind_of_ok (Cursor.run_offset here)] at run
    rcases run_bind_eq_error.mp run with jump | ⟨_, landed, jump, run⟩
    · exact GoesOn.seek_error inside jump
    · obtain ⟨reached, rfl⟩ := Cursor.of_seek_ok input jump
      rcases run_bind_eq_error.mp run with read | ⟨value, ended, read, run⟩
      · exact body.error reached read
      · have within := (body.ok reached read).2
        rw [run_bind_of_ok (Cursor.run_offset ended)] at run
        rcases run_bind_eq_error.mp run with back | ⟨_, _, -, none⟩
        · exact GoesOn.seek_error within back
        · cases none

/-- The furthest end of a body moves the cursor on, or leaves it where it is. -/
theorem goesOn_finish (last : Nat) : GoesOn context.RefusesWith input 0 (finish input last) where
  ok := by
    intro here there _ inside run
    rw [finish, run_bind_of_ok (Cursor.run_offset here)] at run
    split at run
    · -- the furthest body ends behind the header, and the cursor moves on to there
      next short =>
      obtain ⟨reached, rfl⟩ := Cursor.of_seek_ok input run
      exact ⟨Nat.le_of_lt short, reached⟩
    · cases run
      exact ⟨Nat.le_refl _, inside⟩
  error := by
    intro here there e inside run
    rw [finish, run_bind_of_ok (Cursor.run_offset here)] at run
    split at run
    · exact GoesOn.seek_error inside run
    · cases run

/-! ## Bodies without bodies inside -/

/-- A day without a beginning is refused for where its number begins. -/
theorem goesOn_date : GoesOn context.RefusesWith input 0 (readDate context input) := by
  refine GoesOn.offset_bind fun start inside =>
    GoesOn.signedVarint.weaken.andThen fun day => ?_
  cases context.options.zone.startOfDay? day with
  | some millis => exact GoesOn.pure
  | none => exact GoesOn.malformed inside

/-- A negative length of the unscaled part is refused for where it stands. -/
theorem goesOn_decimal : GoesOn context.RefusesWith input 0 (readDecimal input) := by
  refine GoesOn.word32.weaken.andThen fun scale => ?_
  refine GoesOn.offset_bind fun start inside =>
    GoesOn.word32.weaken.andThen fun count => ?_
  dsimp only
  split
  · exact GoesOn.malformed inside
  · exact (GoesOn.take _).map.weaken

theorem goesOn_id : GoesOn context.RefusesWith input 0 (readId input) :=
  (GoesOn.varint32.andThen fun _ => GoesOn.signedVarint.weaken.map).weaken

theorem goesOn_linkElement : GoesOn context.RefusesWith input 0 (readLinkElement input) :=
  goesOn_id.map

theorem goesOn_links : GoesOn context.RefusesWith input 0 (readLinks input) :=
  GoesOn.length.weaken.andThen fun count => goesOn_linkElement.times count

/-- A key that is no text is refused for where its tag stands. -/
theorem goesOn_mapKey : GoesOn context.RefusesWith input 0 (readMapKey input) := by
  refine GoesOn.offset_bind fun start inside =>
    GoesOn.tag.weaken.andThen fun tag => ?_
  split
  · exact GoesOn.string.weaken
  · exact GoesOn.malformed inside

/-- The entries of a map of links are read one behind the other. -/
theorem goesOn_linkMap : GoesOn context.RefusesWith input 0 (readLinkMap input) := by
  have entry : GoesOn context.RefusesWith input 0
      (readMapKey input >>= fun key => readLinkElement input >>= fun link =>
      pure (key, link)) := goesOn_mapKey.andThen fun _ => goesOn_linkElement.map
  exact GoesOn.length.weaken.andThen fun count => (entry.times count).map

/-- An object is made, or a factory refuses, and what it says may name any byte; a type that nothing
is registered for names none. -/
theorem goesOn_orThrow {α : Type} {name : String} {made : Except Failure α}
    (refused : ∀ {e}, made = .error e →
      e = .codec (.unregisteredType name) ∨ context.RefusesWith e) :
    GoesOn context.RefusesWith input 0 (orThrow made) := by
  cases outcome : made with
  | error e =>
    rcases refused outcome with rfl | refuses
    · exact GoesOn.throw (Or.inl trivial)
    · exact GoesOn.throw (Or.inr refuses)
  | ok object => exact GoesOn.pure

/-- An object of the application's is read on: its type and its stream, and then it is made. -/
theorem goesOn_custom : GoesOn context.RefusesWith input 0 (readCustom context input) := by
  refine GoesOn.string.weaken.andThen fun typeName =>
    GoesOn.binary.weaken.andThen fun stream => ?_
  cases known : context.registry with
  | none => exact GoesOn.throw (Or.inl trivial)
  | some registry => exact (goesOn_orThrow (Context.refuses_of_makeCustom known)).map

/-- A value that holds no other values is read on, under every tag. -/
theorem goesOn_scalar (tag : TypeTag) :
    GoesOn context.RefusesWith input 0 (readScalar context input tag) := by
  cases tag with
  | integer => exact GoesOn.varint32.map.weaken
  | long | dateTime => exact GoesOn.signedVarint.map.weaken
  | short => exact GoesOn.varint16.map.weaken
  | string => exact GoesOn.string.map.weaken
  | double => exact GoesOn.word64.map.weaken
  | float => exact GoesOn.word32.map.weaken
  | byte | boolean => exact GoesOn.byte.map.weaken
  | date => exact goesOn_date
  | decimal => exact goesOn_decimal.map
  | binary | linkBag => exact GoesOn.binary.map.weaken
  | link => exact goesOn_id.map
  | linkList | linkSet => exact goesOn_links.map
  | linkMap => exact goesOn_linkMap.map
  | custom => exact goesOn_custom
  | transient | any | embedded | embeddedList | embeddedSet | embeddedMap => exact GoesOn.pure

/-! ## Bodies with bodies inside -/

section Containers

variable {inner : BodyReader} (bodies : ∀ tag, GoesOn context.RefusesWith input 0 (inner tag))
include bodies

/-- Wherever its body stands, a slot is read on. -/
theorem goesOn_slot (pinned : Option TypeTag) :
    GoesOn context.RefusesWith input 0 (readSlot input inner pinned) := by
  refine GoesOn.offset_bind fun start inside =>
    GoesOn.word32.weaken.andThen fun pointer => ?_
  have tagged : GoesOn context.RefusesWith input 0 (readSlotTag input pinned) := by
    cases pinned with
    | some tag => exact GoesOn.pure
    | none => exact GoesOn.tag.weaken
  refine tagged.andThen fun tag => ?_
  split
  · exact GoesOn.pure
  · split
    · -- a negative pointer is refused for the place of the slot itself
      exact GoesOn.malformed inside
    · exact (goesOn_at (bodies tag) _).map

/-- The elements of a list are read one behind the other, each behind its tag or under that of the
list. -/
theorem goesOn_items : GoesOn context.RefusesWith input 0 (readItems input inner) := by
  refine GoesOn.length.weaken.andThen fun count => ?_
  refine GoesOn.offset_bind fun start inside =>
    GoesOn.tag.weaken.andThen fun declared => ?_
  split
  · exact GoesOn.malformed inside
  · refine GoesOn.times ?_ count
    -- the tag of an element is its own or that of the list
    have tagged : GoesOn context.RefusesWith input 0 (readItemTag input declared) := by
      rw [readItemTag]
      split
      · exact GoesOn.tag.weaken
      · exact GoesOn.pure
    refine tagged.andThen fun tag => ?_
    split
    · exact GoesOn.pure
    · exact bodies tag

/-- The header of a map is gone through slot by slot, and then the cursor is put behind the bodies.
-/
theorem goesOn_map : GoesOn context.RefusesWith input 0 (readMap input inner) := by
  have member : GoesOn context.RefusesWith input 0 (readMember input inner) :=
    goesOn_mapKey.andThen fun _ => (goesOn_slot bodies none).map
  exact GoesOn.length.weaken.andThen fun count =>
    (member.times count).andThen fun _ => (goesOn_finish _).map

omit bodies in
/-- What begins an entry takes a byte at least; if the schema does not know it, it is named by the
place where it begins. -/
theorem goesOn_heading : GoesOn context.RefusesWith input 1 (readHeading context input) := by
  refine GoesOn.offset_bind fun start inside => GoesOn.varint32.andThen fun lead => ?_
  dsimp only
  split
  · exact GoesOn.pure
  · split
    · refine (GoesOn.take _).weaken.andThen fun bytes => ?_
      cases Utf8.decode bytes with
      | ok name => exact GoesOn.pure
      | error cause => exact GoesOn.malformed inside
    · cases property? context (Int32.ofInt (-lead.toInt - 1)) with
      | some property => exact GoesOn.pure
      | none => exact GoesOn.throw (Or.inl inside)

/-- A header has an entry at least, be it the one that ends it.  The induction is on the room for
entries: one entry is read on, and so are those behind it. -/
theorem goesOn_fields (projection : Option (List String)) :
    ∀ (entries last bound : Nat) (target : Record),
    GoesOn context.RefusesWith input 1
      (readFieldsInto context input inner projection entries last bound target) := by
  intro entries
  induction entries with
  | zero =>
    intro last bound target
    rw [readFieldsInto_zero]
    exact GoesOn.offset_bind fun start inside => GoesOn.malformed inside
  | succ entries ih =>
    intro last bound target
    have rest (last bound : Nat) (target : Record) := (ih last bound target).mono (Nat.zero_le 1)
    rw [readFieldsInto_succ]
    refine goesOn_heading.andThen fun heading => ?_
    cases heading with
    | none => exact GoesOn.pure
    | some heading =>
      dsimp only
      split
      · exact (GoesOn.skip _).weaken.andThen fun _ => rest last bound target
      · -- with a projection the walk may stop behind the last of the wanted fields
        refine (goesOn_slot bodies heading.pinned).andThen fun placed => ?_
        cases projection with
        | none => exact rest _ _ _
        | some wanted =>
          dsimp only
          split
          · exact GoesOn.pure
          · exact rest _ _ _

/-- A record takes two bytes at least: the length of its class name, and a header. -/
theorem goesOn_record (projection : Option (List String)) (target : Record) :
    GoesOn context.RefusesWith input 2 (readRecordInto context input inner projection target) :=
  GoesOn.string.bind fun _ =>
    (goesOn_fields bodies projection _ 0 0 _).andThen fun _ => (goesOn_finish _).map

/-- An embedded record ends where reading it ended; what is made of it reads nothing more. -/
theorem goesOn_embedded : GoesOn context.RefusesWith input 0 (readEmbedded context input inner) := by
  rw [readEmbedded, onNew_readRecord]
  refine (goesOn_record bodies none Record.new).weaken.andThen fun record => ?_
  split
  · next className _ =>
    cases known : context.registry with
    | none => exact GoesOn.throw (Or.inl trivial)
    | some registry => exact (goesOn_orThrow (Context.refuses_of_makeSerializable known)).map
  · exact GoesOn.pure

end Containers

/-! ## Level by level -/

/-- One level more of containers; where there is none left, no byte is named. -/
theorem goesOn_bodyWith {inner : Except CodecError BodyReader}
    (deeper : inner = .error context.tooDeep ∨
      ∃ read, inner = .ok read ∧ ∀ tag, GoesOn context.RefusesWith input 0 (read tag))
    (tag : TypeTag) :
    GoesOn context.RefusesWith input 0 (readBodyWith context input inner tag) := by
  cases flat : tag.isContainer with
  | false =>
    rw [readBodyWith_flat context input flat]
    exact goesOn_scalar tag
  | true =>
    rcases deeper with rfl | ⟨read, rfl, bodies⟩
    · -- no level is left, which is no matter of a place
      cases tag with
      | embedded | embeddedList | embeddedSet | embeddedMap =>
        exact GoesOn.throw (Or.inl trivial)
      | _ => cases flat
    · cases tag with
      | embedded => exact goesOn_embedded bodies
      | embeddedList | embeddedSet => exact (goesOn_items bodies).map
      | embeddedMap => exact (goesOn_map bodies).map
      | _ => cases flat

/-- Every body is read on, however deep it nests. -/
theorem goesOn_body (room : Nat) : ∀ tag,
    GoesOn context.RefusesWith input 0 (readBody context input room tag) := by
  induction room with
  | zero => exact goesOn_bodyWith (.inl rfl)
  | succ room ih => exact goesOn_bodyWith (.inr ⟨_, rfl, ih⟩)

end Decoding

/-! ## Whole decodings -/

namespace Record

/-- A whole decoding goes on by two bytes at least: the length of the class name and the end of the
header. -/
theorem goesOn_readingInto (context : Context) (input : List UInt8)
    (projection : Option (List String)) (target : Record) :
    GoesOn context.RefusesWith input 2 (readingInto context input projection target) := by
  have whole : GoesOn context.RefusesWith input 2 (Decoding.readRecordInto context input
      (Decoding.readBody context input context.options.maxDepth) projection target) :=
    Decoding.goesOn_record (Decoding.goesOn_body context.options.maxDepth) projection target
  -- the budget begins anew with the decoding, and the place is the same
  constructor
  · intro here there made inside run
    rw [readingInto] at run
    have start : (⟨here.position, 0⟩ : Cursor).position ≤ input.length := inside
    have ends := whole.ok start run
    exact ends
  · intro here there e inside run
    rw [readingInto] at run
    have start : (⟨here.position, 0⟩ : Cursor).position ≤ input.length := inside
    exact whole.error start run

/-- The inspector jumps, and decodes from there. -/
theorem of_decodeAt_ok {request : Dump.Request} {input : List UInt8} {state final : Binding}
    (run : Dump.decodeAt request input state = .ok () final) :
    ∃ here, Cursor.seek input request.offset state.cursor = .ok () here ∧
      decodeFrom {} input request.fields ⟨here, state.target⟩ = .ok () final := by
  obtain ⟨_, mid, jumped, run⟩ := run_bind_eq_ok.mp run
  have jumped : Binder.lift (Cursor.seek input request.offset) state = .ok () mid := jumped
  rw [Binder.lift] at jumped
  cases seek : Cursor.seek input request.offset state.cursor with
  | error e there =>
    rw [seek] at jumped
    cases jumped
  | ok _ here =>
    rw [seek] at jumped
    cases jumped
    exact ⟨here, rfl, run⟩

/-- **A decoding stays within its input.**  From every place that can be jumped to, under every
context and projection and into every target: a decoding that succeeds leaves the cursor two bytes
further on at least and within the input, although bodies may stand before the place it began at;
one that fails leaves it within the input, too, and the byte it names, if it names one, is not past
the end, unless the failure is what a registered factory said that the decoding called.  So where
the inspector says how many bytes a record took, it never subtracts the larger from the smaller. -/
theorem decodeFrom_within (context : Context) (input : List UInt8)
    (projection : Option (List String)) (target : Record) (start : Nat) (before here : Cursor)
    (accepted : Cursor.seek input start before = .ok () here) :
    (match decodeFrom context input projection ⟨here, target⟩ with
      | .ok _ final =>
        start + 2 ≤ final.cursor.position ∧ final.cursor.position ≤ input.length
      | .error e final => final.cursor.position ≤ input.length ∧
        ((∀ offset reason, e = .codec (.malformedInput offset reason) → offset ≤ input.length) ∧
          (∀ id offset, e = .codec (.unresolvedProperty id offset) → offset ≤ input.length) ∨
        Refusal context.registry (fun other =>
          decodeFrom (context.registering other) input projection ⟨here, target⟩) final e)) ∧
    ∀ (request : Dump.Request) (final : Binding),
      Dump.decodeAt request input ⟨Cursor.start, Record.new⟩ = .ok () final →
      request.offset + 2 ≤ final.cursor.position := by
  constructor
  · obtain ⟨inside, rfl⟩ := Cursor.of_seek_ok input accepted
    have goes (context : Context) := goesOn_readingInto context input projection target
    cases run : decodeFrom context input projection ⟨{ before with position := start }, target⟩ with
    | ok _ final =>
      exact (goes context).ok inside ((decodeFrom_ok_iff context input projection).mp run)
    | error e final =>
      have reached := ((goes context).error inside
        ((decodeFrom_error_iff context input projection).mp ⟨final.target, run⟩)).1
      refine ⟨reached, ?_⟩
      rcases decodeFrom_muted run with said | run
      · exact Or.inr said
      · -- with all factories muted what they say names no byte either
        refine Or.inl ?_
        have named : e.IsWithin input.length := by
          rcases ((goes context.muted).error inside ((decodeFrom_error_iff context.muted input
            projection).mp ⟨final.target, run⟩)).2 with named | refuses
          · exact named
          · rw [Context.eq_of_refuses_muted refuses]
            trivial
        constructor
        · rintro offset reason rfl
          exact named
        · rintro id offset rfl
          exact named
  · intro request final run
    obtain ⟨here, jumped, run⟩ := of_decodeAt_ok run
    obtain ⟨inside, rfl⟩ := Cursor.of_seek_ok input jumped
    exact ((goesOn_readingInto {} input request.fields Record.new).ok inside
      ((decodeFrom_ok_iff {} input request.fields).mp run)).1

/-- The factory unpacks its stream, decodes what is in it and hands on what that decoding fails for:
a byte that the packed stream, and all of the input around it, does not have. -/
theorem decodeFrom_beyond_input :
    let unpacking : CustomFactory := fun stream =>
      match decode {} (stream.flatMap (List.replicate 32)) none Record.new with
      | .ok _ _ => .ok ⟨"K", stream⟩
      | .error e _ => .error e
    let context : Context := { registry := some ⟨[("K", unpacking)], []⟩ }
    let input : List UInt8 := [0, 1, 97, 0, 0, 0, 9, 20, 0, 1, 75, 1, 31]
    Cursor.seek input 0 Cursor.start = .ok () Cursor.start ∧
      ∃ reason last, decodeFrom context input none ⟨Cursor.start, Record.new⟩
        = .error (.codec (.malformedInput 32 reason)) last ∧ input.length < 32 :=
  ⟨rfl, _, _, rfl, by decide⟩

/-- The record begins at byte 2 and the body of its field `a` stands before it, at byte 1: the
cursor ends behind the header all the same. -/
theorem decodeFrom_within_body_before_start :
    let input : List UInt8 := [9, 5, 0, 1, 97, 0, 0, 0, 1, 17, 0]
    let made : Record := ⟨none, RecordId.empty, [⟨"a", .byte 5, some .byte⟩], false⟩
    Cursor.seek input 2 Cursor.start = .ok () ⟨2, 0⟩ ∧
      decodeFrom {} input none ⟨⟨2, 0⟩, Record.new⟩ = .ok () ⟨⟨11, 10⟩, made⟩ ∧
      2 + 2 ≤ (⟨11, 10⟩ : Cursor).position ∧ (⟨11, 10⟩ : Cursor).position ≤ input.length :=
  have jumped : Cursor.seek [9, 5, 0, 1, 97, 0, 0, 0, 1, 17, 0] 2 Cursor.start = .ok () ⟨2, 0⟩ := rfl
  have run : decodeFrom {} [9, 5, 0, 1, 97, 0, 0, 0, 1, 17, 0] none ⟨⟨2, 0⟩, Record.new⟩
      = .ok () ⟨⟨11, 10⟩, ⟨none, RecordId.empty, [⟨"a", .byte 5, some .byte⟩], false⟩⟩ := rfl
  have within := (decodeFrom_within {} [9, 5, 0, 1, 97, 0, 0, 0, 1, 17, 0] none Record.new 2
    Cursor.start ⟨2, 0⟩ jumped).1
  ⟨jumped, run, by rw [run] at within; exact within⟩

end Record
end DocumentCodec
