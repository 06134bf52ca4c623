import DocumentCodec.Proofs.Emission.Scalar
import DocumentCodec.Proofs.Members
import DocumentCodec.Proofs.ReadingBack
/-!
# How an encoding is laid out

Every record and every map that is written is a table in the finished buffer.  Its slots stand one
behind the other in the header, and its bodies one behind the other from the end of the header to
the end of the table, in the order of the slots.  A slot points at its own body by an absolute
offset, so it is zero exactly for a null value, and no two bodies share a byte.

That is said of the buffer as it is in the end, when all slots were filled in, and of each table at
every depth: `Laid` says which tables there are and where each of them stands.
-/

namespace DocumentCodec

/-- What a slot at `offset` points at, read as a signed word. -/
def Slot.pointerAt (buffer : List UInt8) (offset : Nat) : Int :=
  (UInt32.ofNat (BigEndian.decode ((buffer.drop offset).take Slot.pointerSize))).toInt32.toInt

/-! ## Tables in a buffer

A region is a table as it stands: where it begins, what is in front of its slots, the slots with the
spans they point at, and where it ends.  That no two spans share a byte and that they rise follows
from each beginning where the last one ends. -/

/-- A body: the tag that it was written under, and where it begins and ends. -/
structure Span where
  tag : TypeTag
  start : Nat
  last : Nat
deriving DecidableEq, Repr

/-- A member in the header of a table: where its slot stands, and its body, if it has one. -/
structure Seat where
  member : Member
  slot : Nat
  body : Option Span

/-- A table in a buffer.  The header ends behind its tail; there the bodies begin. -/
structure Region where
  start : Nat
  head : List UInt8
  seats : List Seat
  slotsEnd : Nat
  tail : List UInt8
  last : Nat

namespace Region

variable (region : Region)

/-- Where the header ends. -/
def headerEnd : Nat := region.slotsEnd + region.tail.length

/-- The bodies in the order of the slots. -/
def spans : List Span := region.seats.filterMap (·.body)

/-- The offsets in the slots of the members that are not null, as they stand in a buffer. -/
def pointers (buffer : List UInt8) : List Int :=
  (region.seats.filter (!·.member.value.isNull)).map fun seat => Slot.pointerAt buffer seat.slot

end Region

/-- The members' labels and slots stand one behind the other between two offsets. -/
def Seated (buffer : List UInt8) : (here : Nat) → List Seat → (there : Nat) → Prop
  | here, [], there => here = there
  | here, seat :: rest, there =>
    Holds buffer here seat.member.label ∧ seat.slot = here + seat.member.label.length ∧
      Seated buffer (seat.slot + Slot.size seat.member.pinned) rest there

/-- Bodies, none of them empty, stand one behind the other between two offsets, with no gap. -/
def Consecutive : (here : Nat) → List Span → (there : Nat) → Prop
  | here, [], there => here = there
  | here, span :: rest, there =>
    span.start = here ∧ here < span.last ∧ Consecutive span.last rest there

/-- The slot of a member says where its body begins and, unless the type is pinned, the tag that it
was written under; it is zero exactly for a null value, and then so is the tag. -/
structure Seat.IsFilled (buffer : List UInt8) (seat : Seat) : Prop where
  bodiless : seat.body = none ↔ seat.member.value.isNull = true
  zero : Slot.pointerAt buffer seat.slot = 0 ↔ seat.member.value.isNull = true
  pointer : ∀ span ∈ seat.body, Slot.pointerAt buffer seat.slot = span.start
  tagged : seat.member.pinned = false → buffer[seat.slot + Slot.pointerSize]?
    = some ((seat.body.map (·.tag.id)).getD 0)

/-- A table stands in the buffer as it should: the header from its start on, every slot filled in,
the bodies from the end of the header to the end of the table.  So the offsets in the slots are
positive and increase, bodies do not overlap, and each byte behind the header is in one of them. -/
structure Region.IsLaidOut (buffer : List UInt8) (region : Region) : Prop where
  head : Holds buffer region.start region.head
  seats : Seated buffer (region.start + region.head.length) region.seats region.slotsEnd
  tail : Holds buffer region.slotsEnd region.tail
  slots : ∀ seat ∈ region.seats, seat.IsFilled buffer
  bodies : Consecutive region.headerEnd region.spans region.last
  positive : ∀ pointer ∈ region.pointers buffer, 0 < pointer
  increasing : (region.pointers buffer).Pairwise (· < ·)
  apart : region.spans.Pairwise fun a b => a.last ≤ b.start
  gapless : ∀ offset, region.headerEnd ≤ offset → offset < region.last →
    ∃ span ∈ region.spans, span.start ≤ offset ∧ offset < span.last

namespace Consecutive

variable {spans : List Span} {here there : Nat}

/-- Spans without a gap end no earlier than they begin. -/
theorem le (all : Consecutive here spans there) : here ≤ there := by
  induction spans generalizing here with
  | nil => exact Nat.le_of_eq all
  | cons span rest ih =>
    obtain ⟨rfl, some, later⟩ := all
    exact Nat.le_trans (Nat.le_of_lt some) (ih later)

/-- A body lies between the two offsets. -/
theorem bounds (all : Consecutive here spans there) {span : Span} (among : span ∈ spans) :
    here ≤ span.start ∧ span.start < span.last ∧ span.last ≤ there := by
  induction spans generalizing here with
  | nil => cases among
  | cons first rest ih =>
    obtain ⟨rfl, some, later⟩ := all
    rcases List.mem_cons.mp among with rfl | deeper
    · exact ⟨Nat.le_refl _, some, later.le⟩
    · obtain ⟨low, inside, high⟩ := ih later deeper
      exact ⟨Nat.le_trans (Nat.le_of_lt some) low, inside, high⟩

/-- A body ends before the later ones begin. -/
theorem apart (all : Consecutive here spans there) :
    spans.Pairwise fun a b => a.last ≤ b.start := by
  induction spans generalizing here with
  | nil => exact List.Pairwise.nil
  | cons first rest ih =>
    obtain ⟨rfl, _, later⟩ := all
    exact List.pairwise_cons.mpr ⟨fun span among => (later.bounds among).1, ih later⟩

/-- Bodies begin the later the further they stand in the order of the slots. -/
theorem increasing (all : Consecutive here spans there) :
    spans.Pairwise fun a b => a.start < b.start := by
  refine all.apart.imp_of_mem fun {a b} first _ before => ?_
  exact Nat.lt_of_lt_of_le (all.bounds first).2.1 before

/-- Each offset is in a body. -/
theorem gapless (all : Consecutive here spans there) {offset : Nat} (low : here ≤ offset)
    (high : offset < there) : ∃ span ∈ spans, span.start ≤ offset ∧ offset < span.last := by
  induction spans generalizing here with
  | nil =>
    have same : here = there := all
    omega
  | cons first rest ih =>
    obtain ⟨rfl, _, later⟩ := all
    by_cases inside : offset < first.last
    · exact ⟨first, List.mem_cons_self, low, inside⟩
    · obtain ⟨span, among, fact⟩ := ih later (Nat.le_of_not_lt inside)
      exact ⟨span, List.mem_cons_of_mem _ among, fact⟩

end Consecutive

/-! ## What was written where

What was written says which tables there must be, and this says where they stand: one for each
record and each map, and those inside them. -/

section Laid

variable (context : Context) (buffer : List UInt8)

mutual

/-- A value that was written under a tag stands between two offsets of the buffer; the regions are
the tables that were written for it, at every depth. -/
inductive Laid : (tag : TypeTag) → (linked : Option TypeTag) → Value → (start last : Nat) →
    List Region → Prop where
  /-- bytes that hold no further bodies -/
  | scalar {tag : TypeTag} {linked : Option TypeTag} {value : Value} {start : Nat}
      {field : String} {earlier calls : List LinkTarget} {bytes : List UInt8}
      (written : Encoding.writeScalar context field tag value start earlier
        = ⟨bytes, calls, .ok ()⟩)
      (holds : Holds buffer start bytes) :
      Laid tag linked value start (start + bytes.length) []
  /-- a record inside another -/
  | embedded {linked : Option TypeTag} {record : Record} {start last : Nat}
      {regions : List Region}
      (table : LaidTable (Encoding.recordHead record) (Encoding.recordMembers context record)
        (Varint.encode Encoding.headerEnd) start last regions) :
      Laid .embedded linked (.embedded record) start last regions
  /-- an object, as the record that stands for it -/
  | serializable {linked : Option TypeTag} {className : String} {record : Record}
      {start last : Nat} {regions : List Region}
      (table : LaidTable (Encoding.recordHead (Encoding.markedRecord className record))
        (Encoding.recordMembers context (Encoding.markedRecord className record))
        (Varint.encode Encoding.headerEnd) start last regions) :
      Laid .embedded linked (.serializable className record) start last regions
  /-- a list or set: the number of its elements, the tag that leaves theirs open, the elements -/
  | sequence {tag : TypeTag} {linked : Option TypeTag} {value : Value} {items : List Value}
      {start last : Nat} {regions : List Region} (sort : tag.isSequence = true)
      (elements : value.items? = some items)
      (front : Holds buffer start
        (Varint.encode (UInt64.ofNat (items.filter (!·.isTransient)).length) ++ [TypeTag.any.id]))
      (items : LaidItems (linked.filter (·.isConcrete)) (items.filter (!·.isTransient))
        (start + (Varint.encode
          (UInt64.ofNat (items.filter (!·.isTransient)).length)).length + 1) last regions) :
      Laid tag linked value start last regions
  /-- a map -/
  | map {linked : Option TypeTag} {field : String} {members : List (String × Value)}
      {start last : Nat} {regions : List Region}
      (table : LaidTable (Encoding.mapHead members) (Encoding.mapMembers field members) []
        start last regions) :
      Laid .embeddedMap linked (.embeddedMap members) start last regions

/-- A table stands between two offsets: a region of its own, and those of its bodies. -/
inductive LaidTable : (head : List UInt8) → (members : List Member) → (tail : List UInt8) →
    (start last : Nat) → List Region → Prop where
  | table (region : Region) {inner : List Region}
      (bodies : LaidSeats region.seats inner) :
      LaidTable region.head (region.seats.map (·.member)) region.tail region.start region.last
        (region :: inner)

/-- The bodies of a table's members stand where its seats say, written under the tags that were
chosen for them. -/
inductive LaidSeats : List Seat → List Region → Prop where
  | nil : LaidSeats [] []
  | null {member : Member} {slot : Nat} {rest : List Seat} {regions : List Region}
      (isNull : member.value.isNull = true) (later : LaidSeats rest regions) :
      LaidSeats (⟨member, slot, none⟩ :: rest) regions
  | body {member : Member} {slot : Nat} {span : Span} {rest : List Seat}
      {regions regions' : List Region} (choice : member.tag = .ok span.tag)
      (here : Laid span.tag member.linked member.value span.start span.last regions)
      (later : LaidSeats rest regions') :
      LaidSeats (⟨member, slot, some span⟩ :: rest) (regions ++ regions')

/-- The elements of a list or set stand one behind the other, each behind its tag. -/
inductive LaidItems : (linked : Option TypeTag) → List Value → (start last : Nat) →
    List Region → Prop where
  | nil {linked : Option TypeTag} {start : Nat} : LaidItems linked [] start start []
  | null {linked : Option TypeTag} {item : Value} {rest : List Value} {start last : Nat}
      {regions : List Region} (isNull : item.isNull = true)
      (tagged : Holds buffer start [TypeTag.any.id])
      (later : LaidItems linked rest (start + 1) last regions) :
      LaidItems linked (item :: rest) start last regions
  | body {linked : Option TypeTag} {item : Value} {tag : TypeTag} {rest : List Value}
      {start mid last : Nat} {regions regions' : List Region}
      (notNull : item.isNull = false) (choice : (linked <|> item.naturalTag) = some tag)
      (tagged : Holds buffer start [tag.id])
      (here : Laid tag none item (start + 1) mid regions)
      (later : LaidItems linked rest mid last regions') :
      LaidItems linked (item :: rest) start last (regions ++ regions')

end

/-- A record that was written stands between two offsets. -/
abbrev LaidRecord (record : Record) (start last : Nat) (regions : List Region) : Prop :=
  LaidTable context buffer (Encoding.recordHead record) (Encoding.recordMembers context record)
    (Varint.encode Encoding.headerEnd) start last regions

end Laid

/-! ## No body is empty

A slot that is filled points at something, so no two of them point at one place. -/

namespace Encoding

variable {context : Context} {start : Nat} {earlier calls : List LinkTarget} {bytes : List UInt8}

/-- What begins with a byte or more is not empty. -/
theorem length_pos_of_bind {α β : Type} {x : Encoder α} {f : α → Encoder β} {b : β}
    (first : ∀ a bytes₁ calls₁, x start earlier = ⟨bytes₁, calls₁, .ok a⟩ → 0 < bytes₁.length)
    (run : (x >>= f) start earlier = ⟨bytes, calls, .ok b⟩) : 0 < bytes.length := by
  obtain ⟨a, bytes₁, calls₁, bytes₂, calls₂, here, -, rfl, rfl⟩ := Encoder.bind_eq_ok.mp run
  have some := first a bytes₁ calls₁ here
  rw [List.length_append]
  omega

/-- Bytes behind their number. -/
theorem length_pos_prefixed (data : List UInt8) :
    0 < (Varint.encode (UInt64.ofNat data.length) ++ data).length := by
  have front := Varint.length_encode_pos (UInt64.ofNat data.length)
  rw [List.length_append]
  omega

/-- Elements behind their number. -/
theorem length_pos_counted {n : Nat} {elements : Unit → Encoder Unit}
    (run : (Encoder.varint n >>= elements) start earlier = ⟨bytes, calls, .ok ()⟩) :
    0 < bytes.length := by
  refine length_pos_of_bind (fun _ _ _ here => ?_) run
  cases here
  exact Varint.length_encode_pos _

/-- An identity that is stored has a byte for its cluster at least. -/
theorem length_pos_link {target : LinkTarget}
    (run : Link.write context target start earlier = ⟨bytes, calls, .ok ()⟩) :
    0 < bytes.length := by
  obtain ⟨rid, bytes₁, calls₁, bytes₂, calls₂, -, written, rfl, rfl⟩ := Encoder.bind_eq_ok.mp run
  have some := length_pos_of_bind (fun _ _ _ here => by
    cases here
    exact Varint.length_encode_pos _) written
  rw [List.length_append]
  omega

/-- A decimal has the four bytes of its scale in front. -/
theorem length_pos_decimal {field : String} {number : Decimal}
    (run : writeDecimal field number start earlier = ⟨bytes, calls, .ok ()⟩) :
    0 < bytes.length := by
  obtain ⟨-, -, rfl, -⟩ := writeDecimal_eq_ok run
  have front : 0 < (BigEndian.encode32 number.scale.toInt32.toUInt32).length := by
    rw [BigEndian.encode32, BigEndian.length_encode]
    exact Nat.zero_lt_succ 3
  rw [List.length_append, List.length_append]
  omega

/-- An object of the application's has the length of its type name in front. -/
theorem length_pos_custom {field typeName : String} {stream : List UInt8}
    (run : writeCustom context field typeName stream start earlier = ⟨bytes, calls, .ok ()⟩) :
    0 < bytes.length := by
  obtain ⟨registry, -, -, rfl, -⟩ := writeCustom_eq_ok run
  have front := Varint.length_encode_pos (UInt64.ofNat (Utf8.encode typeName).length)
  simp only [List.length_append]
  omega

/-- A body that holds no further bodies has a byte or more. -/
theorem length_pos_scalar {field : String} {tag : TypeTag} {value : Value}
    (run : writeScalar context field tag value start earlier = ⟨bytes, calls, .ok ()⟩) :
    0 < bytes.length := by
  -- one case for each way in which a body without bodies inside is written
  cases WrittenScalar.of_eq_ok run with
  | short _ _ => exact Varint.length_encode_pos _
  | integer _ _ => exact Varint.length_encode_pos _
  | long _ => exact Varint.length_encode_pos _
  | string text => exact length_pos_prefixed _
  | binary content => exact length_pos_prefixed content
  | linkBag content => exact length_pos_prefixed content
  | double word => exact Nat.zero_lt_succ 7
  | widened word => exact Nat.zero_lt_succ 7
  | float word => exact Nat.zero_lt_succ 3
  | byte v => exact Nat.zero_lt_one
  | boolean v => exact Nat.zero_lt_one
  | dateTime _ => exact Varint.length_encode_pos _
  | date _ => exact Varint.length_encode_pos _
  | decimal written => exact length_pos_decimal written
  | link written => exact length_pos_link written
  | linked written => exact length_pos_link written
  | linkList _ written => exact length_pos_counted written
  | linkSet _ written => exact length_pos_counted written
  | linkMap written => exact length_pos_counted written
  | custom written => exact length_pos_custom written

end Encoding

/-! ## Slots that were filled in

A slot is four bytes, and a fifth one for the tag unless a schema prescribes that.  What was filled
in stands there, and the span begins where it points. -/

section Slots

variable {buffer : List UInt8} {here place : Nat}

/-- The pointer of a slot is the word that stands there, read as a signed one. -/
theorem Slot.pointerAt_of_holds {word : UInt32} {rest : List UInt8}
    (holds : Holds buffer here (BigEndian.encode32 word ++ rest)) :
    Slot.pointerAt buffer here = word.toInt32.toInt := by
  obtain ⟨after, split⟩ := holds.drop
  have four : (BigEndian.encode32 word).length = Slot.pointerSize := BigEndian.length_encode 4 _
  rw [Slot.pointerAt, split, List.append_assoc, ← four, List.take_left, BigEndian.decode_encode32]

/-- Each byte of what stands at a place stands as far behind it as it is deep inside. -/
theorem Holds.getElem? {bytes : List UInt8} {b : UInt8} {n : Nat}
    (holds : Holds buffer here bytes) (there : bytes[n]? = some b) :
    buffer[here + n]? = some b := by
  obtain ⟨after, split⟩ := holds.drop
  have inside : n < bytes.length := (List.getElem?_eq_some_iff.mp there).1
  rw [← List.getElem?_drop, split, List.getElem?_append_left inside, there]

/-- A slot holds what it was filled with when the body was written. -/
theorem Seat.isFilled {member : Member} {write : TypeTag → Encoder Unit}
    {earlier calls : List LinkTarget} {filling : Option Filling} {bytes : List UInt8}
    (body : SlotBody member.value member.tag write place earlier filling bytes calls)
    (positive : 0 < place) (holds : Holds buffer here (Slot.encode member.pinned filling)) :
    Seat.IsFilled buffer
      ⟨member, here, filling.map fun f => ⟨f.tag, f.pointer, f.pointer + bytes.length⟩⟩ := by
  cases body with
  | null isNull =>
    -- an empty slot is all zeros, with a byte for the tag or without one
    have zero : Slot.pointerAt buffer here = 0 := by
      cases pinned : member.pinned with
      | true =>
        rw [pinned] at holds
        have zeros : Holds buffer here (BigEndian.encode32 0 ++ []) := holds
        exact Slot.pointerAt_of_holds zeros
      | false =>
        rw [pinned] at holds
        have zeros : Holds buffer here (BigEndian.encode32 0 ++ [0]) := holds
        exact Slot.pointerAt_of_holds zeros
    constructor
    · exact iff_of_true rfl isNull
    · exact iff_of_true zero isNull
    · intro span none
      cases none
    · intro pinned
      have pinned : member.pinned = false := pinned
      rw [pinned] at holds
      exact holds.getElem? rfl
  | @body chosen bytes calls notNull choice written reached =>
    have fits : place < 2 ^ 31 := by
      rw [Slot.maxPointer] at reached
      omega
    rw [Slot.encode, Slot.pointerSize, BigEndian.encode_ofNat fits] at holds
    have pointer : Slot.pointerAt buffer here = place := by
      rw [Slot.pointerAt_of_holds holds, BigEndian.toInt_ofNat fits]
    have notNull : ¬member.value.isNull = true := Bool.eq_false_iff.mp notNull
    constructor
    · exact iff_of_false (fun none => by cases none) notNull
    · exact iff_of_false (by show ¬Slot.pointerAt buffer here = 0; omega) notNull
    · intro span same
      cases same
      exact pointer
    · intro pinned
      have pinned : member.pinned = false := pinned
      rw [pinned] at holds
      have behind := holds.right
      rw [show (BigEndian.encode32 (UInt32.ofNat place)).length = Slot.pointerSize from
        BigEndian.length_encode 4 _] at behind
      have tagged : Holds buffer (here + Slot.pointerSize) [chosen.id] := behind
      exact tagged.getElem? (n := 0) rfl

/-- The writer wrote the body of a seat where the seat says, and then the slot was filled in. -/
inductive Seat.IsWritten (write : BodyWriter) (buffer : List UInt8) : Seat → Prop where
  | written {member : Member} {slot place : Nat} {earlier calls : List LinkTarget}
      {filling : Option Filling} {bytes : List UInt8}
      (body : SlotBody member.value member.tag
        (fun tag => write member.field tag member.linked member.value) place earlier filling bytes calls)
      (positive : 0 < place) (filled : Holds buffer slot (Slot.encode member.pinned filling))
      (there : Holds buffer place bytes) :
      IsWritten write buffer
        ⟨member, slot, filling.map fun f => ⟨f.tag, f.pointer, f.pointer + bytes.length⟩⟩

theorem Seat.IsWritten.isFilled {write : BodyWriter} {seat : Seat}
    (written : seat.IsWritten write buffer) : seat.IsFilled buffer := by
  cases written with
  | written body positive filled _ => exact Seat.isFilled body positive filled

/-- The offsets in filled slots are where the bodies begin. -/
theorem Region.pointers_eq {region : Region}
    (slots : ∀ seat ∈ region.seats, seat.IsFilled buffer) :
    region.pointers buffer = region.spans.map fun span => (span.start : Int) := by
  rw [Region.pointers, Region.spans]
  generalize region.seats = seats at slots
  induction seats with
  | nil => rfl
  | cons seat rest ih =>
    have filled := slots seat List.mem_cons_self
    have later := ih fun other there => slots other (List.mem_cons_of_mem _ there)
    cases body : seat.body with
    | none =>
      -- a slot without a body is that of a null value, which has no pointer either
      have isNull := filled.bodiless.mp body
      rw [List.filter_cons_of_neg (by simp [isNull]), List.filterMap_cons_none body, later]
    | some span =>
      have notNull : ¬seat.member.value.isNull = true := fun isNull => by
        rw [filled.bodiless.mpr isNull] at body
        cases body
      rw [List.filter_cons_of_pos (by simp [notNull]), List.filterMap_cons_some body,
        List.map_cons, List.map_cons, later, filled.pointer span body]

/-- The rest follows from where the parts of a table stand. -/
theorem Region.isLaidOut {region : Region} (head : Holds buffer region.start region.head)
    (seats : Seated buffer (region.start + region.head.length) region.seats region.slotsEnd)
    (tail : Holds buffer region.slotsEnd region.tail)
    (slots : ∀ seat ∈ region.seats, seat.IsFilled buffer)
    (bodies : Consecutive region.headerEnd region.spans region.last)
    (positive : 0 < region.headerEnd) : region.IsLaidOut buffer := by
  refine ⟨head, seats, tail, slots, bodies, ?_, ?_, bodies.apart, fun _ => bodies.gapless⟩
  · rw [pointers_eq slots]
    intro pointer among
    obtain ⟨span, there, rfl⟩ := List.mem_map.mp among
    have low := (bodies.bounds there).1
    omega
  · rw [pointers_eq slots]
    refine List.pairwise_map.mpr (bodies.increasing.imp fun before => ?_)
    omega

end Slots

/-! ## Everything that is written is laid out

By induction on the levels: what a body inside lays out stands inside the body. -/

section Written

variable {context : Context} {buffer : List UInt8}

/-- Whatever a writer of bodies writes stands in the buffer as it should, and is not empty. -/
structure Lays (context : Context) (buffer : List UInt8) (write : BodyWriter) : Prop where
  laid : ∀ {field : String} {tag : TypeTag} {linked : Option TypeTag} {value : Value} {start : Nat}
    {earlier calls : List LinkTarget} {bytes : List UInt8},
    write field tag linked value start earlier = ⟨bytes, calls, .ok ()⟩ →
    Holds buffer start bytes →
    0 < bytes.length ∧ ∃ regions,
      Laid context buffer tag linked value start (start + bytes.length) regions ∧
      ∀ region ∈ regions, region.IsLaidOut buffer

variable {write : BodyWriter} (lays : Lays context buffer write)
include lays

/-- The members of a table are seated in order, and their bodies stand in that order.  The induction
is on the members; `here` and `place` are where their entries and their bodies begin. -/
theorem Lays.seats : ∀ (members : List Member) {here place : Nat}
    {earlier calls : List LinkTarget} {fillings : List (Option Filling)} {bodies : List UInt8},
    Bodies.write ((members.map (Member.entry write)).map (·.body)) place earlier
      = ⟨fillings, bodies, calls, .ok ()⟩ →
    0 < place →
    Holds buffer here (Entry.encodeAll (members.map (Member.entry write)) fillings) →
    Holds buffer place bodies →
    ∃ seats regions, seats.map (·.member) = members ∧
      Seated buffer here seats
        (here + (Entry.encodeAll (members.map (Member.entry write)) fillings).length) ∧
      (∀ seat ∈ seats, seat.IsWritten write buffer) ∧
      Consecutive place (seats.filterMap (·.body)) (place + bodies.length) ∧
      LaidSeats context buffer seats regions ∧ ∀ region ∈ regions, region.IsLaidOut buffer := by
  intro members
  induction members with
  | nil =>
    intro here place earlier calls fillings bodies run _ _ _
    cases run
    exact ⟨[], [], rfl, rfl, by simp, rfl, .nil, by simp⟩
  | cons member rest ih =>
    intro here place earlier calls fillings bodies run positive entries placed
    rw [List.map_cons, List.map_cons] at run
    obtain ⟨filling, fillings₂, bytes₁, bytes₂, calls₁, calls₂, body, later, rfl, rfl, rfl⟩ :=
      Bodies.write_cons_eq_ok run
    rw [Member.encodeAll_cons, List.head?_cons, Option.join_some, List.tail_cons] at entries ⊢
    have others := entries.right
    have slot := entries.left.right
    rw [List.length_append, Slot.length_encode, ← Nat.add_assoc] at others
    obtain ⟨seats, regions, same, seated, written, consecutive, laid, all⟩ :=
      ih later (by omega) others placed.right
    -- the first member's seat comes before those of the others, and the walks go on behind its
    -- entry and its body
    have first := Seat.IsWritten.written body positive slot placed.left
    have through : here + (member.label ++ Slot.encode member.pinned filling
        ++ Entry.encodeAll (rest.map (Member.entry write)) fillings₂).length
        = here + member.label.length + Slot.size member.pinned
          + (Entry.encodeAll (rest.map (Member.entry write)) fillings₂).length := by
      simp only [List.length_append, Slot.length_encode]
      omega
    have total : place + (bytes₁ ++ bytes₂).length = place + bytes₁.length + bytes₂.length := by
      rw [List.length_append]
      omega
    rw [through, total]
    have allWritten (seat : Seat) (among : seat ∈ ⟨member, here + member.label.length,
        filling.map fun f => ⟨f.tag, f.pointer, f.pointer + bytes₁.length⟩⟩ :: seats) :
        seat.IsWritten write buffer := by
      rcases List.mem_cons.mp among with rfl | deeper
      · exact first
      · exact written seat deeper
    have labelled : Seated buffer here (⟨member, here + member.label.length,
        filling.map fun f => ⟨f.tag, f.pointer, f.pointer + bytes₁.length⟩⟩ :: seats)
        (here + member.label.length + Slot.size member.pinned
          + (Entry.encodeAll (rest.map (Member.entry write)) fillings₂).length) :=
      ⟨entries.left.left, rfl, seated⟩
    refine ⟨⟨member, here + member.label.length,
      filling.map fun f => ⟨f.tag, f.pointer, f.pointer + bytes₁.length⟩⟩ :: seats, ?_⟩
    cases body with
    | null isNull =>
      exact ⟨regions, by rw [List.map_cons, same], labelled, allWritten, consecutive,
        .null isNull laid, all⟩
    | body notNull choice written reached =>
      -- a body of its own, with the tables that were written for it
      obtain ⟨some, inner, here', all'⟩ := lays.laid written placed.left
      refine ⟨inner ++ regions, by rw [List.map_cons, same], labelled, allWritten,
        ⟨rfl, Nat.lt_add_of_pos_right some, consecutive⟩, .body choice here' laid, ?_⟩
      intro region among
      rcases List.mem_append.mp among with there | there
      · exact all' region there
      · exact all region there

/-- A table that was written is laid out, and so are those inside it. -/
theorem Lays.region {head tail : List UInt8} {members : List Member} {start : Nat}
    {earlier calls : List LinkTarget} {bytes : List UInt8} (someHead : 0 < head.length)
    (run : writeTable head (members.map (Member.entry write)) tail start earlier
      = ⟨bytes, calls, .ok ()⟩)
    (holds : Holds buffer start bytes) :
    ∃ region inner, (∀ seat ∈ region.seats, seat.IsWritten write buffer) ∧
      region.start = start ∧ region.head = head ∧ region.seats.map (·.member) = members ∧
      region.tail = tail ∧ region.last = start + bytes.length ∧
      LaidSeats context buffer region.seats inner ∧
      ∀ other ∈ region :: inner, other.IsLaidOut buffer := by
  -- head, slots, tail and bodies, in the order in which they stand
  obtain ⟨fillings, bodies, written, rfl⟩ := writeTable_eq_ok run
  have placed := holds.right
  have tails := holds.left.right
  have entries := holds.left.left.right
  simp only [List.length_append, ← Nat.add_assoc] at placed tails entries written ⊢
  obtain ⟨seats, regions, rfl, seated, allWritten, consecutive, laid, all⟩ :=
    lays.seats members written (by omega) entries placed
  -- how wide the slots are together is all that matters from here on
  generalize (Entry.encodeAll ((seats.map (·.member)).map (Member.entry write)) fillings).length
    = width at placed tails seated consecutive ⊢
  refine ⟨⟨start, head, seats, start + head.length + width, tail, _⟩, regions, allWritten, rfl, rfl,
    rfl, rfl, rfl, laid, fun region among => ?_⟩
  rcases List.mem_cons.mp among with rfl | deeper
  · refine Region.isLaidOut holds.left.left.left seated tails
      (fun seat there => (allWritten seat there).isFilled) consecutive ?_
    show 0 < start + head.length + width + tail.length
    omega
  · exact all region deeper

/-- A table lays out one region of slots and bodies, and the regions inside its bodies.  A byte in
front of the table keeps every slot from the place 0. -/
theorem Lays.table {head tail : List UInt8} {members : List Member} {start : Nat}
    {earlier calls : List LinkTarget} {bytes : List UInt8} (someHead : 0 < head.length)
    (run : writeTable head (members.map (Member.entry write)) tail start earlier
      = ⟨bytes, calls, .ok ()⟩)
    (holds : Holds buffer start bytes) :
    0 < bytes.length ∧ ∃ regions,
      LaidTable context buffer head members tail start (start + bytes.length) regions ∧
      ∀ region ∈ regions, region.IsLaidOut buffer := by
  have some : 0 < bytes.length := by
    obtain ⟨fillings, bodies, -, rfl⟩ := writeTable_eq_ok run
    simp only [List.length_append]
    omega
  obtain ⟨region, inner, -, rfl, rfl, rfl, rfl, last, laid, all⟩ := lays.region someHead run holds
  exact ⟨some, _, last ▸ .table region laid, all⟩

/-- A record is its class name and its table of fields. -/
theorem Lays.record {record : Record} {start : Nat} {earlier calls : List LinkTarget}
    {bytes : List UInt8}
    (run : Encoding.writeRecord context write record start earlier = ⟨bytes, calls, .ok ()⟩)
    (holds : Holds buffer start bytes) :
    0 < bytes.length ∧ ∃ regions,
      LaidRecord context buffer record start (start + bytes.length) regions ∧
      ∀ region ∈ regions, region.IsLaidOut buffer := by
  rw [Encoding.writeRecord_eq] at run
  exact lays.table (Encoding.length_pos_prefixed _) run holds

/-- The elements of a list or set stand one behind the other. -/
theorem Lays.items {field : String} {linked : Option TypeTag} : ∀ (items : List Value)
    {start : Nat} {earlier calls : List LinkTarget} {bytes : List UInt8},
    items.forM (Encoding.writeItem write field linked) start earlier = ⟨bytes, calls, .ok ()⟩ →
    Holds buffer start bytes →
    ∃ regions, LaidItems context buffer linked items start (start + bytes.length) regions ∧
      ∀ region ∈ regions, region.IsLaidOut buffer := by
  intro items
  induction items with
  | nil =>
    intro start earlier calls bytes run _
    cases run
    exact ⟨[], .nil, by simp⟩
  | cons item rest ih =>
    intro start earlier calls bytes run holds
    rw [Encoder.forM_cons] at run
    obtain ⟨_, bytes₁, calls₁, bytes₂, calls₂, here, later, rfl, rfl⟩ := Encoder.bind_eq_ok.mp run
    cases WrittenItem.of_eq_ok here with
    | null isNull =>
      obtain ⟨regions, laid, all⟩ := ih later holds.right
      refine ⟨regions, ?_, all⟩
      rw [List.length_append, ← Nat.add_assoc]
      exact .null isNull holds.left laid
    | @body tag body _ notNull choice written =>
      -- an element with a value is its tag and then a body, which may hold tables of its own
      have tagged : Holds buffer start ([tag.id] ++ body) := holds.left
      obtain ⟨_, inner, laidHere, allHere⟩ := lays.laid written tagged.right
      obtain ⟨regions, laid, all⟩ := ih later holds.right
      refine ⟨inner ++ regions, ?_, ?_⟩
      · rw [List.length_append, List.length_cons, ← Nat.add_assoc, Nat.add_comm body.length,
          ← Nat.add_assoc]
        rw [List.length_cons, Nat.add_comm body.length, ← Nat.add_assoc] at laid
        exact .body notNull choice tagged.left laidHere laid
      · intro region among
        rcases List.mem_append.mp among with there | there
        · exact allHere region there
        · exact all region there

/-- A list or set stands behind the number of its elements and the tag that leaves theirs open. -/
theorem Lays.sequence {field : String} {tag : TypeTag} {linked : Option TypeTag} {value : Value}
    {items : List Value} {start : Nat} {earlier calls : List LinkTarget} {bytes : List UInt8}
    (sort : tag.isSequence = true) (elements : value.items? = some items)
    (run : Encoding.writeItems write field linked items start earlier = ⟨bytes, calls, .ok ()⟩)
    (holds : Holds buffer start bytes) :
    0 < bytes.length ∧ ∃ regions,
      Laid context buffer tag linked value start (start + bytes.length) regions ∧
      ∀ region ∈ regions, region.IsLaidOut buffer := by
  obtain ⟨elements', written, rfl⟩ := Encoding.writeItems_eq_ok run
  have some := Varint.length_encode_pos
    (UInt64.ofNat (items.filter (!·.isTransient)).length)
  rw [← List.append_assoc] at holds ⊢
  have inside := holds.right
  simp only [List.length_append, List.length_singleton, ← Nat.add_assoc] at inside written ⊢
  obtain ⟨regions, laid, all⟩ := lays.items _ written inside
  exact ⟨by omega, regions, .sequence sort elements holds.left laid, all⟩

end Written

/-- One level more of containers, given that the bodies inside them are laid out. -/
theorem lays_bodyWith {context : Context} {buffer : List UInt8}
    {inner : Except CodecError BodyWriter}
    (deeper : ∀ write, inner = .ok write → Lays context buffer write) :
    Lays context buffer (Encoding.writeBodyWith context inner) := by
  constructor
  intro field tag linked value start earlier calls bytes run holds
  cases WrittenBody.of_eq_ok run with
  | scalar flat written =>
    exact ⟨Encoding.length_pos_scalar written, [], .scalar written holds, by simp⟩
  | embedded inside written =>
    obtain ⟨some, regions, table, all⟩ := (deeper _ inside).record written holds
    exact ⟨some, regions, .embedded table, all⟩
  | serializable inside written =>
    obtain ⟨some, regions, table, all⟩ := (deeper _ inside).record written holds
    exact ⟨some, regions, .serializable table, all⟩
  | sequence sort elements inside written =>
    exact (deeper _ inside).sequence sort elements written holds
  | map inside written =>
    rw [Encoding.writeMap_eq] at written
    obtain ⟨some, regions, table, all⟩ := (deeper _ inside).table
      (Varint.length_encode_pos _) written holds
    exact ⟨some, regions, .map table, all⟩

/-- Every body is laid out, however deep it nests. -/
theorem lays_body {context : Context} {buffer : List UInt8} (room : Nat) :
    Lays context buffer (Encoding.writeBody context room) := by
  induction room with
  | zero => exact lays_bodyWith fun write none => by cases none
  | succ room ih =>
    refine lays_bodyWith fun write same => ?_
    cases same
    exact ih

namespace Record

/-- **A record that was written into an arena is laid out there.**  It stands between the offset
that the writing answered with and the new end of the arena, and so does each record and each map
inside it: the bodies follow the header in the order of the slots with no gap and no overlap, and
each slot says where its body begins and under which tag it was written. -/
theorem encodeInto_layout {context : Context} {record : Record} {arena final : Arena} {start : Nat}
    {earlier calls : List LinkTarget}
    (run : record.encodeInto context arena earlier = (.ok start, final, calls)) :
    start = arena.size ∧ ∃ regions,
      LaidRecord context final.toList record start final.size regions ∧
      ∀ region ∈ regions, region.IsLaidOut final.toList := by
  rw [encodeInto] at run
  rcases emitted : record.emission context arena.size earlier with ⟨bytes, calls', result⟩
  rw [emitted] at run
  cases result with
  | error e => cases run
  | ok _ =>
    cases run
    -- the bytes stand behind what was in the arena, and nothing stands behind them
    have holds : Holds (arena.append bytes).2.toList arena.size bytes := by
      refine ⟨arena.toList, [], ?_, arena.length_toList⟩
      rw [Arena.toList_append, List.append_nil]
    have size : (arena.append bytes).2.size = arena.size + bytes.length := by
      rw [← Arena.length_toList, Arena.toList_append, List.length_append, Arena.length_toList]
    obtain ⟨_, regions, laid, all⟩ := (lays_body context.options.maxDepth).record emitted holds
    rw [size]
    exact ⟨rfl, regions, laid, all⟩

/-- Behind two bytes of something else, a map with a null member and a null field behind it. -/
theorem encodeInto_layout_behind_prefix :
    let record : Record := ⟨none, RecordId.empty,
      [⟨"m", .embeddedMap [("a", .byte 5), ("b", .null)], none⟩, ⟨"n", .null, none⟩], false⟩
    let arena : Arena := ⟨#[9, 9]⟩
    let final : Arena := ⟨#[9, 9, 0, 1, 109, 0, 0, 0, 18, 12, 1, 110, 0, 0, 0, 0, 0, 0,
      2, 7, 1, 97, 0, 0, 0, 35, 17, 7, 1, 98, 0, 0, 0, 0, 0, 5]⟩
    record.encodeInto {} arena [] = (.ok 2, final, []) ∧
      2 = arena.size ∧ ∃ regions, LaidRecord {} final.toList record 2 final.size regions ∧
        ∀ region ∈ regions, region.IsLaidOut final.toList := by
  intro record arena final
  have run : record.encodeInto {} arena [] = (.ok 2, final, []) := by
    refine Prod.ext (eq_ok_of_toOption (by decide +kernel)) (Prod.ext (by decide +kernel) ?_)
    exact List.eq_nil_of_length_eq_zero (by decide +kernel)
  exact ⟨run, encodeInto_layout run⟩

end Record
end DocumentCodec
