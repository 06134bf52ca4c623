import DocumentCodec.Encoding
import Mathlib.Algebra.GroupWithZero.Nat
/-!
# What a successful encoder emitted

A sequence of encoders succeeds by both parts succeeding one behind the other, and what it emitted
is what they emitted.  So a successful encoding can be taken apart, step by step, into the bytes
and the calls of its parts: a list into its elements, a table into its header and its bodies.

Each lemma says all that a success tells about the parts, the offsets they began at and the calls
made before them included; the proofs about reading back start from there.
-/

namespace DocumentCodec

namespace Encoder

variable {α β : Type} {start : Nat} {earlier calls : List LinkTarget} {bytes : List UInt8}

/-! ## Sequences

An encoder that succeeds has succeeded in every part, and its bytes are those of the parts. -/

/-- Behind a first part that succeeded the second one goes on. -/
theorem bind_of_ok {x : Encoder α} {f : α → Encoder β} {a : α}
    (run : x start earlier = ⟨bytes, calls, .ok a⟩) :
    (x >>= f) start earlier
      = ⟨bytes ++ (f a (start + bytes.length) (earlier ++ calls)).bytes,
        calls ++ (f a (start + bytes.length) (earlier ++ calls)).calls,
        (f a (start + bytes.length) (earlier ++ calls)).result⟩ := by
  show bind x f start earlier = _
  rw [bind, run]

/-- Behind a first part that failed there is nothing. -/
theorem bind_of_error {x : Encoder α} {f : α → Encoder β} {e : CodecError}
    (run : x start earlier = ⟨bytes, calls, .error e⟩) :
    (x >>= f) start earlier = ⟨bytes, calls, .error e⟩ := by
  show bind x f start earlier = _
  rw [bind, run]

/-- A sequence succeeds by both parts succeeding; offsets and calls go on behind the first. -/
theorem bind_eq_ok {x : Encoder α} {f : α → Encoder β} {b : β} :
    (x >>= f) start earlier = ⟨bytes, calls, .ok b⟩ ↔
      ∃ a bytes₁ calls₁ bytes₂ calls₂, x start earlier = ⟨bytes₁, calls₁, .ok a⟩ ∧
        f a (start + bytes₁.length) (earlier ++ calls₁) = ⟨bytes₂, calls₂, .ok b⟩ ∧
        bytes = bytes₁ ++ bytes₂ ∧ calls = calls₁ ++ calls₂ := by
  show bind x f start earlier = _ ↔ _
  rw [bind]
  -- a failing first part is the whole outcome, so a success has come through it
  rcases x start earlier with ⟨bytes₁, calls₁, result⟩
  cases result with
  | error e =>
    constructor
    · intro same
      cases same
    · rintro ⟨a, _, _, _, _, same, -⟩
      cases same
  | ok a =>
    dsimp only
    rcases next : f a (start + bytes₁.length) (earlier ++ calls₁) with ⟨bytes₂, calls₂, result⟩
    constructor
    · intro same
      cases same
      exact ⟨a, bytes₁, calls₁, bytes₂, calls₂, rfl, next, rfl, rfl⟩
    · rintro ⟨a', _, _, _, _, same, next', rfl, rfl⟩
      cases same
      rw [next] at next'
      cases next'
      rfl

/-- What is emitted first, and then the rest. -/
theorem emit_bind_eq_ok {first : List UInt8} {f : Unit → Encoder β} {b : β}
    (run : (emit first >>= f) start earlier = ⟨bytes, calls, .ok b⟩) :
    ∃ rest, f () (start + first.length) earlier = ⟨rest, calls, .ok b⟩ ∧ bytes = first ++ rest := by
  obtain ⟨_, _, _, rest, _, here, next, rfl, rfl⟩ := bind_eq_ok.mp run
  cases here
  rw [List.append_nil] at next
  exact ⟨rest, next, rfl⟩

/-- A sequence over a list is the first element's and then the rest's. -/
theorem forM_cons (f : α → Encoder Unit) (a : α) (rest : List α) :
    (a :: rest).forM f = f a >>= fun _ => rest.forM f := rfl

/-- Where all of a list was written, each element was written somewhere. -/
theorem of_forM_eq_ok {f : α → Encoder Unit} : ∀ {items : List α} {start : Nat}
    {earlier calls : List LinkTarget} {bytes : List UInt8},
    items.forM f start earlier = ⟨bytes, calls, .ok ()⟩ → ∀ item ∈ items,
    ∃ place asked own made, f item place asked = ⟨own, made, .ok ()⟩ := by
  intro items
  induction items with
  | nil =>
    intro start earlier calls bytes run item there
    cases there
  | cons first rest ih =>
    intro start earlier calls bytes run item there
    rw [forM_cons] at run
    obtain ⟨_, _, _, _, _, here, later, -, -⟩ := bind_eq_ok.mp run
    rcases List.mem_cons.mp there with rfl | inside
    · exact ⟨_, _, _, _, here⟩
    · exact ih later item inside

end Encoder

/-- Whether an encoding succeeded can be computed. -/
theorem eq_ok_of_toOption {ε α : Type} {outcome : Except ε α} {a : α}
    (answer : outcome.toOption = some a) : outcome = .ok a := by
  cases outcome with
  | error e => cases answer
  | ok b =>
    cases answer
    rfl

/-! ## Tables

A table is the labels with their slots, and the bodies behind them.  What a slot holds is the place
where the body of it was written, and the tag it was written under. -/

/-- What writing the body for a slot left behind: nothing for a null value; for any other the
bytes and calls of a body that was written under the tag chosen, where a slot can point. -/
inductive SlotBody (value : Value) (tag : Except Unsupported TypeTag)
    (write : TypeTag → Encoder Unit) (start : Nat) (earlier : List LinkTarget) :
    Option Filling → List UInt8 → List LinkTarget → Prop where
  | null (isNull : value.isNull = true) : SlotBody value tag write start earlier none [] []
  | body {chosen : TypeTag} {bytes : List UInt8} {calls : List LinkTarget}
      (notNull : value.isNull = false) (choice : tag = .ok chosen)
      (written : write chosen start earlier = ⟨bytes, calls, .ok ()⟩)
      (reached : start ≤ Slot.maxPointer) :
      SlotBody value tag write start earlier (some ⟨start, chosen⟩) bytes calls

/-- A body that was written for a slot. -/
theorem SlotBody.of_eq_ok {field : String} {value : Value} {tag : Except Unsupported TypeTag}
    {write : TypeTag → Encoder Unit} {member : Encoder TypeTag} {start : Nat}
    {earlier calls : List LinkTarget} {bytes : List UInt8} {chosen : TypeTag}
    (here : Encoding.writeSlotBody field value tag write = some member)
    (run : member start earlier = ⟨bytes, calls, .ok chosen⟩) :
    SlotBody value tag write start earlier (some ⟨start, chosen⟩) bytes calls := by
  rw [Encoding.writeSlotBody] at here
  split at here
  · cases here
  · next notNull =>
    cases here
    obtain ⟨_, _, _, bytes', calls', position, rest, rfl, rfl⟩ := Encoder.bind_eq_ok.mp run
    cases position
    rw [List.length_nil, Nat.add_zero, List.append_nil] at rest
    cases tag with
    | error reason => cases rest
    | ok tag =>
      obtain ⟨_, bytes₁, calls₁, bytes₂, calls₂, written, checked, rfl, rfl⟩ :=
        Encoder.bind_eq_ok.mp rest
      -- that a slot can point at the body is checked behind it, and emits nothing
      obtain ⟨_, _, _, _, _, check, last, rfl, rfl⟩ := Encoder.bind_eq_ok.mp checked
      cases last
      rw [Encoding.checkPointer] at check
      split at check
      · cases check
      · next reached =>
        cases check
        simp only [List.nil_append, List.append_nil]
        exact .body (Bool.eq_false_iff.mpr notNull) rfl written (Nat.le_of_not_lt reached)

/-- Bodies that were all written are the first one and the others behind it. -/
theorem Bodies.write_cons_eq_ok {field : String} {value : Value}
    {tag : Except Unsupported TypeTag} {write : TypeTag → Encoder Unit}
    {rest : List (Option (Encoder TypeTag))} {start : Nat} {earlier calls : List LinkTarget}
    {fillings : List (Option Filling)} {bytes : List UInt8}
    (run : Bodies.write (Encoding.writeSlotBody field value tag write :: rest) start earlier
      = ⟨fillings, bytes, calls, .ok ()⟩) :
    ∃ filling fillings₂ bytes₁ bytes₂ calls₁ calls₂,
      SlotBody value tag write start earlier filling bytes₁ calls₁ ∧
      Bodies.write rest (start + bytes₁.length) (earlier ++ calls₁)
        = ⟨fillings₂, bytes₂, calls₂, .ok ()⟩ ∧
      fillings = filling :: fillings₂ ∧ bytes = bytes₁ ++ bytes₂ ∧ calls = calls₁ ++ calls₂ := by
  cases here : Encoding.writeSlotBody field value tag write with
  | none =>
    have null : value.isNull = true := by
      rw [Encoding.writeSlotBody] at here
      split at here
      · assumption
      · cases here
    rw [here, Bodies.write] at run
    rcases later : Bodies.write rest start earlier with ⟨fillings₂, bytes₂, calls₂, result⟩
    rw [later] at run
    cases run
    -- a null member has no body, so the next one begins where it would have
    refine ⟨none, fillings₂, [], bytes₂, [], calls₂, .null null, ?_, rfl, rfl, rfl⟩
    rw [List.append_nil]
    exact later
  | some member =>
    rw [here, Bodies.write] at run
    rcases first : member start earlier with ⟨bytes₁, calls₁, result⟩
    rw [first] at run
    cases result with
    | error e => cases run
    | ok chosen =>
      dsimp only at run
      rcases later : Bodies.write rest (start + bytes₁.length) (earlier ++ calls₁)
        with ⟨fillings₂, bytes₂, calls₂, result⟩
      rw [later] at run
      cases run
      exact ⟨_, fillings₂, bytes₁, bytes₂, calls₁, calls₂, .of_eq_ok here first, later, rfl, rfl,
        rfl⟩

/-- A body that can be written for a slot. -/
theorem Encoding.writeSlotBody_of_ok (field : String) {value : Value} {chosen : TypeTag}
    {write : TypeTag → Encoder Unit} {start : Nat} {earlier calls : List LinkTarget}
    {bytes : List UInt8} (notNull : value.isNull = false)
    (written : write chosen start earlier = ⟨bytes, calls, .ok ()⟩)
    (reached : start ≤ Slot.maxPointer) :
    ∃ member, writeSlotBody field value (.ok chosen) write = some member ∧
      member start earlier = ⟨bytes, calls, .ok chosen⟩ := by
  -- the place is within reach, so the check behind the body passes
  have check : checkPointer field value start (start + bytes.length) (earlier ++ calls)
      = ⟨[], [], .ok ()⟩ := by
    rw [checkPointer, if_neg (Nat.not_lt.mpr reached)]
    rfl
  have checked : (checkPointer field value start >>= fun _ => pure chosen)
      (start + bytes.length) (earlier ++ calls) = ⟨[], [], .ok chosen⟩ :=
    Encoder.bind_eq_ok.mpr ⟨_, _, _, _, _, check, rfl, rfl, rfl⟩
  rw [writeSlotBody, if_neg (Bool.eq_false_iff.mp notNull)]
  refine ⟨_, rfl, Encoder.bind_eq_ok.mpr ⟨start, [], [], bytes, calls, rfl, ?_, rfl, rfl⟩⟩
  rw [List.length_nil, Nat.add_zero, List.append_nil]
  exact Encoder.bind_eq_ok.mpr ⟨(), _, _, _, _, written, checked, (List.append_nil _).symm,
    (List.append_nil _).symm⟩

/-- Behind what was written for one slot the other bodies go on. -/
theorem SlotBody.write_cons {field : String} {value : Value} {tag : Except Unsupported TypeTag}
    {write : TypeTag → Encoder Unit} {rest : List (Option (Encoder TypeTag))} {start : Nat}
    {earlier calls₁ calls₂ : List LinkTarget} {filling : Option Filling}
    {fillings : List (Option Filling)} {bytes₁ bytes₂ : List UInt8}
    (first : SlotBody value tag write start earlier filling bytes₁ calls₁)
    (later : Bodies.write rest (start + bytes₁.length) (earlier ++ calls₁)
      = ⟨fillings, bytes₂, calls₂, .ok ()⟩) :
    Bodies.write (Encoding.writeSlotBody field value tag write :: rest) start earlier
      = ⟨filling :: fillings, bytes₁ ++ bytes₂, calls₁ ++ calls₂, .ok ()⟩ := by
  cases first with
  | null isNull =>
    -- a null value has no body, so the next one begins where it would have
    have later : Bodies.write rest start earlier = ⟨fillings, bytes₂, calls₂, .ok ()⟩ := by
      rw [List.append_nil] at later
      exact later
    rw [Encoding.writeSlotBody, if_pos isNull, Bodies.write, later]
    rfl
  | body notNull choice written reached =>
    subst choice
    obtain ⟨member, here, run⟩ := Encoding.writeSlotBody_of_ok field notNull written reached
    rw [here, Bodies.write, run]
    show Bodies.mk (_ :: (Bodies.write rest _ _).fillings) _ _ _ = _
    rw [later]

/-- A table that was written is its header, filled in, and its bodies. -/
theorem writeTable_eq_ok {head tail : List UInt8} {entries : List Entry} {start : Nat}
    {earlier calls : List LinkTarget} {bytes : List UInt8}
    (run : writeTable head entries tail start earlier = ⟨bytes, calls, .ok ()⟩) :
    ∃ fillings bodies,
      Bodies.write (entries.map (·.body))
        (start + (head.length + (Entry.encodeAll entries fillings).length + tail.length)) earlier
        = ⟨fillings, bodies, calls, .ok ()⟩ ∧
      bytes = head ++ Entry.encodeAll entries fillings ++ tail ++ bodies := by
  rw [writeTable] at run
  rcases all : Bodies.write (entries.map (·.body))
    (start + (head.length + Entry.sizeAll entries + tail.length)) earlier
    with ⟨fillings, bodies, calls', result⟩
  rw [all] at run
  cases run
  exact ⟨fillings, bodies, by rw [Entry.length_encodeAll]; exact all, rfl⟩

/-- A table is written as its header, filled in, and its bodies, if they are written behind it. -/
theorem writeTable_of_bodies {head tail : List UInt8} {entries : List Entry} {start : Nat}
    {earlier calls : List LinkTarget} {fillings : List (Option Filling)} {bodies : List UInt8}
    (run : Bodies.write (entries.map (·.body))
      (start + (head.length + (Entry.encodeAll entries fillings).length + tail.length)) earlier
      = ⟨fillings, bodies, calls, .ok ()⟩) :
    writeTable head entries tail start earlier
      = ⟨head ++ Entry.encodeAll entries fillings ++ tail ++ bodies, calls, .ok ()⟩ := by
  rw [Entry.length_encodeAll] at run
  rw [writeTable, run]

/-! ## Bodies -/

/-- The bytes of an identity. -/
def Link.idBytes (rid : RecordId) : List UInt8 :=
  Varint.encodeSigned rid.cluster.toInt64 ++ Varint.encodeSigned rid.position

theorem Link.writeId_eq (rid : RecordId) (start : Nat) (earlier : List LinkTarget) :
    writeId rid start earlier = ⟨idBytes rid, [], .ok ()⟩ := rfl

/-- An integer is written as the word it holds. -/
theorem Encoding.writeInteger_eq_ok {field : String} {tag : TypeTag} {value : Value} {start : Nat}
    {earlier calls : List LinkTarget} {bytes : List UInt8}
    (run : writeInteger field tag value start earlier = ⟨bytes, calls, .ok ()⟩) :
    ∃ v, value.int64? = some v ∧ inRange tag v = true ∧ bytes = Varint.encodeSigned v ∧
      calls = [] := by
  rw [writeInteger] at run
  cases number : value.int64? with
  | none =>
    rw [number] at run
    cases run
  | some v =>
    rw [number] at run
    dsimp only at run
    split at run
    · next fits =>
      cases run
      exact ⟨v, rfl, fits, rfl, rfl⟩
    · cases run

/-- A decimal is written as its scale, the length of its unscaled part, and that part. -/
theorem Encoding.writeDecimal_eq_ok {field : String} {number : Decimal} {start : Nat}
    {earlier calls : List LinkTarget} {bytes : List UInt8}
    (run : writeDecimal field number start earlier = ⟨bytes, calls, .ok ()⟩) :
    Signed.Fits32 number.scale.toInt ∧ (BigEndian.encodeSigned number.unscaled).length < 2 ^ 31 ∧
      bytes = BigEndian.encode32 number.scale.toInt32.toUInt32
        ++ BigEndian.encode 4 (BigEndian.encodeSigned number.unscaled).length
        ++ BigEndian.encodeSigned number.unscaled ∧ calls = [] := by
  unfold writeDecimal at run
  split at run
  · cases run
  · next narrow =>
    split at run
    · cases run
    · next long =>
      cases run
      exact ⟨Decidable.not_not.mp narrow, by omega, rfl, rfl⟩

/-- An opaque object is written only if a factory is there to make it again. -/
theorem Encoding.writeCustom_eq_ok {context : Context} {field typeName : String}
    {stream : List UInt8} {start : Nat} {earlier calls : List LinkTarget} {bytes : List UInt8}
    (run : writeCustom context field typeName stream start earlier = ⟨bytes, calls, .ok ()⟩) :
    ∃ registry, context.registry = some registry ∧ registry.hasCustom typeName = true ∧
      bytes = Varint.encode (UInt64.ofNat (Utf8.encode typeName).length) ++ Utf8.encode typeName
        ++ (Varint.encode (UInt64.ofNat stream.length) ++ stream) ∧ calls = [] := by
  rw [writeCustom] at run
  split at run
  · next registered =>
    obtain ⟨rest, written, rfl⟩ := Encoder.emit_bind_eq_ok run
    cases written
    cases there : context.registry with
    | none =>
      rw [there] at registered
      cases registered
    | some registry =>
      rw [there] at registered
      exact ⟨registry, rfl, registered, rfl, rfl⟩
  · cases run

/-- What writing an element left behind: the tag of an absent one for a null value; for any other
the tag chosen, the declared one or else the one of its kind, and the body written under it. -/
inductive WrittenItem (write : BodyWriter) (field : String) (linked : Option TypeTag) (item : Value)
    (start : Nat) (earlier : List LinkTarget) : List UInt8 → List LinkTarget → Prop where
  | null (isNull : item.isNull = true) :
      WrittenItem write field linked item start earlier [TypeTag.any.id] []
  | body {chosen : TypeTag} {bytes : List UInt8} {calls : List LinkTarget}
      (notNull : item.isNull = false) (typed : (linked <|> item.naturalTag) = some chosen)
      (written : write field chosen none item (start + 1) earlier = ⟨bytes, calls, .ok ()⟩) :
      WrittenItem write field linked item start earlier (chosen.id :: bytes) calls

/-- An element that was written. -/
theorem WrittenItem.of_eq_ok {write : BodyWriter} {field : String} {linked : Option TypeTag}
    {item : Value} {start : Nat} {earlier calls : List LinkTarget} {bytes : List UInt8}
    (run : Encoding.writeItem write field linked item start earlier = ⟨bytes, calls, .ok ()⟩) :
    WrittenItem write field linked item start earlier bytes calls := by
  rw [Encoding.writeItem] at run
  split at run
  · next isNull =>
    cases run
    exact .null isNull
  · next notNull =>
    -- an element without a tag is refused
    cases typed : linked <|> item.naturalTag with
    | none =>
      rw [typed] at run
      cases run
    | some chosen =>
      rw [typed] at run
      obtain ⟨rest, written, rfl⟩ := Encoder.emit_bind_eq_ok run
      exact .body (Bool.eq_false_iff.mpr notNull) typed written

/-- Elements that were written are their number, the tag that leaves theirs open, and each element
but those left out. -/
theorem Encoding.writeItems_eq_ok {write : BodyWriter} {field : String} {linked : Option TypeTag}
    {items : List Value} {start : Nat} {earlier calls : List LinkTarget} {bytes : List UInt8}
    (run : writeItems write field linked items start earlier = ⟨bytes, calls, .ok ()⟩) :
    ∃ elements, (items.filter (!·.isTransient)).forM
        (writeItem write field (linked.filter (·.isConcrete)))
        (start + (Varint.encode (UInt64.ofNat (items.filter (!·.isTransient)).length)).length + 1)
        earlier = ⟨elements, calls, .ok ()⟩ ∧
      bytes = Varint.encode (UInt64.ofNat (items.filter (!·.isTransient)).length)
        ++ ([TypeTag.any.id] ++ elements) := by
  obtain ⟨rest, written, rfl⟩ := Encoder.emit_bind_eq_ok run
  obtain ⟨elements, each, rfl⟩ := Encoder.emit_bind_eq_ok written
  exact ⟨elements, each, rfl⟩

/-- The elements of a list or set. -/
def Value.items? : Value → Option (List Value)
  | .embeddedList items | .embeddedSet items => some items
  | _ => none

/-- The tags under which elements are written one behind the other. -/
def TypeTag.isSequence (tag : TypeTag) : Bool := tag = .embeddedList || tag = .embeddedSet

theorem Value.items?_eq_some {value : Value} {items : List Value} :
    value.items? = some items ↔ value = .embeddedList items ∨ value = .embeddedSet items := by
  cases value <;> simp [items?]

theorem TypeTag.isSequence_iff {tag : TypeTag} :
    tag.isSequence = true ↔ tag = .embeddedList ∨ tag = .embeddedSet := by
  simp [isSequence]

/-- The elements as a value of the kind of the tag. -/
def TypeTag.sequence (tag : TypeTag) (items : List Value) : Value :=
  if tag = .embeddedSet then .embeddedSet items else .embeddedList items

theorem TypeTag.isContainer_of_sequence {tag : TypeTag} (sort : tag.isSequence = true) :
    tag.isContainer = true := by
  rcases isSequence_iff.mp sort with rfl | rfl <;> rfl

theorem TypeTag.naturalTag_sequence {tag : TypeTag} (sort : tag.isSequence = true)
    (items : List Value) : (tag.sequence items).naturalTag = some tag := by
  rcases isSequence_iff.mp sort with rfl | rfl <;> rfl

theorem TypeTag.items?_sequence (tag : TypeTag) (items : List Value) :
    (tag.sequence items).items? = some items := by
  unfold sequence
  split <;> rfl

/-- What a success of writing a body tells, given the writer for one level deeper: either the body
holds no further ones, or there is such a writer and it wrote a container of the tag's sort. -/
inductive WrittenBody (context : Context) (inner : Except CodecError BodyWriter) (field : String)
    (start : Nat) (earlier : List LinkTarget) (bytes : List UInt8) (calls : List LinkTarget) :
    (tag : TypeTag) → (linked : Option TypeTag) → Value → Prop where
  | scalar {tag : TypeTag} {linked : Option TypeTag} {value : Value}
      (flat : tag.isContainer = false)
      (written : Encoding.writeScalar context field tag value start earlier
        = ⟨bytes, calls, .ok ()⟩) :
      WrittenBody context inner field start earlier bytes calls tag linked value
  | embedded {write : BodyWriter} {linked : Option TypeTag} {record : Record}
      (inside : inner = .ok write)
      (written : Encoding.writeRecord context write record start earlier
        = ⟨bytes, calls, .ok ()⟩) :
      WrittenBody context inner field start earlier bytes calls .embedded linked
        (.embedded record)
  | serializable {write : BodyWriter} {linked : Option TypeTag} {className : String}
      {record : Record} (inside : inner = .ok write)
      (written : Encoding.writeRecord context write (Encoding.markedRecord className record) start
        earlier = ⟨bytes, calls, .ok ()⟩) :
      WrittenBody context inner field start earlier bytes calls .embedded linked
        (.serializable className record)
  | sequence {write : BodyWriter} {tag : TypeTag} {linked : Option TypeTag} {value : Value}
      {items : List Value} (sort : tag.isSequence = true) (elements : value.items? = some items)
      (inside : inner = .ok write)
      (written : Encoding.writeItems write field linked items start earlier
        = ⟨bytes, calls, .ok ()⟩) :
      WrittenBody context inner field start earlier bytes calls tag linked value
  | map {write : BodyWriter} {linked : Option TypeTag} {members : List (String × Value)}
      (inside : inner = .ok write)
      (written : Encoding.writeMap write field members start earlier = ⟨bytes, calls, .ok ()⟩) :
      WrittenBody context inner field start earlier bytes calls .embeddedMap linked
        (.embeddedMap members)

/-- Bodies that hold no others are written alike at every level. -/
theorem Encoding.writeBodyWith_flat {context : Context} {tag : TypeTag}
    (flat : tag.isContainer = false) (inner : Except CodecError BodyWriter) (field : String)
    (linked : Option TypeTag) (value : Value) :
    writeBodyWith context inner field tag linked value = writeScalar context field tag value := by
  cases tag with
  | embedded => cases flat
  | embeddedList => cases flat
  | embeddedSet => cases flat
  | embeddedMap => cases flat
  | _ => rfl

/-- Lists and sets are written alike, whichever of the two the tag says. -/
theorem Encoding.writeBodyWith_sequence {context : Context} {tag : TypeTag} {value : Value}
    {items : List Value} (sort : tag.isSequence = true) (elements : value.items? = some items)
    (write : BodyWriter) (field : String) (linked : Option TypeTag) :
    writeBodyWith context (.ok write) field tag linked value = writeItems write field linked items := by
  rcases TypeTag.isSequence_iff.mp sort with rfl | rfl <;>
    rcases Value.items?_eq_some.mp elements with rfl | rfl <;> rfl

/-- A body that holds no others is written alike on every level. -/
theorem Encoding.writeBody_flat {context : Context} {tag : TypeTag}
    (flat : tag.isContainer = false) (room : Nat) (field : String) (linked : Option TypeTag)
    (value : Value) :
    writeBody context room field tag linked value = writeScalar context field tag value := by
  cases room with
  | zero => exact writeBodyWith_flat flat _ field linked value
  | succ room => exact writeBodyWith_flat flat _ field linked value

/-- A body that was written, at whatever level. -/
theorem WrittenBody.of_eq_ok {context : Context} {inner : Except CodecError BodyWriter}
    {field : String} {tag : TypeTag} {linked : Option TypeTag} {value : Value} {start : Nat}
    {earlier calls : List LinkTarget} {bytes : List UInt8}
    (run : Encoding.writeBodyWith context inner field tag linked value start earlier
      = ⟨bytes, calls, .ok ()⟩) :
    WrittenBody context inner field start earlier bytes calls tag linked value := by
  cases flat : tag.isContainer with
  | false =>
    rw [Encoding.writeBodyWith_flat flat] at run
    exact .scalar flat run
  | true =>
    cases inner with
    | error e =>
      -- a container is refused for the level, and any other value for its kind
      cases tag with
      | embedded | embeddedList | embeddedSet | embeddedMap => cases value <;> cases run
      | _ => cases flat
    | ok write =>
      cases tag with
      | embedded =>
        cases value with
        | embedded record => exact .embedded rfl run
        | serializable className record => exact .serializable rfl run
        | _ => cases run
      | embeddedList | embeddedSet =>
        -- the tag decides which of the two it is, whatever the value was
        cases value with
        | embeddedList items | embeddedSet items => exact .sequence rfl rfl rfl run
        | _ => cases run
      | embeddedMap =>
        cases value with
        | embeddedMap members => exact .map rfl run
        | _ => cases run
      | _ => cases flat

/-- A container was written by a writer for one level deeper. -/
theorem WrittenBody.inner_eq_ok {context : Context} {inner : Except CodecError BodyWriter}
    {field : String} {start : Nat} {earlier calls : List LinkTarget} {bytes : List UInt8}
    {tag : TypeTag} {linked : Option TypeTag} {value : Value}
    (body : WrittenBody context inner field start earlier bytes calls tag linked value)
    (container : tag.isContainer = true) : ∃ write, inner = .ok write := by
  cases body with
  | scalar flat _ => cases flat.symm.trans container
  | embedded inside _ => exact ⟨_, inside⟩
  | serializable inside _ => exact ⟨_, inside⟩
  | sequence _ _ inside _ => exact ⟨_, inside⟩
  | map inside _ => exact ⟨_, inside⟩

end DocumentCodec
