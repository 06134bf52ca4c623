import DocumentCodec.Proofs.RoundTrip.Scalar
/-!
# Bodies with bodies inside, read back

Lists are read back element by element.  A table is read back by two walks side by side: one over
the header, entry by entry, and one over the bodies, which the slots lead to.  The walks start at
different places and move at different paces, so each induction carries both places, and the
furthest end of a body so far, which is where the walk over the bodies stands.

Everything here is given that the bodies one level deeper are read back, which is `Restores`.
-/

namespace DocumentCodec

/-! ## Lists and sets

A list may be written as a set, and a set as a list: of the value only the elements matter, and what
comes back is of the kind that the tag says. -/

section Sequence

variable {context : Context} {tag : TypeTag} {value : Value} {items : List Value}

theorem Decoding.readBodyWith_sequence (sort : tag.isSequence = true) (input : List UInt8)
    (read : BodyReader) : readBodyWith context input (.ok read) tag
      = readItems input read >>= fun made => pure (tag.sequence made) := by
  rcases TypeTag.isSequence_iff.mp sort with rfl | rfl <;> rfl

/-- Without a level for its elements a list or set is refused. -/
theorem Decoding.readBodyWith_sequence_refused (sort : tag.isSequence = true) (input : List UInt8)
    (e : CodecError) : readBodyWith context input (.error e) tag = throw (.codec e) := by
  rcases TypeTag.isSequence_iff.mp sort with rfl | rfl <;> rfl

/-- A list and a set are recalled as their elements are. -/
theorem Recall.bodyWith_sequence (sort : tag.isSequence = true)
    (elements : value.items? = some items) (remember : BodyRecall) (linked : Option TypeTag) :
    bodyWith context (some remember) tag linked value
      = Recall.items remember linked items >>= fun made => pure (tag.sequence made) := by
  rcases TypeTag.isSequence_iff.mp sort with rfl | rfl <;>
    rcases Value.items?_eq_some.mp elements with rfl | rfl <;> rfl

/-- Where no level is left neither is recalled. -/
theorem Recall.bodyWith_sequence_refused (sort : tag.isSequence = true)
    (elements : value.items? = some items) (linked : Option TypeTag) :
    bodyWith context none tag linked value = failure := by
  rcases TypeTag.isSequence_iff.mp sort with rfl | rfl <;>
    rcases Value.items?_eq_some.mp elements with rfl | rfl <;> rfl

theorem Value.normal_sequence (elements : value.items? = some items) (linked : Option TypeTag) :
    value.normal context tag linked
      = normalItems context linked items >>= fun made => pure (tag.sequence made) := by
  rcases Value.items?_eq_some.mp elements with rfl | rfl <;> rfl

theorem Value.text?_of_items? (elements : value.items? = some items) : value.text? = none := by
  rcases Value.items?_eq_some.mp elements with rfl | rfl <;> rfl

theorem Value.written_sequence (elements : value.items? = some items) (linked : Option TypeTag) :
    value.written context tag linked = (tag, value) :: writtenItems context linked items := by
  rcases Value.items?_eq_some.mp elements with rfl | rfl <;> rfl

end Sequence

/-! ## Level by level

What is needed of one level deeper: that a body written there is read back, wherever it stands and
whatever else is there. -/

/-- What the writer wrote the reader reads back, to what is recalled of the value. -/
structure Restores (context : Context) (exact : Prop) (input : List UInt8) (write : BodyWriter)
    (read : BodyReader) (remember : BodyRecall) : Prop where
  back : ∀ {field : String} {tag : TypeTag} {linked : Option TypeTag} {value : Value} {start : Nat}
    {earlier calls : List LinkTarget} {bytes : List UInt8},
    write field tag linked value start earlier = ⟨bytes, calls, .ok ()⟩ →
    (∀ w ∈ value.written context tag linked, Readable w) →
    Recalls exact context.RefusesWith input (read tag) start bytes (remember tag linked value)
      earlier
      (earlier ++ calls)

namespace Recalls

variable {context : Context} {exact : Prop} {said : Failure → Prop} {input : List UInt8}
  {write : BodyWriter} {read : BodyReader} {remember : BodyRecall}

/-! ## Lists and sets -/

/-- The tag of an element is never the one that says that it is absent. -/
theorem itemTag_ne_any {linked : Option TypeTag} {item : Value} {chosen : TypeTag}
    (choice : itemTag linked item = .ok chosen) : chosen ≠ .any := by
  rintro rfl
  rw [itemTag] at choice
  cases declared : linked.filter (·.isConcrete) with
  | none =>
    rw [declared] at choice
    -- the tag of a kind
    cases natural : item.naturalTag with
    | none =>
      rw [natural] at choice
      cases choice
    | some tag =>
      rw [natural] at choice
      cases choice
      exact item.naturalTag_ne_any natural
  | some tag =>
    rw [declared] at choice
    cases choice
    -- a declared one, which is concrete, and the tag for anything is not
    have concrete := (Option.filter_eq_some_iff.mp declared).2
    cases concrete

/-- A body behind its tag is an element that has a tag of its own. -/
theorem behindTag {tag : TypeTag} (declared : tag ≠ .any) {start : Nat}
    {earlier last : List LinkTarget} {bytes : List UInt8} {x : Recalling Value}
    (back : Recalls exact said input (read tag) (start + 1) bytes x earlier last) :
    Recalls exact said input (Decoding.readItem input read .any) start (tag.id :: bytes) x earlier
      last := by
  refine fun exactly => (ReadsBack.tag tag).bind fun _ same => ?_
  subst same
  rw [if_neg declared]
  exact back exactly

/-- **An element comes back**: null as null, under a tag that stands for it, and anything else under
its own. -/
theorem item (restores : Restores context exact input write read remember) {field : String}
    {linked : Option TypeTag} {item : Value} {start : Nat} {earlier calls : List LinkTarget}
    {bytes : List UInt8}
    (readable : ∀ w ∈ writtenItem context linked item, Readable w)
    (run : Encoding.writeItem write field (linked.filter (·.isConcrete)) item start earlier
      = ⟨bytes, calls, .ok ()⟩) :
    0 < bytes.length ∧
      Recalls exact context.RefusesWith input (Decoding.readItem input read .any) start bytes
        (Recall.item remember linked item) earlier (earlier ++ calls) := by
  rw [writtenItem] at readable
  cases WrittenItem.of_eq_ok run with
  | null null =>
    refine ⟨Nat.one_pos, ?_⟩
    rw [Recall.item, inSlot_of_null null, List.append_nil]
    -- null is the tag alone, under which no body is read
    refine of_back ((ReadsBack.tag .any).check fun _ same => ?_)
    subst same
    rw [if_pos rfl]
    exact .pure rfl
  | body notNull typed written =>
    have choice := itemTag_eq_ok typed
    rw [inSlot_of_ok notNull choice] at readable
    rw [Recall.item, inSlot_of_ok notNull choice]
    exact ⟨Nat.succ_pos _, behindTag (itemTag_ne_any choice) (restores.back written readable)⟩

/-- Elements come back in order from behind their number and the tag that is declared for them all;
there are no more of them than bytes, so their number is read as it was written. -/
theorem elements (small : input.length < 2 ^ 63) {declared : TypeTag}
    (stored : declared ≠ .transient) {write : Value → Encoder Unit}
    {remember : Value → Recalling Value} (items : List Value) {start : Nat}
    {earlier calls : List LinkTarget} {bytes : List UInt8}
    (each : ∀ item ∈ items, ∀ {start earlier bytes calls},
      write item start earlier = ⟨bytes, calls, .ok ()⟩ → 0 < bytes.length ∧
        Recalls exact said input (Decoding.readItem input read declared) start bytes (remember item)
          earlier (earlier ++ calls))
    (run : items.forM write (start + (Varint.encode (UInt64.ofNat items.length)).length + 1) earlier
      = ⟨bytes, calls, .ok ()⟩) :
    Recalls exact said input (Decoding.readItems input read) start
      (Varint.encode (UInt64.ofNat items.length) ++ ([declared.id] ++ bytes))
      (Recall.length items.length >>= fun _ => items.mapM remember) earlier (earlier ++ calls) := by
  obtain ⟨fewer, backs⟩ := times items each run
  refine of_holds fun holds => ?_
  have inside := holds.right.right.bound
  refine (length (by omega)).bind fun count recalled => ?_
  obtain ⟨-, rfl, -⟩ := Recall.length_eq_some.mp recalled
  refine fun exactly => .offset_bind ((ReadsBack.tag declared).bind fun _ same => ?_)
  subst same
  rw [if_neg stored]
  exact backs exactly

/-- The elements of a list or set come back in order, those left out apart. -/
theorem items (restores : Restores context exact input write read remember)
    (small : input.length < 2 ^ 63) {field : String} {linked : Option TypeTag} {items : List Value}
    {start : Nat} {earlier calls : List LinkTarget} {bytes : List UInt8}
    (readable : ∀ w ∈ writtenItems context linked items, Readable w)
    (run : Encoding.writeItems write field linked items start earlier = ⟨bytes, calls, .ok ()⟩) :
    Recalls exact context.RefusesWith input (Decoding.readItems input read) start bytes
      (Recall.items remember linked items) earlier (earlier ++ calls) := by
  obtain ⟨bodies, each, rfl⟩ := Encoding.writeItems_eq_ok run
  rw [writtenItems_eq] at readable
  refine elements small (by decide) _ (fun element there _ _ _ _ => ?_) each
  exact item restores fun w inside => readable w (List.mem_flatMap.mpr ⟨element, there, inside⟩)

end Recalls

/-! ## Slots

A slot is read to its pointer and its tag, the body is read at the place that the pointer says, and
the cursor is put back.  So a slot ends where it does whatever its body was, and nothing that is
read inside can tell. -/

namespace Decoding

variable {input : List UInt8} {inner : BodyReader} {pinned : Option TypeTag} {slot visited : Nat}

/-- The bytes of a slot are its word and, unless the type is pinned, its tag. -/
theorem run_slotBytes {α : Type} (tag : TypeTag) (word : UInt32) (bytes : List UInt8)
    {f : UInt32 → TypeTag → Decoder α}
    (pins : pinned = none ∧ bytes = [tag.id] ∨ pinned = some tag ∧ bytes = [])
    (holds : Holds input slot (BigEndian.encode32 word ++ bytes))
    (room : visited + Slot.size pinned.isSome ≤ input.length) :
    (Cursor.word32 input >>= fun word => readSlotTag input pinned >>= fun tag => f word tag)
        ⟨slot, visited⟩
      = f word tag ⟨slot + Slot.size pinned.isSome, visited + Slot.size pinned.isSome⟩ := by
  have four : (BigEndian.encode32 word).length = 4 := BigEndian.length_encode 4 _
  have front : ReadsBack True Failure.Unsaid input _ slot _ _ := ReadsBack.word32 word
  have first := front holds.left visited
  have second := holds.right
  rw [four] at first second
  rcases pins with ⟨rfl, rfl⟩ | ⟨rfl, rfl⟩
  · -- the tag stands behind the pointer
    have open' : visited + 5 ≤ input.length := room
    have back : ReadsBack True Failure.Unsaid input _ (slot + 4) _ _ := ReadsBack.tag tag
    obtain ⟨_, run, rfl⟩ := (first (by omega)).of_exact
    obtain ⟨_, run', rfl⟩ := (back second (visited + 4) open').of_exact
    rw [run_bind_of_ok run]
    exact run_bind_of_ok run'
  · -- the tag is pinned, and nothing stands there
    have closed : visited + 4 ≤ input.length := room
    obtain ⟨_, run, rfl⟩ := (first closed).of_exact
    rw [run_bind_of_ok run]
    rfl

/-- A slot that is zero leads nowhere, whatever the tag beside it. -/
theorem run_slot_null (holds : Holds input slot (Slot.encode pinned.isSome none))
    (room : visited + Slot.size pinned.isSome ≤ input.length) :
    readSlot input inner pinned ⟨slot, visited⟩
      = .ok none ⟨slot + Slot.size pinned.isSome, visited + Slot.size pinned.isSome⟩ := by
  rw [readSlot, run_bind_of_ok (Cursor.run_offset _)]
  cases pinned with
  | none => exact run_slotBytes .boolean 0 [TypeTag.boolean.id] (Or.inl ⟨rfl, rfl⟩) holds room
  | some tag => exact run_slotBytes tag 0 [] (Or.inr ⟨rfl, rfl⟩) holds room

/-- A slot that was filled in leads to where the body is, under its tag. -/
theorem run_slot_body {tag : TypeTag} {place : Nat} (typed : pinned = none ∨ pinned = some tag)
    (positive : 0 < place) (fits : place < 2 ^ 31)
    (holds : Holds input slot (Slot.encode pinned.isSome (some ⟨place, tag⟩)))
    (room : visited + Slot.size pinned.isSome ≤ input.length) :
    readSlot input inner pinned ⟨slot, visited⟩
      = (readAt input inner tag place >>= fun placed => pure (some placed) : Decoder _)
        ⟨slot + Slot.size pinned.isSome, visited + Slot.size pinned.isSome⟩ := by
  rw [Slot.encode, Slot.pointerSize, BigEndian.encode_ofNat fits] at holds
  have pins : pinned = none ∧ (if pinned.isSome then [] else [tag.id]) = [tag.id] ∨
      pinned = some tag ∧ (if pinned.isSome then [] else [tag.id]) = [] := by
    rcases typed with rfl | rfl
    · exact Or.inl ⟨rfl, rfl⟩
    · exact Or.inr ⟨rfl, rfl⟩
  rw [readSlot, run_bind_of_ok (Cursor.run_offset _), run_slotBytes tag _ _ pins holds room]
  -- the pointer is neither zero nor negative
  have pointer := BigEndian.toInt_ofNat fits
  have notZero : (UInt32.ofNat place).toInt32 ≠ Slot.nullPointer := by
    intro zero
    rw [zero, show Slot.nullPointer.toInt = 0 from rfl] at pointer
    omega
  rw [if_neg notZero, if_neg (by omega), pointer, Int.toNat_natCast]

end Decoding

/-- What a slot is read back as: nothing for a null value, and else the body that its pointer leads
to, which ends where it was written to end. -/
inductive Landed (value : Value) (tag : Except Unsupported TypeTag) (place : Nat)
    (bytes : List UInt8) (calls : List LinkTarget) (post : TypeTag → Value → Prop) :
    Option Decoding.Placed → Prop where
  | nothing (isNull : value.isNull = true) (noBytes : bytes = []) (noCalls : calls = []) :
      Landed value tag place bytes calls post none
  | body {chosen : TypeTag} {made : Value} (notNull : value.isNull = false)
      (choice : tag = .ok chosen) (fact : post chosen made) :
      Landed value tag place bytes calls post (some ⟨chosen, made, place + bytes.length⟩)

/-- The furthest end of a body so far goes on to the end of the one that a slot led to. -/
theorem Landed.furthest {value : Value} {tag : Except Unsupported TypeTag} {place : Nat}
    {bytes : List UInt8} {calls : List LinkTarget} {post : TypeTag → Value → Prop}
    {placed : Option Decoding.Placed} (landed : Landed value tag place bytes calls post placed)
    {header last : Nat} (before : max header last = place) :
    max header (max last (Decoding.Placed.endOf placed)) = place + bytes.length := by
  cases landed with
  | nothing _ noBytes _ =>
    show max header (max last 0) = _
    rw [noBytes, List.length_nil]
    omega
  | body _ _ _ =>
    show max header (max last (place + bytes.length)) = _
    omega

/-- What a slot is read back as is recalled for it. -/
theorem Landed.recalled {value : Value} {tag : Except Unsupported TypeTag} {place : Nat}
    {bytes : List UInt8} {earlier calls : List LinkTarget} {remember : TypeTag → Recalling Value}
    {placed : Option Decoding.Placed}
    (landed : Landed value tag place bytes calls
      (fun chosen made => remember chosen earlier = some (made, earlier ++ calls)) placed) :
    Recall.slot remember value tag earlier
      = some (placed.map fun placed => (placed.tag, placed.value), earlier ++ calls) := by
  rw [Recall.slot]
  cases landed with
  | nothing isNull noBytes noCalls =>
    rw [inSlot_of_null isNull, noCalls, List.append_nil]
    rfl
  | body notNull choice fact =>
    rw [inSlot_of_ok notNull choice]
    exact Recalling.run_pure_bind_map fact

namespace Ends

variable {exact : Prop} {said : Failure → Prop} {input : List UInt8} {inner : BodyReader}

/-- The body at `place` is read from wherever the cursor is, and the cursor is put back. -/
theorem readAt {tag : TypeTag} {place : Nat} {bytes : List UInt8} {post : Value → Prop}
    (back : ReadsBack exact said input (inner tag) place bytes post)
    (holds : Holds input place bytes)
    {resume visited : Nat} (inside : resume ≤ input.length)
    (room : visited + bytes.length ≤ input.length) :
    Ends exact said ⟨resume, visited + bytes.length⟩
      (fun placed => ∃ made, placed = ⟨tag, made, place + bytes.length⟩ ∧ post made)
      (Decoding.readAt input inner tag place ⟨resume, visited⟩) := by
  have reached := holds.bound
  rw [Decoding.readAt, run_bind_of_ok (Cursor.run_offset _),
    run_bind_of_ok (Cursor.run_seek input (by omega))]
  refine (back holds visited room).bind fun made fact => ?_
  rw [run_bind_of_ok (Cursor.run_offset _), run_bind_of_ok (Cursor.run_seek input inside)]
  exact ⟨rfl, made, rfl, fact⟩

/-- A slot that was filled in leads to the body that was written for it. -/
theorem slot (pinned : Option TypeTag) (post : TypeTag → Value → Prop) {value : Value}
    {tag : Except Unsupported TypeTag} {write : TypeTag → Encoder Unit} {start place : Nat}
    {earlier calls : List LinkTarget} {filling : Option Filling} {bytes : List UInt8}
    (body : SlotBody value tag write place earlier filling bytes calls)
    (typed : ∀ chosen, tag = .ok chosen → pinned = none ∨ pinned = some chosen)
    (back : ∀ chosen, value.isNull = false → tag = .ok chosen →
      write chosen place earlier = ⟨bytes, calls, .ok ()⟩ →
      ReadsBack exact said input (inner chosen) place bytes (post chosen))
    (positive : 0 < place) (holds : Holds input start (Slot.encode pinned.isSome filling))
    (there : Holds input place bytes) {visited : Nat}
    (room : visited + Slot.size pinned.isSome + bytes.length ≤ input.length) :
    Ends exact said
      ⟨start + Slot.size pinned.isSome, visited + Slot.size pinned.isSome + bytes.length⟩
      (Landed value tag place bytes calls post)
      (Decoding.readSlot input inner pinned ⟨start, visited⟩) := by
  have inside : start + Slot.size pinned.isSome ≤ input.length := by
    have bound := holds.bound
    rw [Slot.length_encode] at bound
    exact bound
  cases body with
  | null isNull =>
    rw [Decoding.run_slot_null holds room]
    exact ⟨rfl, .nothing isNull rfl rfl⟩
  | @body chosen bytes calls notNull choice written reached =>
    -- a place that a slot can point at is not read as negative
    have fits : place < 2 ^ 31 := by
      rw [Slot.maxPointer] at reached
      omega
    rw [Decoding.run_slot_body (typed chosen choice) positive fits holds (by omega)]
    refine (readAt (back chosen notNull choice written) there inside room).bind ?_
    rintro placed ⟨made, rfl, fact⟩
    exact ⟨rfl, .body notNull choice fact⟩

/-- What a slot leads to is what is recalled for it. -/
theorem recalledSlot (pinned : Option TypeTag) (remember : TypeTag → Recalling Value) {value : Value}
    {tag : Except Unsupported TypeTag} {write : TypeTag → Encoder Unit} {start place : Nat}
    {earlier calls : List LinkTarget} {filling : Option Filling} {bytes : List UInt8}
    (body : SlotBody value tag write place earlier filling bytes calls)
    (typed : ∀ chosen, tag = .ok chosen → pinned = none ∨ pinned = some chosen)
    (back : ∀ chosen, value.isNull = false → tag = .ok chosen →
      write chosen place earlier = ⟨bytes, calls, .ok ()⟩ →
      Recalls exact said input (inner chosen) place bytes (remember chosen) earlier
        (earlier ++ calls))
    (exactly : exact → (Recall.slot remember value tag earlier).isSome = true)
    (positive : 0 < place) (holds : Holds input start (Slot.encode pinned.isSome filling))
    (there : Holds input place bytes) {visited : Nat}
    (room : visited + Slot.size pinned.isSome + bytes.length ≤ input.length) :
    Ends exact said
      ⟨start + Slot.size pinned.isSome, visited + Slot.size pinned.isSome + bytes.length⟩
      (Landed value tag place bytes calls fun chosen made =>
        remember chosen earlier = some (made, earlier ++ calls))
      (Decoding.readSlot input inner pinned ⟨start, visited⟩) := by
  refine slot pinned _ body typed (fun chosen notNull choice written => ?_) positive holds there room
  refine back chosen notNull choice written fun whole => ?_
  have some := exactly whole
  rw [Recall.slot, inSlot_of_ok notNull choice] at some
  exact Recalling.isSome_left some

/-- The cursor ends behind the bodies, be there any or none. -/
theorem finish {last header last' visited : Nat} (before : max header last = last')
    (inside : last' ≤ input.length) :
    Decoding.finish input last ⟨header, visited⟩ = .ok () ⟨last', visited⟩ := by
  rw [Decoding.finish, run_bind_of_ok (Cursor.run_offset _)]
  split
  · next short =>
    have same : last = last' := by
      have short : header < last := short
      omega
    rw [Cursor.run_seek input (by omega), same]
  · next long =>
    have same : header = last' := by
      have long : ¬header < last := long
      omega
    rw [same]
    rfl

end Ends

/-! ## Maps

The members are read in the order of their slots, which is the order of their bodies.  So the walk
over the bodies moves on as that over the slots does. -/

/-- There are no more entries than bytes in a header. -/
theorem Entry.length_le_encodeAll (entries : List Entry) (fillings : List (Option Filling)) :
    entries.length ≤ (Entry.encodeAll entries fillings).length := by
  rw [Entry.length_encodeAll]
  induction entries with
  | nil => exact Nat.le_refl 0
  | cons entry rest ih =>
    have some : 4 ≤ Slot.size entry.pinned := by cases entry.pinned <;> decide
    rw [List.length_cons, Entry.sizeAll, Entry.size]
    omega

/-- What a member of a map was read as, with its slot in place of its value. -/
def valued (member : String × Option Decoding.Placed) : String × Value :=
  (member.1, Decoding.Placed.valueOf member.2)

/-- The furthest end of a body among members, and `last`. -/
def furthest (last : Nat) (members : List (String × Option Decoding.Placed)) : Nat :=
  members.foldl (fun last member => max last (Decoding.Placed.endOf member.2)) last

/-- The value behind a slot, with or without its tag. -/
theorem valueOf_eq (placed : Option Decoding.Placed) :
    ((placed.map fun placed => (placed.tag, placed.value)).map (·.2)).getD .null
      = Decoding.Placed.valueOf placed := by
  cases placed <;> rfl

namespace Restores

variable {context : Context} {exact : Prop} {input : List UInt8} {write : BodyWriter}
  {read : BodyReader} {remember : BodyRecall}
  (restores : Restores context exact input write read remember) (small : input.length < 2 ^ 63)
include restores small

/-- A member of a map comes back from its entry and its body. -/
theorem member {field : String} {member : String × Value} {start place : Nat} (visited : Nat)
    {earlier calls : List LinkTarget} {filling : Option Filling} {bytes : List UInt8}
    (readable : ∀ w ∈ writtenMember context member, Readable w)
    (body : SlotBody member.2 (memberTag member.2) (fun tag => write field tag none member.2) place
      earlier filling bytes calls)
    (exactly : exact → (Recall.member remember member earlier).isSome = true)
    (positive : 0 < place)
    (holds : Holds input start (Encoding.keyBytes member.1 ++ Slot.encode false filling))
    (there : Holds input place bytes)
    (room : visited + ((Encoding.keyBytes member.1).length + Slot.size false) + bytes.length
      ≤ input.length) :
    Ends exact context.RefusesWith ⟨start + ((Encoding.keyBytes member.1).length + Slot.size false),
        visited + ((Encoding.keyBytes member.1).length + Slot.size false) + bytes.length⟩
      (fun made =>
        (∀ header last, max header last = place →
          max header (max last (Decoding.Placed.endOf made.2)) = place + bytes.length) ∧
        Recall.member remember member earlier = some (valued made, earlier ++ calls))
      (Decoding.readMember input read ⟨start, visited⟩) := by
  -- the key, and then the slot with the body that it points at
  refine (Recalls.mapKey small member.1 (fun whole => Recalling.isSome_left (exactly whole))
    holds.left visited (by omega)).bind fun key recalled => ?_
  rw [Recall.member, Recalling.run_bind recalled] at exactly
  rw [Recall.member, Recalling.run_bind recalled, ← Nat.add_assoc, ← Nat.add_assoc]
  refine (Ends.recalledSlot none (fun tag => remember tag none member.2) body (fun _ _ => Or.inl rfl)
    (fun chosen notNull choice written => ?_) (fun whole => Recalling.isSome_left (exactly whole))
    positive holds.right there ?_).bind fun placed landed => ?_
  · refine restores.back written fun w inside => readable w ?_
    rw [writtenMember, inSlot_of_ok notNull choice]
    exact inside
  · show visited + _ + Slot.size false + _ ≤ _
    omega
  · refine ⟨rfl, fun header last => landed.furthest, ?_⟩
    rw [Recalling.run_bind landed.recalled, valueOf_eq]
    rfl

/-- The members of a map come back in order.  The induction is on the members; `start` and `place`
are where their entries and their bodies begin. -/
theorem members {field : String} : ∀ (kept : List (String × Value))
    {start place : Nat} (visited : Nat) {earlier calls : List LinkTarget}
    {fillings : List (Option Filling)} {bodies : List UInt8},
    (∀ member ∈ kept, ∀ w ∈ writtenMember context member, Readable w) →
    Bodies.write ((kept.map (Encoding.mapEntry write field)).map (·.body)) place earlier
      = ⟨fillings, bodies, calls, .ok ()⟩ →
    (exact → (kept.mapM (Recall.member remember) earlier).isSome = true) →
    0 < place →
    Holds input start (Entry.encodeAll (kept.map (Encoding.mapEntry write field)) fillings) →
    Holds input place bodies →
    visited + (Entry.encodeAll (kept.map (Encoding.mapEntry write field)) fillings).length
      + bodies.length ≤ input.length →
    Ends exact context.RefusesWith
      ⟨start + (Entry.encodeAll (kept.map (Encoding.mapEntry write field)) fillings).length,
        visited + (Entry.encodeAll (kept.map (Encoding.mapEntry write field)) fillings).length
          + bodies.length⟩
      (fun made =>
        (∀ header last, max header last = place →
          max header (furthest last made) = place + bodies.length) ∧
        kept.mapM (Recall.member remember) earlier = some (made.map valued, earlier ++ calls))
      (Decoding.times (Decoding.readMember input read) kept.length ⟨start, visited⟩) := by
  intro kept
  induction kept with
  | nil =>
    intro start place visited earlier calls fillings bodies _ run _ _ _ _ _
    cases run
    refine ⟨rfl, fun header last before => before, ?_⟩
    rw [List.append_nil]
    rfl
  | cons member rest ih =>
    intro start place visited earlier calls fillings bodies readable run exactly positive holds
      there room
    rw [List.map_cons, List.map_cons, Encoding.mapEntry] at run
    obtain ⟨filling, fillings₂, bytes₁, bytes₂, calls₁, calls₂, body, later, rfl, rfl, rfl⟩ :=
      Bodies.write_cons_eq_ok run
    have shape : Entry.encodeAll ((member :: rest).map (Encoding.mapEntry write field))
        (filling :: fillings₂) = Encoding.keyBytes member.1 ++ Slot.encode false filling
          ++ Entry.encodeAll (rest.map (Encoding.mapEntry write field)) fillings₂ := rfl
    rw [shape] at holds room ⊢
    have holds₂ := holds.right
    simp only [List.length_append, Slot.length_encode] at room holds₂ ⊢
    -- the first member's entry and body, then the walk goes on behind both
    rw [List.mapM_cons] at exactly
    have first := restores.member small visited (readable member List.mem_cons_self)
      body (fun whole => Recalling.isSome_left (exactly whole)) positive holds.left there.left
      (by omega)
    refine first.bind fun made fact => ?_
    rw [Recalling.run_bind fact.2] at exactly
    have others := ih
      (visited + ((Encoding.keyBytes member.1).length + Slot.size false) + bytes₁.length)
      (fun other there => readable other (List.mem_cons_of_mem _ there)) later
      (fun whole => Recalling.isSome_left (exactly whole)) (by omega) holds₂ there.right (by omega)
    refine Ends.bind others fun mades facts => ⟨?_, fun header last before => ?_, ?_⟩
    · rw [Cursor.mk.injEq]
      omega
    · rw [← Nat.add_assoc]
      exact facts.1 header _ (fact.1 header last before)
    · rw [← List.append_assoc]
      exact Recalling.run_mapM_cons.mpr ⟨_, _, _, fact.2, facts.2, rfl⟩

/-- A map comes back member by member; its keys ascend, so none fall together. -/
theorem map {field : String} {members : List (String × Value)} {start : Nat}
    {earlier calls : List LinkTarget} {bytes : List UInt8}
    (ordered : OrderedMap.Ascending members)
    (readable : ∀ w ∈ writtenMembers context members, Readable w)
    (run : Encoding.writeMap write field members start earlier = ⟨bytes, calls, .ok ()⟩) :
    Recalls exact context.RefusesWith input (Decoding.readMap input read) start bytes
      (Recall.members remember members)
      earlier (earlier ++ calls) := by
  rw [Encoding.writeMap] at run
  rw [writtenMembers_eq] at readable
  rw [Recall.members]
  have ordered : OrderedMap.Ascending (members.filter (!·.2.isTransient)) := ordered.filter _
  generalize members.filter (!·.2.isTransient) = kept at run readable ordered ⊢
  obtain ⟨fillings, bodies, written, rfl⟩ := writeTable_eq_ok run
  rw [List.append_nil]
  rw [List.length_nil, Nat.add_zero] at written
  have fewer := Entry.length_le_encodeAll (kept.map (Encoding.mapEntry write field)) fillings
  rw [List.length_map] at fewer
  intro exactly holds visited room
  have header := holds.left.right
  have place := holds.right
  have inside := holds.bound
  have someByte := Varint.length_encode_pos (UInt64.ofNat kept.length)
  simp only [List.length_append] at place room inside ⊢
  refine (Recalls.length (by omega) (fun whole => Recalling.isSome_left (exactly whole))
    holds.left.left visited (by omega)).bind fun count recalled => ?_
  rw [Recalling.run_bind recalled] at exactly
  obtain ⟨-, rfl, -⟩ := Recall.length_eq_some.mp recalled
  refine (restores.members small kept
    (visited + (Varint.encode (UInt64.ofNat kept.length)).length)
    (fun member there w inside => readable w (List.mem_flatMap.mpr ⟨member, there, inside⟩)) written
    exactly (by omega) header place (by omega)).bind fun mades facts => ?_
  -- the walk over the header ends before the bodies do, or where they would begin
  have finished := facts.1 (start + ((Varint.encode (UInt64.ofNat kept.length)).length
    + (Entry.encodeAll (kept.map (Encoding.mapEntry write field)) fillings).length)) 0
    (Nat.max_zero _)
  rw [← Nat.add_assoc] at finished
  show Ends _ _ _ _ ((Decoding.finish input (furthest 0 mades) >>= fun _ =>
    pure (OrderedMap.ofList (mades.map valued))) _)
  rw [run_bind_of_ok (Ends.finish finished (by omega))]
  refine ⟨by rw [Cursor.mk.injEq]; omega, ?_⟩
  rw [Recalling.run_bind recalled, facts.2, OrderedMap.ofList_eq_self]
  exact Recalling.ascending_mapM Recall.member_key ordered facts.2

end Restores
end DocumentCodec
