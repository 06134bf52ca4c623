import DocumentCodec.Proofs.RoundTrip.Container
import DocumentCodec.Proofs.Schema
/-!
# Records read back

The header of a record names its fields, by name or by property id, and each heading leads back to
the field it was written for: a name because it is not empty, for the empty one would end the
header, and an id because the schema gives back the property that it was asked for.

The fields have distinct names, so none of them is taken for one that is there already.
-/

namespace DocumentCodec

namespace Encoding

variable (context : Context) (write : BodyWriter) (className : Option String) (field : Field)

variable {context} {className} in
/-- A field is bound only where there is a schema and a class name. -/
theorem property?_eq_some {name : String} {property : Property}
    (known : property? context className name = some property) :
    ∃ schema className', context.schema = some schema ∧
      schema.ofField? className' name = some property := by
  unfold property? at known
  split at known
  · next schema className' declared =>
    exact ⟨schema, className', declared, known⟩
  · cases known

/-- The slot of a field is without a tag just if the schema prescribes one. -/
theorem pinned_fieldEntry : (fieldEntry context write className field).pinned
    = (pinnedTag context className field.name).isSome := by
  rw [fieldEntry, pinnedTag]
  cases property? context className field.name with
  | none => rfl
  | some property => rfl

/-- The body of a field is written the same way whether its heading is a name or an id. -/
theorem body_fieldEntry : (fieldEntry context write className field).body
    = writeSlotBody field.name field.value (fieldTag field (pinnedTag context className field.name))
        fun tag => write field.name tag (linkedTag context className field.name) field.value := by
  rw [fieldEntry, pinnedTag, linkedTag]
  cases property? context className field.name with
  | none => rfl
  | some property => rfl

/-- A pinned field is written under the type it is pinned to. -/
theorem fieldTag_pinned {chosen : TypeTag} {declared : Option TypeTag}
    (choice : fieldTag field declared = .ok chosen) : declared = none ∨ declared = some chosen := by
  unfold fieldTag at choice
  split at choice
  · split at choice
    · -- a pin of the field's own has to be the declared type
      next same =>
      cases choice
      exact Or.inr (congrArg some same.symm)
    · cases choice
  · exact Or.inl rfl
  · cases choice
    exact Or.inr rfl
  · exact Or.inl rfl

end Encoding

/-! ## Headings

Reading a heading gives the field it was written for, because a name is not empty and an id leads
back to its property. -/

namespace ReadsBack

variable {context : Context} {exact : Prop} {said : Failure → Prop} {input : List UInt8}

/-- An id that is not negative comes back as the property that the schema has under it. -/
theorem naturalId {property : Property} (natural : 0 ≤ property.id.toInt)
    (found : Decoding.property? context property.id = some property) {start : Nat} :
    ReadsBack exact said input (Decoding.readHeading context input) start
      (Varint.encodeSigned (Int64.ofInt (-property.id.toInt - 1)))
      (· = some ⟨property.name, property.concreteType?⟩) := by
  have high := Int32.toInt_lt property.id
  have word : (Int64.ofInt (-property.id.toInt - 1)).toInt = -property.id.toInt - 1 :=
    Signed.toInt_ofInt ⟨by omega, by omega⟩
  have fits : Signed.Fits32 (Int64.ofInt (-property.id.toInt - 1)).toInt := by
    rw [word]
    omega
  have lead : (Int64.ofInt (-property.id.toInt - 1)).toInt32.toInt = -property.id.toInt - 1 := by
    rw [Int64.toInt_toInt32, word]
    exact Int.bmod_eq_of_le (by omega) (by omega)
  -- the id is kept as `-id - 1`, which is negative for every id that is not
  have back : Int32.ofInt (-(-property.id.toInt - 1) - 1) = property.id := by
    rw [show -(-property.id.toInt - 1) - 1 = property.id.toInt by omega]
    exact Int32.ofInt_toInt _
  refine offset_bind ((varint32 fits).check fun _ same => ?_)
  subst same
  dsimp only
  rw [lead, if_neg (by omega), if_neg (by omega), back, found]
  exact pure rfl

/-- A property id comes back as the property. -/
theorem propertyId (coherent : ∀ schema, context.schema = some schema → schema.IsCoherent)
    {className : Option String} {field : String} {property : Property}
    (known : Encoding.property? context className field = some property) {start : Nat} :
    ReadsBack exact said input (Decoding.readHeading context input) start
      (Varint.encodeSigned (Int64.ofInt (-property.id.toInt - 1)))
      (· = some ⟨field, property.concreteType?⟩) := by
  obtain ⟨schema, className, declared, known⟩ := Encoding.property?_eq_some known
  obtain ⟨rfl, natural, again⟩ := (coherent schema declared).again className field property known
  refine naturalId natural ?_
  rw [Decoding.property?, declared]
  exact again

/-- The end of a header is no heading. -/
theorem headerEnd {start : Nat} :
    ReadsBack exact said input (Decoding.readHeading context input) start
    (Varint.encode Encoding.headerEnd) (· = none) := by
  refine offset_bind ((number (n := 0) (by decide)).check fun lead same => ?_)
  dsimp only
  rw [same, if_pos (show ((0 : Nat) : Int) = 0 from rfl)]
  exact pure rfl

end ReadsBack

namespace Recalls

variable {context : Context} {exact : Prop} {said : Failure → Prop} {input : List UInt8}
  (small : input.length < 2 ^ 63)
include small

/-- A name comes back, for it is not empty. -/
theorem name {name : String} (someName : name ≠ "") {start : Nat} {earlier : List LinkTarget} :
    Recalls exact said input (Decoding.readHeading context input) start
      (Varint.encode (UInt64.ofNat (Utf8.encode name).length) ++ Utf8.encode name)
      (Recall.length (Utf8.encode name).length >>= fun _ => Pure.pure (some ⟨name, none⟩))
      earlier earlier := by
  refine of_holds fun holds => ?_
  have inside := holds.right.bound
  have positive : 0 < (Utf8.encode name).length := by
    refine List.length_pos_iff.mpr fun none => someName (Utf8.encode_eq_nil none)
  intro exactly
  by_cases narrow : (Utf8.encode name).length < 2 ^ 31
  · refine .offset_bind ((ReadsBack.number narrow).bind fun lead same => ?_)
    dsimp only
    rw [same, if_neg (by omega), if_pos (by omega), Int.toNat_natCast]
    refine (ReadsBack.take rfl).check fun _ same => ?_
    subst same
    rw [Utf8.decode_encode]
    refine .pure ?_
    rw [Recalling.run_bind (Recall.length_eq_some.mpr ⟨narrow, rfl, rfl⟩)]
    rfl
  · -- a name that is too long fails with its length
    have inexact : ¬exact := fun whole => by
      have some := Recalling.isSome_left (exactly whole)
      rw [Recall.length, if_neg narrow] at some
      cases some
    have refused : ReadsBack exact said input _ start _ _ :=
      ReadsBack.wide (Nat.le_of_not_lt narrow) (by omega) inexact
    exact .offset_bind (refused.bind fun _ none => none.elim)

/-- The heading of a field leads back to it. -/
theorem heading (coherent : ∀ schema, context.schema = some schema → schema.IsCoherent)
    {write : BodyWriter} {className : Option String} {field : Field} (named : field.name ≠ "")
    {start : Nat} {earlier : List LinkTarget} :
    Recalls exact said input (Decoding.readHeading context input) start
      (Encoding.fieldEntry context write className field).label
      (Recall.heading context className field.name >>= fun _ =>
        Pure.pure (some ⟨field.name, pinnedTag context className field.name⟩)) earlier earlier := by
  rw [Encoding.fieldEntry, pinnedTag, Recall.heading]
  cases known : Encoding.property? context className field.name with
  | none =>
    dsimp only
    rw [bind_assoc]
    exact name small named
  | some property => exact of_back (ReadsBack.propertyId coherent known)

end Recalls

/-! ## Fields

The names are distinct, so the target of the walk knows none of those to come: every slot is read,
and none is stepped over. -/

/-- Names that a record does not have are no names of it either once another one is bound. -/
theorem Record.absent_bind {target : Record} {name : String} {fields : List Field}
    (absent : ∀ field ∈ fields, target.contains field.name = false)
    (other : name ∉ fields.map (·.name)) (value : Value) (pinned : Option TypeTag) :
    ∀ field ∈ fields, (target.bind name value pinned).contains field.name = false := by
  intro field there
  have differs : name ≠ field.name := fun same =>
    other (List.mem_map.mpr ⟨field, there, same.symm⟩)
  rw [Record.contains_bind, absent field there, decide_eq_false differs]
  rfl

namespace Restores

variable {context : Context} {exact : Prop} {input : List UInt8} {write : BodyWriter}
  {read : BodyReader} {remember : BodyRecall}
  (restores : Restores context exact input write read remember)

include restores in
/-- The slot of a field leads to what is recalled of the field. -/
theorem slot {className : Option String} {field : Field} {start place : Nat}
    {earlier calls : List LinkTarget} {filling : Option Filling} {bytes : List UInt8}
    (readable : ∀ w ∈ writtenField context className field, Readable w)
    (headed : Recall.heading context className field.name earlier = some ((), earlier))
    (body : SlotBody field.value
      (Encoding.fieldTag field (pinnedTag context className field.name))
      (fun tag => write field.name tag (linkedTag context className field.name) field.value)
      place earlier filling bytes calls)
    (exactly : exact →
      (Recall.field context remember className field earlier).isSome = true)
    (positive : 0 < place)
    (holds : Holds input start
      (Slot.encode (pinnedTag context className field.name).isSome filling))
    (there : Holds input place bytes) {visited : Nat}
    (room : visited + Slot.size (pinnedTag context className field.name).isSome + bytes.length
      ≤ input.length) :
    Ends exact context.RefusesWith
      ⟨start + Slot.size (pinnedTag context className field.name).isSome,
        visited + Slot.size (pinnedTag context className field.name).isSome + bytes.length⟩
      (fun placed => (∀ header last, max header last = place →
          max header (max last (Decoding.Placed.endOf placed)) = place + bytes.length) ∧
        Recall.field context remember className field earlier
          = some (⟨field.name, Decoding.Placed.valueOf placed, placed.map (·.tag)⟩,
            earlier ++ calls))
      (Decoding.readSlot input read (pinnedTag context className field.name)
        ⟨start, visited⟩) := by
  have held (whole : exact) := exactly whole
  rw [Recall.field] at held ⊢
  rw [Recalling.run_bind headed] at held ⊢
  refine (Ends.recalledSlot _
    (fun tag => remember tag (linkedTag context className field.name) field.value) body
    (fun chosen choice => Encoding.fieldTag_pinned field choice)
    (fun chosen notNull choice written => ?_) (fun whole => Recalling.isSome_left (held whole))
    positive holds there room).mono rfl fun placed landed => ⟨fun header last => landed.furthest, ?_⟩
  · refine restores.back written fun w inside => readable w ?_
    rw [writtenField, inSlot_of_ok notNull choice]
    exact inside
  · rw [Recalling.run_bind landed.recalled, valueOf_eq, Option.map_map]
    rfl

variable (coherent : ∀ schema, context.schema = some schema → schema.IsCoherent)
  (small : input.length < 2 ^ 63)
include restores coherent small

/-- The fields of a record come back in order, and the header ends behind them.  The induction is
on the fields; `start` and `place` are where their entries and their bodies begin.  The names are
distinct, so the target, which has those of the fields before, has none of those to come. -/
theorem fields {className : Option String} : ∀ (kept : List Field)
    (room last bound visited : Nat) {start place : Nat} {target : Record}
    {earlier calls : List LinkTarget} {fillings : List (Option Filling)} {bodies : List UInt8},
    (∀ field ∈ kept, ∀ w ∈ writtenField context className field, Readable w) →
    (∀ field ∈ kept, field.name ≠ "") → (kept.map (·.name)).Nodup →
    (∀ field ∈ kept, target.contains field.name = false) → kept.length < room →
    Bodies.write ((kept.map (Encoding.fieldEntry context write className)).map (·.body)) place
      earlier = ⟨fillings, bodies, calls, .ok ()⟩ →
    (exact → (kept.mapM (Recall.field context remember className) earlier).isSome = true) →
    0 < place →
    Holds input start
      (Entry.encodeAll (kept.map (Encoding.fieldEntry context write className)) fillings
        ++ Varint.encode Encoding.headerEnd) →
    Holds input place bodies →
    visited + ((Entry.encodeAll (kept.map (Encoding.fieldEntry context write className))
      fillings).length + (Varint.encode Encoding.headerEnd).length) + bodies.length
        ≤ input.length →
    Ends exact context.RefusesWith
      ⟨start + ((Entry.encodeAll (kept.map (Encoding.fieldEntry context write className))
          fillings).length + (Varint.encode Encoding.headerEnd).length),
        visited + ((Entry.encodeAll (kept.map (Encoding.fieldEntry context write className))
          fillings).length + (Varint.encode Encoding.headerEnd).length) + bodies.length⟩
      (fun made => (∀ header, max header last = place →
          max header made.1 = place + bodies.length) ∧
        ∃ added, Decoding.Grown target made.2 added ∧
          kept.mapM (Recall.field context remember className) earlier
            = some (added, earlier ++ calls))
      (Decoding.readFieldsInto context input read none room last bound target ⟨start, visited⟩) := by
  intro kept
  induction kept with
  | nil =>
    intro room last bound visited start place target earlier calls fillings bodies
      _ _ _ _ enough run _ _ holds _ budget
    obtain ⟨room, rfl⟩ := Nat.exists_eq_succ_of_ne_zero (Nat.ne_of_gt enough)
    cases run
    rw [Decoding.readFieldsInto_succ]
    simp only [List.map_nil, Entry.encodeAll, List.nil_append, List.length_nil, Nat.zero_add,
      Nat.add_zero] at holds budget ⊢
    refine (ReadsBack.headerEnd holds visited budget).bind fun _ same => ?_
    subst same
    refine ⟨rfl, fun header before => before, [], Decoding.Grown.refl target, ?_⟩
    rw [List.append_nil]
    rfl
  | cons field rest ih =>
    intro room last bound visited start place target earlier calls fillings bodies
      readable named distinct fresh enough run exactly positive holds there budget
    obtain ⟨room, rfl⟩ := Nat.exists_eq_succ_of_ne_zero (Nat.ne_zero_of_lt enough)
    rw [List.map_cons, List.map_cons, Encoding.body_fieldEntry] at run
    -- the bodies were written in the order of the fields: the first one, and the others behind it
    obtain ⟨filling, fillings₂, bytes₁, bytes₂, calls₁, calls₂, body, later, rfl, rfl, rfl⟩ :=
      Bodies.write_cons_eq_ok run
    have shape : Entry.encodeAll ((field :: rest).map (Encoding.fieldEntry context write className))
        (filling :: fillings₂) = (Encoding.fieldEntry context write className field).label
          ++ Slot.encode (Encoding.fieldEntry context write className field).pinned filling
          ++ Entry.encodeAll (rest.map (Encoding.fieldEntry context write className)) fillings₂ := rfl
    rw [shape, Encoding.pinned_fieldEntry] at holds budget ⊢
    rw [List.mapM_cons] at exactly
    have first (whole : exact) := Recalling.isSome_left (exactly whole)
    have heading : Recalls exact context.RefusesWith input _ start
        (Encoding.fieldEntry context write className field).label _ earlier earlier :=
      Recalls.heading small coherent (named field List.mem_cons_self)
    have headed (whole : exact) :
        (Recall.heading context className field.name earlier).isSome = true :=
      Recalling.isSome_left (first whole)
    generalize (Encoding.fieldEntry context write className field).label = label
      at holds budget heading ⊢
    rw [List.append_assoc (label ++ _)] at holds
    have holds₂ := holds.right
    simp only [List.length_append, Slot.length_encode] at budget holds₂ ⊢
    rw [← Nat.add_assoc] at holds₂
    -- the field is read, for all are wanted and it is not there yet
    have unbound : (!Decoding.isWanted none field.name || target.contains field.name) = false := by
      rw [fresh field List.mem_cons_self]
      rfl
    rw [Decoding.readFieldsInto_succ]
    refine (heading (fun whole => ?_) holds.left.left visited (by omega)).bind
      fun _ recalled => ?_
    · obtain ⟨made, headed⟩ := Option.isSome_iff_exists.mp (headed whole)
      rw [Recalling.run_pure_bind_map headed]
      rfl
    obtain ⟨_, mid, headed, same⟩ := Recalling.run_bind_eq_some.mp recalled
    cases same
    dsimp only
    rw [unbound, if_neg Bool.false_ne_true]
    refine (restores.slot (readable field List.mem_cons_self) headed body first positive
      holds.left.right there.left (by omega)).bind fun placed landed => ?_
    obtain ⟨furthest, bound'⟩ := landed
    -- nor are the fields to come, once this one is bound
    have unseen := Record.absent_bind
      (fun other there => fresh other (List.mem_cons_of_mem _ there)) (List.nodup_cons.mp distinct).1
      (Decoding.Placed.valueOf placed) (placed.map (·.tag))
    rw [Recalling.run_bind bound'] at exactly
    have others := ih room (max last (Decoding.Placed.endOf placed)) (bound + 1)
      (visited + label.length + Slot.size (pinnedTag context className field.name).isSome
        + bytes₁.length)
      (fun other there => readable other (List.mem_cons_of_mem _ there))
      (fun other there => named other (List.mem_cons_of_mem _ there))
      (List.nodup_cons.mp distinct).2 unseen (Nat.lt_of_succ_lt_succ enough) later
      (fun whole => Recalling.isSome_left (exactly whole))
      (by omega) holds₂ there.right (by omega)
    refine others.mono ?_ fun made fact => ⟨fun header before => ?_, ?_⟩
    · rw [Cursor.mk.injEq]
      omega
    · rw [← Nat.add_assoc]
      exact fact.1 header (furthest header last before)
    · obtain ⟨added, grown, recalled⟩ := fact.2
      rw [← List.append_assoc]
      exact ⟨_, grown.bind, Recalling.run_mapM_cons.mpr ⟨_, _, _, bound', recalled, rfl⟩⟩

/-- A record comes back with its class name and its fields. -/
theorem record {record : Record} {start : Nat} {earlier calls : List LinkTarget}
    {bytes : List UInt8} (readable : ∀ w ∈ record.written context, Readable w)
    (named : ∀ field ∈ record.fields, field.name ≠ "") (distinct : record.fieldNames.Nodup)
    (run : Encoding.writeRecord context write record start earlier = ⟨bytes, calls, .ok ()⟩) :
    Recalls exact context.RefusesWith input
      (Decoding.readRecordInto context input read none Record.new) start bytes
      (Recall.record context remember record) earlier (earlier ++ calls) := by
  rw [record.written_eq, writtenFields_eq] at readable
  rw [Encoding.writeRecord] at run
  rw [Recall.record]
  have names : ((record.fields.filter (!Encoding.isOmitted ·)).map (·.name)).Nodup :=
    (List.filter_sublist.map _).nodup distinct
  have named : ∀ field ∈ record.fields.filter (!Encoding.isOmitted ·), field.name ≠ "" :=
    fun field there => named field (List.mem_filter.mp there).1
  -- from here on only the fields that were kept matter
  generalize record.fields.filter (!Encoding.isOmitted ·) = kept at run readable names named ⊢
  obtain ⟨fillings, bodies, written, rfl⟩ := writeTable_eq_ok run
  have fresh (className : String) : ∀ field ∈ kept,
      (Binder.named className Record.new).contains field.name = false := by
    intro field _
    rw [Record.contains, Binder.named_fields]
    rfl
  have front :
      Recalls exact context.RefusesWith input (Cursor.string input) start _ _ earlier earlier :=
    Recalls.string small (record.className.getD "")
  have someByte : 0 < (Varint.encode (UInt64.ofNat (Utf8.encode (record.className.getD "")).length)
      ++ Utf8.encode (record.className.getD "")).length := by
    have first := Varint.length_encode_pos
      (UInt64.ofNat (Utf8.encode (record.className.getD "")).length)
    rw [List.length_append]
    omega
  generalize Varint.encode (UInt64.ofNat (Utf8.encode (record.className.getD "")).length)
    ++ Utf8.encode (record.className.getD "") = head at written front someByte ⊢
  -- the header has a byte for each entry, so the room for entries is never used up
  have fewer := Entry.length_le_encodeAll
    (kept.map (Encoding.fieldEntry context write record.className)) fillings
  rw [List.length_map] at fewer
  rw [List.append_assoc head]
  intro exactly holds visited room
  have header := holds.left.right
  have place := holds.right
  have inside := holds.bound
  simp only [List.length_append] at place room inside ⊢
  refine (front (fun whole => Recalling.isSome_left (exactly whole)) holds.left.left visited
    (by omega)).bind fun className recalled => ?_
  rw [Recalling.run_bind recalled] at exactly
  have walked := restores.fields coherent small kept (input.length + 1) 0 0 (visited + head.length)
    (fun field there w inside => readable w (List.mem_flatMap.mpr ⟨field, there, inside⟩)) named
    names (fresh className) (by omega) written
    (fun whole => Recalling.isSome_left (exactly whole)) (by omega) header
    (by rw [← Nat.add_assoc]; exact place) (by omega)
  refine walked.bind fun made facts => ?_
  obtain ⟨last, made⟩ := made
  have finished := facts.1 _ (Nat.max_zero _)
  rw [Nat.add_assoc head.length, ← Nat.add_assoc start] at finished
  show Ends _ _ _ _ ((Decoding.finish input last >>= fun _ => pure made) _)
  rw [run_bind_of_ok (Ends.finish finished (by omega))]
  obtain ⟨-, added, grown, recalled'⟩ := facts
  have whole : made = { Binder.named className Record.new with fields := added } := by
    have grown : made = _ := grown
    rw [grown, Binder.named_fields]
    rfl
  refine ⟨by rw [Cursor.mk.injEq]; omega, ?_⟩
  rw [Recalling.run_bind recalled, Recalling.run_bind recalled', whole]
  rfl

end Restores
end DocumentCodec
