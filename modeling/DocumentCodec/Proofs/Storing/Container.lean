import DocumentCodec.Proofs.Storing.Scalar
/-!
# Values with values inside, stored again

A container can be stored if everything in it is null or can be stored, and its names and keys are
ones that a reader takes: then it is written in the bytes of its parts, and recalled as the tidied
one.  Where the parts stand is not known, so they are written wherever there is room for them below
the last offset that a slot can hold.
-/

namespace DocumentCodec

/-- Null, or a value that can be stored under the tag of its kind. -/
inductive Kept (maxDepth : Nat) (write : BodyWriter) (remember : BodyRecall) : Value → Prop where
  | null : Kept maxDepth write remember .null
  | stored {tag : TypeTag} {value : Value} (storable : Storable maxDepth write remember tag value) :
      Kept maxDepth write remember value

namespace Kept

variable {maxDepth : Nat} {write : BodyWriter} {remember : BodyRecall} {value : Value}

theorem isTransient (kept : Kept maxDepth write remember value) : value.isTransient = false := by
  cases kept with
  | null => rfl
  | stored storable => exact Value.isTransient_of_naturalTag storable.natural

theorem formed (kept : Kept maxDepth write remember value) : value.isWellFormed = true := by
  cases kept with
  | null => rfl
  | stored storable => exact (storable.readable _ (Value.mem_written _ none value)).formed

/-- What is written for a value that is kept can be read back. -/
theorem readable (kept : Kept maxDepth write remember value) {tag : Except Unsupported TypeTag}
    (typed : ∀ chosen, value.naturalTag = some chosen → tag = .ok chosen) :
    ∀ w ∈ inSlot value tag [] fun tag => value.written (Context.bare maxDepth) tag none,
      Readable w := by
  cases kept with
  | null =>
    intro w there
    cases there
  | stored storable =>
    rw [inSlot_of_ok (Value.isNull_of_naturalTag storable.natural) (typed _ storable.natural)]
    exact storable.readable

/-- What is recalled in a slot of a value that is kept. -/
theorem recall_slot (kept : Kept maxDepth write remember value) {tag : Except Unsupported TypeTag}
    (typed : ∀ chosen, value.naturalTag = some chosen → tag = .ok chosen)
    (earlier : List LinkTarget) :
    Recall.slot (fun tag => remember tag none value) value tag earlier
      = some (value.naturalTag.map (·, value.tidied), earlier) := by
  cases kept with
  | null =>
    rw [Recall.slot, inSlot_of_null rfl]
    rfl
  | stored storable =>
    rw [Recall.slot,
      inSlot_of_ok (Value.isNull_of_naturalTag storable.natural) (typed _ storable.natural),
      storable.natural]
    exact Recalling.run_pure_bind_map (storable.recalls earlier)

/-- What is recalled stands for the value, in a slot or without one. -/
theorem valueOf (kept : Kept maxDepth write remember value) :
    ((value.naturalTag.map (·, value.tidied)).map (·.2)).getD .null = value.tidied := by
  cases kept with
  | null => rfl
  | stored storable =>
    rw [storable.natural]
    rfl

end Kept

/-! ## Lists and sets

Whether an element is null or stored, it comes back as it was, so the list does. -/

section Items

variable {maxDepth : Nat} {write : BodyWriter} {remember : BodyRecall} {items : List Value}

/-- The elements are written one behind the other, each behind its tag. -/
theorem writes_kept (field : String) : ∀ (items : List Value) (start : Nat),
    (∀ item ∈ items, Kept maxDepth write remember item) → start + bulkOfItems items < 2 ^ 31 →
    ∃ bytes, bytes.length ≤ bulkOfItems items ∧
      Encoder.Writes (items.forM (Encoding.writeItem write field none)) start bytes := by
  intro items
  induction items with
  | nil => exact fun start _ _ => ⟨[], Nat.le_refl 0, fun _ => rfl⟩
  | cons item rest ih =>
    intro start kept room
    rw [bulkOfItems] at room ⊢
    -- an element takes its tag and at most its bulk
    obtain ⟨first, size, written⟩ : ∃ bytes, bytes.length ≤ 1 + item.bulk ∧
        Encoder.Writes (Encoding.writeItem write field none item) start bytes := by
      cases kept item List.mem_cons_self with
      | null => exact ⟨[TypeTag.any.id], Nat.le_refl 1, fun _ => rfl⟩
      | stored storable =>
        obtain ⟨bytes, size, written⟩ := storable.writes field (start + 1) (by omega)
        refine ⟨_, ?_, Encoding.writes_item (Value.isNull_of_naturalTag storable.natural)
          storable.natural written⟩
        rw [List.length_cons]
        omega
    obtain ⟨later, size', written'⟩ := ih (start + first.length)
      (fun other there => kept other (List.mem_cons_of_mem _ there)) (by omega)
    refine ⟨first ++ later, ?_, written.cons written'⟩
    rw [List.length_append]
    omega

variable (kept : ∀ item ∈ items, Kept maxDepth write remember item)
include kept

theorem filter_kept : items.filter (!·.isTransient) = items :=
  List.filter_eq_self.mpr fun item there => by rw [(kept item there).isTransient]; rfl

/-- Elements that can be stored are stored as a list, in no more bytes than they are said to take.
-/
theorem writes_items_kept (field : String) (start : Nat)
    (room : start + (countBulk items.length + 1 + bulkOfItems items) < 2 ^ 31) :
    ∃ bytes, bytes.length ≤ countBulk items.length + 1 + bulkOfItems items ∧
      Encoder.Writes (Encoding.writeItems write field none items) start bytes := by
  have number : countBulk items.length = (Varint.encode (UInt64.ofNat items.length)).length := rfl
  obtain ⟨bytes, size, written⟩ := writes_kept field items
    (start + (Varint.encode (UInt64.ofNat items.length)).length + 1) kept (by omega)
  refine ⟨_, ?_, Encoding.writes_items (fun item there => (kept item there).isTransient) written⟩
  rw [List.length_append, List.length_cons]
  omega

/-- The list comes back with its elements tidied. -/
theorem recall_items_kept (narrow : items.length < 2 ^ 31) (earlier : List LinkTarget) :
    Recall.items remember none items earlier = some (tidiedItems items, earlier) := by
  rw [Recall.items, filter_kept kept, tidiedItems_eq,
    Recalling.run_bind (Recall.length_eq_some.mpr ⟨narrow, rfl, rfl⟩)]
  refine Recalling.run_mapM_of_forall items fun item there => ?_
  cases kept item there with
  | null => rfl
  | stored storable =>
    rw [Recall.item, inSlot_of_ok (Value.isNull_of_naturalTag storable.natural)
      (itemTag_natural storable.natural)]
    exact storable.recalls earlier

/-- What is written for the elements can be read. -/
theorem readable_items_kept : ∀ w ∈ writtenItems (Context.bare maxDepth) none items, Readable w := by
  rw [writtenItems_eq, filter_kept kept]
  intro w there
  obtain ⟨item, inside, written⟩ := List.mem_flatMap.mp there
  exact (kept item inside).readable (fun _ => itemTag_natural) w written

end Items

namespace Storable

variable {maxDepth : Nat} {write : BodyWriter} {remember : BodyRecall} {items : List Value}

/-- What is written for a container is the container and what is written for its contents. -/
theorem readable_cons {tag : TypeTag} {value : Value} {inside : List (TypeTag × Value)}
    (formed : value.isWellFormed = true) (unheld : heldRecord (tag, value) = none)
    (readable : ∀ w ∈ inside, Readable w) : ∀ w ∈ (tag, value) :: inside, Readable w := by
  refine List.forall_mem_cons.mpr ⟨⟨formed, fun record holds => ?_⟩, readable⟩
  rw [unheld] at holds
  cases holds

variable (narrow : items.length < 2 ^ 31) (kept : ∀ item ∈ items, Kept maxDepth write remember item)
include narrow kept

/-- **A list of such elements can be stored**, one level above them. -/
theorem embeddedList :
    StorableAt maxDepth (.ok write) (some remember) .embeddedList (.embeddedList items) where
  natural := rfl
  writes field start room := writes_items_kept kept field start room
  recalls earlier := Recalling.run_pure_bind_map (recall_items_kept kept narrow earlier)
  readable := readable_cons (wellFormedItems_iff.mpr fun item there => (kept item there).formed) rfl
    (readable_items_kept kept)

/-- So can a set. -/
theorem embeddedSet :
    StorableAt maxDepth (.ok write) (some remember) .embeddedSet (.embeddedSet items) where
  natural := rfl
  writes field start room := writes_items_kept kept field start room
  recalls earlier := Recalling.run_pure_bind_map (recall_items_kept kept narrow earlier)
  readable := readable_cons (wellFormedItems_iff.mpr fun item there => (kept item there).formed) rfl
    (readable_items_kept kept)

end Storable

/-! ## Tables

A table can be stored if all of it fits below what a slot can hold, and then every slot finds room
for its body. -/

namespace Member

/-- The bytes of a member of a table: its label, its slot and its body. -/
def bulk (member : Member) : Nat := member.label.length + Slot.openSize + member.value.bulk

/-- A member that no schema knows, whose value is kept. -/
structure IsKept (maxDepth : Nat) (write : BodyWriter) (remember : BodyRecall) (member : Member) :
    Prop where
  kept : Kept maxDepth write remember member.value
  typed : ∀ chosen, member.value.naturalTag = some chosen → member.tag = .ok chosen
  unlinked : member.linked = none
  unpinned : member.pinned = false

variable {maxDepth : Nat} {write : BodyWriter} {remember : BodyRecall}

/-- The header of a table and the values of its members add up. -/
theorem sizeAll_add_bulk : ∀ {members : List Member},
    (∀ member ∈ members, member.IsKept maxDepth write remember) →
    Entry.sizeAll (members.map (entry write)) + (members.map (·.value.bulk)).sum
      = (members.map bulk).sum := by
  intro members
  induction members with
  | nil => exact fun _ => rfl
  | cons member rest ih =>
    intro kept
    have later := ih fun other there => kept other (List.mem_cons_of_mem _ there)
    have size : (entry write member).size = member.label.length + Slot.openSize := by
      show member.label.length + Slot.size member.pinned = _
      rw [(kept member List.mem_cons_self).unpinned]
      rfl
    simp only [List.map_cons, List.sum_cons, Entry.sizeAll, size, bulk] at later ⊢
    omega

/-- The bodies of the members are written one behind the other, each where a slot can point. -/
theorem fillAll_of_kept : ∀ (members : List Member) (place : Nat),
    (∀ member ∈ members, member.IsKept maxDepth write remember) →
    place + (members.map (·.value.bulk)).sum < 2 ^ 31 →
    ∃ fillings bytes, bytes.length ≤ (members.map (·.value.bulk)).sum ∧
      FillAll write members place fillings bytes := by
  intro members
  induction members with
  | nil => exact fun place _ _ => ⟨[], [], Nat.le_refl 0, FillAll.nil⟩
  | cons member rest ih =>
    intro place kept room
    rw [List.map_cons, List.sum_cons] at room ⊢
    obtain ⟨held, typed, unlinked, -⟩ := kept member List.mem_cons_self
    obtain ⟨filling, first, size, filled⟩ : ∃ filling bytes, bytes.length ≤ member.value.bulk ∧
        Fills write member place filling bytes := by
      generalize same : member.value = value at held typed room
      cases held with
      | null => exact ⟨none, [], Nat.zero_le _, Fills.null (congrArg Value.isNull same)⟩
      | stored storable =>
        obtain ⟨bytes, size, written⟩ := storable.writes member.field place (by omega)
        subst same
        rw [← unlinked] at written
        refine ⟨_, bytes, size, Fills.body (Value.isNull_of_naturalTag storable.natural)
          (typed _ storable.natural) written ?_⟩
        -- the bulk of all members is below what a slot can point to
        show place ≤ 2147483647
        omega
    obtain ⟨fillings, later, size', filled'⟩ := ih (place + first.length)
      (fun other there => kept other (List.mem_cons_of_mem _ there)) (by omega)
    refine ⟨filling :: fillings, first ++ later, ?_, FillAll.cons filled filled'⟩
    rw [List.length_append]
    omega

end Member

/-! ## Maps -/

section Maps

variable {maxDepth : Nat} {write : BodyWriter} {remember : BodyRecall}
  {pairs : List (String × Value)} (kept : ∀ pair ∈ pairs, Kept maxDepth write remember pair.2)
include kept

theorem filter_kept_members : pairs.filter (!·.2.isTransient) = pairs :=
  List.filter_eq_self.mpr fun pair there => by rw [(kept pair there).isTransient]; rfl

/-- Members that can be stored are stored as a map: the number of them, the header, and the bodies.
-/
theorem writes_map_kept (field : String) (start : Nat)
    (room : start + (countBulk pairs.length + bulkOfMembers pairs) < 2 ^ 31) :
    ∃ bytes, bytes.length ≤ countBulk pairs.length + bulkOfMembers pairs ∧
      Encoder.Writes (Encoding.writeMap write field pairs) start bytes := by
  have members : Encoding.mapMembers field pairs = pairs.map (Member.ofPair field) := by
    rw [Encoding.mapMembers, filter_kept_members kept]
  -- nothing is left out, so the members of the map are the seats of its table
  have each : ∀ member ∈ Encoding.mapMembers field pairs,
      member.IsKept maxDepth write remember := by
    rw [members]
    intro member there
    obtain ⟨pair, inside, rfl⟩ := List.mem_map.mp there
    exact ⟨kept pair inside, fun _ => memberTag_natural, rfl, rfl⟩
  have total : ((Encoding.mapMembers field pairs).map Member.bulk).sum = bulkOfMembers pairs := by
    rw [members, List.map_map, bulkOfMembers_eq]
    rfl
  have head : (Encoding.mapHead pairs).length = countBulk pairs.length := by
    rw [Encoding.mapHead, filter_kept_members kept]
    rfl
  -- the header and the bodies together are what the members are said to take
  have sizes := Member.sizeAll_add_bulk each
  obtain ⟨fillings, bodies, size, filled⟩ := Member.fillAll_of_kept _
    (start + (countBulk pairs.length
      + Entry.sizeAll ((Encoding.mapMembers field pairs).map (Member.entry write)) + 0)) each
    (by omega)
  rw [← head, ← Entry.length_encodeAll _ fillings] at filled
  refine ⟨_, ?_, Encoding.writes_map filled⟩
  rw [List.append_nil, List.length_append, List.length_append, head, Entry.length_encodeAll]
  omega

/-- The map comes back with its values tidied, if a reader takes the lengths of its keys. -/
theorem recall_members_kept (narrow : pairs.length < 2 ^ 31)
    (keyed : ∀ pair ∈ pairs, (Utf8.encode pair.1).length < 2 ^ 31) (earlier : List LinkTarget) :
    Recall.members remember pairs earlier = some (tidiedMembers pairs, earlier) := by
  rw [Recall.members, filter_kept_members kept, tidiedMembers_eq,
    Recalling.run_bind (Recall.length_eq_some.mpr ⟨narrow, rfl, rfl⟩)]
  refine Recalling.run_mapM_of_forall pairs fun pair there => ?_
  rw [Recall.member, Recalling.run_bind (Recall.string_eq_some.mpr ⟨keyed pair there, rfl, rfl⟩),
    Recalling.run_bind ((kept pair there).recall_slot (fun _ => memberTag_natural) earlier)]
  show some ((pair.1, Option.getD (Option.map _ _) _), earlier) = _
  rw [(kept pair there).valueOf]

/-- What is written for the members can be read. -/
theorem readable_members_kept : ∀ w ∈ writtenMembers (Context.bare maxDepth) pairs, Readable w := by
  rw [writtenMembers_eq, filter_kept_members kept]
  intro w there
  obtain ⟨pair, inside, written⟩ := List.mem_flatMap.mp there
  exact (kept pair inside).readable (fun _ => memberTag_natural) w written

/-- **A map of such members can be stored**, one level above them. -/
theorem Storable.embeddedMap (narrow : pairs.length < 2 ^ 31) (ordered : OrderedMap.Ascending pairs)
    (keyed : ∀ pair ∈ pairs, (Utf8.encode pair.1).length < 2 ^ 31) :
    StorableAt maxDepth (.ok write) (some remember) .embeddedMap (.embeddedMap pairs) where
  natural := rfl
  writes field start room := writes_map_kept kept field start room
  recalls earlier := Recalling.run_pure_bind_map (recall_members_kept kept narrow keyed earlier)
  readable := readable_cons
    (Bool.and_eq_true_iff.mpr ⟨decide_eq_true ordered,
      wellFormedEntries_iff.mpr fun pair there => (kept pair there).formed⟩) rfl
    (readable_members_kept kept)

end Maps

/-! ## Records

The record that is stored has the fields that are not dropped.  Those that are, the null ones that
are pinned to `transient`, leave nothing behind. -/

/-- A field with a name that a header can hold; its value is kept, and it is pinned to the tag of
its kind unless it is null. -/
structure KeptField (maxDepth : Nat) (write : BodyWriter) (remember : BodyRecall) (field : Field) :
    Prop where
  kept : Kept maxDepth write remember field.value
  pinned : field.value.isNull = false → field.pinned = field.value.naturalTag
  named : field.name ≠ ""
  narrow : (Utf8.encode field.name).length < 2 ^ 31

/-- A record that was read on its own: every field of it is kept. -/
structure KeptRecord (maxDepth : Nat) (write : BodyWriter) (remember : BodyRecall) (record : Record) :
    Prop where
  classed : record.className ≠ some ""
  narrow : (Utf8.encode (record.className.getD "")).length < 2 ^ 31
  unidentified : record.identity = RecordId.empty
  distinct : record.fieldNames.Nodup
  kept : ∀ field ∈ record.fields, KeptField maxDepth write remember field

namespace KeptField

variable {maxDepth : Nat} {write : BodyWriter} {remember : BodyRecall} {field : Field}

/-- A field is stored under the tag of its value's kind, which is what it is pinned to. -/
theorem typed (kept : KeptField maxDepth write remember field) : ∀ chosen,
    field.value.naturalTag = some chosen → Encoding.fieldTag field none = .ok chosen := by
  intro chosen natural
  obtain ⟨name, value, pinned⟩ := field
  have pinned := kept.pinned (Value.isNull_of_naturalTag natural)
  rw [natural] at pinned
  subst pinned
  exact (Encoding.fieldTag_natural name natural (Or.inl rfl)).1

/-- A field is left out if it is null and pinned to be left out: no value that was read is
transient. -/
theorem isOmitted_eq (kept : KeptField maxDepth write remember field) :
    Encoding.isOmitted field = field.isDropped := by
  rw [Encoding.isOmitted, Field.isDropped, kept.kept.isTransient, Bool.false_or]
  cases null : field.value.isNull with
  | true => rfl
  | false =>
    rw [kept.pinned null, Bool.false_and]
    exact beq_eq_false_iff_ne.mpr field.value.naturalTag_ne_transient

/-- A field comes back tidied: if it is there it is pinned to the tag of its kind. -/
theorem recall_field (kept : KeptField maxDepth write remember field) (className : Option String)
    (earlier : List LinkTarget) : Recall.field (Context.bare maxDepth) remember className field earlier
      = some (field.tidied, earlier) := by
  have heading : Recall.heading (Context.bare maxDepth) className field.name earlier
      = some ((), earlier) :=
    Recalling.run_bind (Recall.length_eq_some.mpr ⟨kept.narrow, rfl, rfl⟩)
  -- there is no schema to pin a field or to declare a type for elements
  have slot : Recall.slot (fun tag => remember tag
      (linkedTag (Context.bare maxDepth) className field.name) field.value) field.value
      (Encoding.fieldTag field (pinnedTag (Context.bare maxDepth) className field.name)) earlier
        = some (field.value.naturalTag.map (·, field.value.tidied), earlier) :=
    kept.kept.recall_slot kept.typed earlier
  rw [Recall.field, Recalling.run_bind heading, Recalling.run_bind slot]
  show some ((⟨field.name, Option.getD (Option.map _ _) _, Option.map _ _⟩ : Field), earlier) = _
  rw [kept.kept.valueOf, Field.tidied]
  -- only a field that is there is pinned again, to the tag of its kind
  cases null : field.value.isNull with
  | true =>
    rw [Value.eq_null null]
    rfl
  | false =>
    rw [kept.pinned null, Option.map_map]
    cases field.value.naturalTag <;> rfl

end KeptField

section Fields

variable {maxDepth : Nat} {write : BodyWriter} {remember : BodyRecall}

/-- Fewer fields take fewer bytes. -/
theorem bulkOfFields_filter_le (keep : Field → Bool) (fields : List Field) :
    bulkOfFields (fields.filter keep) ≤ bulkOfFields fields := by
  induction fields with
  | nil => exact Nat.le_refl 0
  | cons field rest ih =>
    obtain ⟨name, value, pinned⟩ := field
    rw [List.filter_cons]
    split
    · rw [bulkOfFields, bulkOfFields]
      omega
    · rw [bulkOfFields]
      omega

/-- What is dropped is what the writer leaves out. -/
theorem tidiedFields_of_kept {fields : List Field}
    (kept : ∀ field ∈ fields, KeptField maxDepth write remember field) :
    tidiedFields fields = (fields.filter (!Encoding.isOmitted ·)).map Field.tidied := by
  rw [tidiedFields_eq]
  refine congrArg (List.map Field.tidied) (List.filter_congr fun field there => ?_)
  rw [(kept field there).isOmitted_eq]

end Fields

namespace KeptRecord

variable {maxDepth : Nat} {write : BodyWriter} {remember : BodyRecall} {record : Record}
  (kept : KeptRecord maxDepth write remember record)
include kept

theorem kept_filter : ∀ field ∈ record.fields.filter (!Encoding.isOmitted ·),
    KeptField maxDepth write remember field :=
  fun field there => kept.kept field (List.mem_filter.mp there).1

/-- A record of such fields is in order: their names are distinct. -/
theorem formed : record.isWellFormed = true := by
  have fields : wellFormedFields record.fields = true :=
    wellFormedFields_iff.mpr fun field there => (kept.kept field there).kept.formed
  have distinct := decide_eq_true kept.distinct
  cases record
  exact Bool.and_eq_true_iff.mpr ⟨distinct, fields⟩

theorem owned : KeptRecord maxDepth write remember { record with isEmbedded := true } :=
  ⟨kept.classed, kept.narrow, kept.unidentified, kept.distinct, kept.kept⟩

/-- The record is written, wherever there is room for it. -/
theorem writes (start : Nat) (room : start + record.bulk < 2 ^ 31) :
    ∃ bytes, bytes.length ≤ record.bulk ∧ Encoder.Writes
      (Encoding.writeRecord (Context.bare maxDepth) write record) start bytes := by
  have whole := record.bulk_eq
  have each : ∀ member ∈ Encoding.recordMembers (Context.bare maxDepth) record,
      member.IsKept maxDepth write remember := by
    intro member there
    obtain ⟨field, inside, rfl⟩ := List.mem_map.mp there
    have field := kept.kept_filter field inside
    exact ⟨field.kept, field.typed, rfl, rfl⟩
  have total : ((Encoding.recordMembers (Context.bare maxDepth) record).map Member.bulk).sum
      ≤ bulkOfFields record.fields := by
    have fewer := bulkOfFields_filter_le (!Encoding.isOmitted ·) record.fields
    rw [bulkOfFields_eq] at fewer
    rw [Encoding.recordMembers, List.map_map]
    -- the fields that are left out are not in the header, but they count in the bulk
    refine Nat.le_trans (Nat.le_of_eq ?_) fewer
    refine congrArg List.sum (List.map_congr_left fun field _ => ?_)
    show (_ ++ _ : List UInt8).length + _ + _ = _
    rw [List.length_append]
    rfl
  have head : (Encoding.recordHead record).length
      = stringBulk (Utf8.encode (record.className.getD "")).length := List.length_append
  have tail : (Varint.encode Encoding.headerEnd).length = 1 := by decide
  have sizes := Member.sizeAll_add_bulk each
  obtain ⟨fillings, bodies, size, filled⟩ := Member.fillAll_of_kept _
    (start + ((Encoding.recordHead record).length
      + Entry.sizeAll ((Encoding.recordMembers (Context.bare maxDepth) record).map
        (Member.entry write)) + (Varint.encode Encoding.headerEnd).length)) each (by omega)
  rw [← Entry.length_encodeAll _ fillings] at filled
  refine ⟨_, ?_, Encoding.writes_record filled⟩
  rw [List.length_append, List.length_append, List.length_append, Entry.length_encodeAll]
  omega

/-- What is recalled of the record is its class name and the tidied fields. -/
theorem recalls (earlier : List LinkTarget) :
    Recall.record (Context.bare maxDepth) remember record earlier
      = some (⟨record.className, RecordId.empty, tidiedFields record.fields, false⟩, earlier) := by
  have fields : (record.fields.filter (!Encoding.isOmitted ·)).mapM
      (Recall.field (Context.bare maxDepth) remember record.className) earlier
        = some ((record.fields.filter (!Encoding.isOmitted ·)).map Field.tidied, earlier) :=
    Recalling.run_mapM_of_forall _ fun field there =>
      (kept.kept_filter field there).recall_field record.className earlier
  rw [← tidiedFields_of_kept kept.kept] at fields
  rw [Recall.record, Recalling.run_bind (Recall.string_eq_some.mpr ⟨kept.narrow, rfl, rfl⟩),
    Recalling.run_bind fields]
  refine congrArg (fun made => some (made, earlier)) ?_
  -- a class name is kept unless it is empty, and then there is none
  cases named : record.className with
  | none => rfl
  | some className =>
    have classed : className.isEmpty = false := by
      refine Bool.eq_false_iff.mpr fun none => kept.classed ?_
      rw [named, String.isEmpty_iff.mp none]
    show ({ Binder.named className Record.new with fields := _ } : Record) = _
    rw [Binder.named, classed]
    rfl

/-- What is written for the fields can be read. -/
theorem readable : ∀ w ∈ record.written (Context.bare maxDepth), Readable w := by
  rw [record.written_eq, writtenFields_eq]
  intro w there
  obtain ⟨field, inside, written⟩ := List.mem_flatMap.mp there
  have field := kept.kept_filter field inside
  exact field.kept.readable field.typed w written

/-- The tidied fields have the names and the texts of those of the record. -/
theorem unmarked (unmarked : ∀ field ∈ record.fields,
      field.name = Record.serializableClassField → field.value.text? = none) :
    ∀ field ∈ tidiedFields record.fields,
      field.name = Record.serializableClassField → field.value.text? = none := by
  intro field there named
  rw [tidiedFields_of_kept kept.kept] at there
  obtain ⟨before, inside, rfl⟩ := List.mem_map.mp there
  show before.value.tidied.text? = none
  rw [Value.text?_tidied]
  exact unmarked before (List.mem_filter.mp inside).1 named

end KeptRecord

/-- A record inside another, unless it is marked as an object. -/
theorem Storable.embedded {maxDepth : Nat} {write : BodyWriter} {remember : BodyRecall}
    {record : Record} (kept : KeptRecord maxDepth write remember record)
    (unmarked : ∀ field ∈ record.fields,
      field.name = Record.serializableClassField → field.value.text? = none) :
    StorableAt maxDepth (.ok write) (some remember) .embedded
      (.embedded { record with isEmbedded := true }) where
  natural := Value.naturalTag_of_isEmbedded rfl
  writes field start room := kept.owned.writes start room
  recalls earlier := by
    -- without a mark the record is taken for itself
    have stays : Recall.embed (Context.bare maxDepth)
        ⟨record.className, RecordId.empty, tidiedFields record.fields, false⟩
          = some (.embedded ⟨record.className, RecordId.empty, tidiedFields record.fields, true⟩) :=
      Recall.embed_of_unmarked (kept.unmarked unmarked)
    rw [Value.tidied, Record.tidied, kept.unidentified]
    show Recall.embedded (Context.bare maxDepth) remember { record with isEmbedded := true } earlier
      = _
    rw [Recall.embedded, Recalling.run_bind (kept.owned.recalls earlier)]
    dsimp only
    rw [stays]
    rfl
  readable := by
    refine List.forall_mem_cons.mpr ⟨⟨kept.owned.formed, fun held holds => ?_⟩, ?_⟩
    · cases holds
      exact fun field there => (kept.kept field there).named
    · exact kept.owned.readable

end DocumentCodec
