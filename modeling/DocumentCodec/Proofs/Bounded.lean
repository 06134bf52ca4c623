import DocumentCodec.Proofs.Budget
import DocumentCodec.Proofs.Content
/-!
# Decoding hostile input is bounded

Slots may point anywhere: into each other's bodies, into headers, back at themselves.  Counts may
be anything up to `2 ^ 31`.  What keeps decoding within bounds all the same is the budget: every
element, member and entry takes at least one byte that is paid for, so what was bound never
outgrows the bytes that were handed out, and those never outgrow the input.

Two tags have bodies of no bytes at all, `any` and `transient`.  A value under one of them is paid
for by the byte of its tag, which is why a list must not declare `transient` for all its elements.
-/

namespace DocumentCodec

/-- What a value under a tag may hold beyond the bytes of its body. -/
def TypeTag.gift : TypeTag → Nat
  | .transient | .any => 1
  | _ => 0

/-- The price of a value, so long as no factory makes it out of nothing: it pays for its content,
and there is room for its containers. -/
def Value.Paid (context : Context) (gift room : Nat) (spent : Nat) (value : Value) : Prop :=
  context.registry = none → value.content ≤ spent + gift ∧ value.nesting ≤ room

namespace Decoding

variable {context : Context} {input : List UInt8}

/-! ## Bodies without bodies inside

A body pays for what it holds by the bytes that were taken for it.  Only its content is bounded
here; how deep it is nested is nothing. -/

/-- A value that holds nothing else is paid for by one byte. -/
theorem paid_of_pos {value : Value} {gift room spent : Nat} (content : value.content = 1)
    (nesting : value.nesting = 0) (positive : 0 < spent) :
    value.Paid context gift room spent :=
  fun _ => ⟨by omega, by omega⟩

/-- A day is paid for by the bytes of its number. -/
theorem metered_date (gift room : Nat) :
    Metered input (readDate context input) (Value.Paid context gift room) := by
  refine Metered.checked Metered.signedVarint fun start day spent positive => ?_
  cases context.options.zone.startOfDay? day with
  | none => exact Metered.malformed
  | some millis => exact Metered.pure (paid_of_pos rfl rfl positive)

/-- A decimal takes its scale and its length at least, eight bytes. -/
theorem metered_decimal : Metered input (readDecimal input) fun spent _ => 0 < spent := by
  refine Metered.word32.bind fun scale spent four => ?_
  refine Metered.checked Metered.word32 fun start count more four' => ?_
  dsimp only
  split
  · exact Metered.malformed
  · exact (Metered.take _).map fun _ _ _ => by omega

theorem metered_id : Metered input (readId input) fun spent _ => 2 ≤ spent :=
  Metered.varint32.bind fun cluster spent one =>
    Metered.signedVarint.map fun more _ one' => by omega

theorem metered_linkElement : Metered input (readLinkElement input) fun spent _ => 2 ≤ spent :=
  metered_id.map fun _ _ two => two

/-- Each link of a list takes more bytes than the one that it counts for, and the number in front
takes some too. -/
theorem metered_links : Metered input (readLinks input) fun spent items => items.length < spent := by
  refine Metered.length.bind fun count spent positive => ?_
  refine (metered_linkElement.times (q := fun spent items => items.length ≤ spent)
    (Nat.le_refl 0) (fun one item later rest two fewer => ?_) count).mono fun more items paid => ?_
  · rw [List.length_cons]
    omega
  · omega

/-- A key costs its bytes and the tag and length in front of them. -/
theorem metered_mapKey : Metered input (readMapKey input)
    fun spent key => (Utf8.encode key).length + 1 < spent := by
  refine Metered.checked Metered.tag fun start tag spent one => ?_
  split
  · exact Metered.string.mono fun more key paid => by omega
  · exact Metered.malformed

/-- The entries of a map of links cost their keys, and one byte more for each. -/
theorem metered_linkMap : Metered input (readLinkMap input) fun spent entries =>
    (entries.map fun entry => (Utf8.encode entry.1).length + 1).sum < spent := by
  refine Metered.length.bind fun count spent positive => ?_
  let weight : String × Option LinkTarget → Nat := fun entry => (Utf8.encode entry.1).length + 1
  have entry : Metered input (readMapKey input >>= fun key => readLinkElement input >>= fun link =>
      pure (key, link)) fun spent entry => weight entry ≤ spent :=
    metered_mapKey.bind fun key spent paid => metered_linkElement.map fun more link two =>
      show (Utf8.encode key).length + 1 ≤ spent + more by omega
  refine (entry.times (q := fun spent entries => (entries.map weight).sum ≤ spent)
    (Nat.le_refl 0) (fun one entry later rest paid light => ?_) count).map
      fun more entries paid => ?_
  · rw [List.map_cons, List.sum_cons]
    omega
  · -- entries with one key fall together, which only makes the map lighter
    have lighter := OrderedMap.sum_ofList_le weight entries
    show ((OrderedMap.ofList entries).map weight).sum < spent + more
    omega

/-- An object is as large as its factory makes it; so nothing is said of it, unless there is no
factory. -/
theorem metered_custom (gift room : Nat) :
    Metered input (readCustom context input) (Value.Paid context gift room) := by
  refine Metered.string.bind fun typeName spent _ => Metered.binary.bind fun stream more _ => ?_
  cases registered : context.registry with
  | none => exact Metered.throw
  | some registry =>
    simp only []
    cases registry.makeCustom typeName stream with
    | error e => exact Metered.throw
    | ok object => exact Metered.pure fun none => by rw [registered] at none; cases none

/-- A value that holds no other values is paid for, under every tag that reads one. -/
theorem metered_scalar (tag : TypeTag) (room : Nat) (flat : tag.isContainer = false) :
    Metered input (readScalar context input tag) (Value.Paid context tag.gift room) := by
  cases tag with
  | integer => exact Metered.varint32.map fun _ _ one => paid_of_pos rfl rfl one
  | long => exact Metered.signedVarint.map fun _ _ one => paid_of_pos rfl rfl one
  | short => exact Metered.varint16.map fun _ _ one => paid_of_pos rfl rfl one
  | string =>
    exact Metered.string.map fun spent text paid _ =>
      ⟨show 1 + (Utf8.encode text).length ≤ spent by omega, Nat.zero_le room⟩
  | double => exact Metered.word64.map fun _ _ eight => paid_of_pos rfl rfl (by omega)
  | float => exact Metered.word32.map fun _ _ four => paid_of_pos rfl rfl (by omega)
  | byte => exact Metered.byte.map fun _ _ one => paid_of_pos rfl rfl (by omega)
  | boolean => exact Metered.byte.map fun _ _ one => paid_of_pos rfl rfl (by omega)
  | dateTime => exact Metered.signedVarint.map fun _ _ one => paid_of_pos rfl rfl one
  | date => exact metered_date 0 room
  | decimal => exact metered_decimal.map fun _ _ one => paid_of_pos rfl rfl one
  | binary =>
    exact Metered.binary.map fun spent bytes paid _ =>
      ⟨show 1 + bytes.length ≤ spent by omega, Nat.zero_le room⟩
  | linkBag =>
    exact Metered.binary.map fun spent bytes paid _ =>
      ⟨show 1 + bytes.length ≤ spent by omega, Nat.zero_le room⟩
  | link => exact metered_id.map fun _ _ two => paid_of_pos rfl rfl (by omega)
  | linkList =>
    exact metered_links.map fun spent items paid _ =>
      ⟨show 1 + items.length ≤ spent by omega, Nat.zero_le room⟩
  | linkSet =>
    exact metered_links.map fun spent items paid _ =>
      ⟨show 1 + items.length ≤ spent by omega, Nat.zero_le room⟩
  | linkMap =>
    refine metered_linkMap.map fun spent entries paid _ => ⟨?_, Nat.zero_le room⟩
    show 1 + (entries.map fun entry => (Utf8.encode entry.1).length + 1).sum ≤ spent
    omega
  | custom => exact metered_custom 0 room
  -- these two read nothing: what they gave was handed out with their tag
  | transient => exact Metered.pure fun _ => ⟨Nat.le_refl 1, Nat.zero_le room⟩
  | any => exact Metered.pure fun _ => ⟨Nat.le_refl 1, Nat.zero_le room⟩
  | embedded => cases flat
  | embeddedList => cases flat
  | embeddedSet => cases flat
  | embeddedMap => cases flat

/-! ## Slots

The body of a slot is paid for wherever it lies, since to jump there is free and to read there is
not. -/

/-- Going on behind the bodies takes no byte. -/
theorem metered_finish (last : Nat) : Metered input (finish input last) fun spent _ => spent = 0 := by
  refine (Metered.offset (p := fun spent _ => spent = 0) fun _ => rfl).bind fun here spent free => ?_
  subst free
  simp only [Nat.zero_add]
  split
  · exact Metered.seek last
  · exact Metered.pure rfl

/-- A body that is jumped to has its price like one that is reached. -/
theorem metered_at {inner : BodyReader} {tag : TypeTag} {post : Nat → Value → Prop}
    (body : Metered input (inner tag) post) (target : Nat) :
    Metered input (readAt input inner tag target)
      fun spent placed => placed.tag = tag ∧ post spent placed.value := by
  refine Metered.checked (Metered.seek target) fun resume _ spent free => ?_
  subst free
  refine body.bind fun value price fact => ?_
  refine (Metered.offset (p := fun spent _ => spent = 0) fun _ => rfl).bind fun last more free => ?_
  subst free
  refine (Metered.seek resume).map fun more _ free => ?_
  subst free
  simp only [Nat.zero_add, Nat.add_zero, true_and]
  exact fact

/-- A reader of bodies whose values are paid for. -/
def PaidReader (context : Context) (input : List UInt8) (room : Nat) (read : BodyReader) : Prop :=
  ∀ tag, Metered input (read tag) (Value.Paid context tag.gift room)

/-- The tag in a slot makes up its size, with the four bytes of the pointer. -/
theorem metered_slotTag (pinned : Option TypeTag) :
    Metered input (readSlotTag input pinned) fun spent _ => 4 + spent = Slot.size pinned.isSome := by
  cases pinned with
  | some tag => exact Metered.pure rfl
  | none => exact Metered.tag.mono fun spent _ one => by rw [one]; rfl

section Containers

variable {room : Nat} {inner : BodyReader} (paid : PaidReader context input room inner)
include paid

/-- A slot takes its own bytes at least, and they pay for a value without a body. -/
theorem metered_slot (pinned : Option TypeTag) : Metered input (readSlot input inner pinned)
    fun spent placed => Slot.size pinned.isSome ≤ spent ∧
      (Placed.valueOf placed).Paid context 0 room spent := by
  refine Metered.checked Metered.word32 fun start pointer spent four => ?_
  refine (metered_slotTag pinned).bind fun tag more size => ?_
  split
  · -- the bytes of the pointer pay for the null value
    refine Metered.pure ⟨by omega, fun _ => ⟨?_, Nat.zero_le room⟩⟩
    show 1 ≤ spent + (more + 0) + 0
    omega
  · split
    · exact Metered.malformed
    · refine (metered_at (paid tag) _).map fun body placed fact => ⟨by omega, fun none => ?_⟩
      obtain ⟨light, shallow⟩ := fact.2 none
      have gift : tag.gift ≤ 1 := by cases tag <;> decide
      exact ⟨show placed.value.content ≤ spent + (more + body) + 0 by omega, shallow⟩

/-! ## Lists, sets and maps

A container holds its elements and one more thing, itself, and what pays for that is the byte of its
number. -/

/-- An element pays for itself: with its own tag, or with a body of at least one byte. -/
theorem metered_item {declared : TypeTag} (stored : declared ≠ .transient) :
    Metered input (readItem input inner declared) fun spent item =>
      item.Paid context 0 room spent := by
  by_cases any : declared = .any
  · subst any
    refine Metered.tag.bind fun tag spent one => ?_
    split
    · exact Metered.pure fun _ =>
        ⟨show 1 ≤ spent + 0 + 0 by omega, Nat.zero_le room⟩
    · refine (paid tag).mono fun more item fact none => ?_
      obtain ⟨light, shallow⟩ := fact none
      have gift : tag.gift ≤ 1 := by cases tag <;> decide
      exact ⟨by omega, shallow⟩
  · -- the element has no tag of its own to pay with, so its body must have bytes
    have own : readItem input inner declared = inner declared := by
      rw [readItem, readItemTag, if_neg any, pure_bind, if_neg any]
    have nothing : declared.gift = 0 := by
      cases declared <;> first | rfl | exact absurd rfl any | exact absurd rfl stored
    rw [own, ← nothing]
    exact paid declared

/-- The elements of a list are paid for by what was read of them, and nest no deeper than the bodies
one level down. -/
theorem metered_items : Metered input (readItems input inner) fun spent items =>
    context.registry = none → 1 + contentOfItems items ≤ spent ∧ nestingOfItems items ≤ room := by
  refine Metered.length.bind fun count spent positive => ?_
  refine Metered.checked Metered.tag fun start declared one single => ?_
  split
  · exact Metered.malformed
  · next stored =>
    -- both facts hold of the empty list, and one element more adds to the first and is compared in
    -- the second
    refine ((metered_item paid stored).times (q := fun spent items =>
      context.registry = none → contentOfItems items ≤ spent ∧ nestingOfItems items ≤ room)
      (fun _ => ⟨Nat.le_refl 0, Nat.zero_le room⟩)
      (fun first item later rest fact facts none => ?_) count).mono fun more items fact none => ?_
    · obtain ⟨light, shallow⟩ := fact none
      obtain ⟨light', shallow'⟩ := facts none
      rw [contentOfItems, nestingOfItems]
      exact ⟨by omega, Nat.max_le.mpr ⟨shallow, shallow'⟩⟩
    · obtain ⟨light, shallow⟩ := fact none
      exact ⟨by omega, shallow⟩

/-- What a map read so far holds, before entries with one key fall together. -/
theorem metered_member : Metered input (readMember input inner) fun spent member =>
    context.registry = none →
      (Utf8.encode member.1).length + (Placed.valueOf member.2).content ≤ spent ∧
      (Placed.valueOf member.2).nesting ≤ room := by
  refine metered_mapKey.bind fun key spent long => (metered_slot paid none).map
    fun more placed fact none => ?_
  obtain ⟨light, shallow⟩ := fact.2 none
  exact ⟨show (Utf8.encode key).length + (Placed.valueOf placed).content ≤ _ by omega, shallow⟩

/-- The members of a map are paid for by what was read of them: the keys in the header, and each
body where its slot points. -/
theorem metered_map : Metered input (readMap input inner) fun spent members =>
    context.registry = none →
      1 + contentOfMembers members ≤ spent ∧ nestingOfMembers members ≤ room := by
  let valued : String × Option Placed → String × Value :=
    fun member => (member.1, Placed.valueOf member.2)
  refine Metered.length.bind fun count spent positive => ?_
  -- as for lists, with the keys counted too
  refine ((metered_member paid).times (q := fun spent members => context.registry = none →
    contentOfMembers (members.map valued) ≤ spent ∧ nestingOfMembers (members.map valued) ≤ room)
    (fun _ => ⟨Nat.le_refl 0, Nat.zero_le room⟩)
    (fun first member later rest fact facts none => ?_) count).bind fun members more facts => ?_
  · obtain ⟨light, shallow⟩ := fact none
    obtain ⟨light', shallow'⟩ := facts none
    rw [List.map_cons, contentOfMembers, nestingOfMembers]
    exact ⟨by omega, Nat.max_le.mpr ⟨shallow, shallow'⟩⟩
  · -- a key that comes twice keeps one member of the two, so the map holds no more than was read
    refine (metered_finish _).map fun rest _ free none => ?_
    obtain ⟨light, shallow⟩ := facts none
    have lighter := OrderedMap.sum_ofList_le
      (fun member => (Utf8.encode member.1).length + member.2.content) (members.map valued)
    rw [← contentOfMembers_eq, ← contentOfMembers_eq] at lighter
    show 1 + contentOfMembers (OrderedMap.ofList (members.map valued)) ≤ spent + (more + rest) ∧
      nestingOfMembers (OrderedMap.ofList (members.map valued)) ≤ room
    rw [nestingOfMembers_le_iff] at shallow ⊢
    exact ⟨by omega, fun member there => shallow member (OrderedMap.mem_of_mem_ofList there)⟩

end Containers

/-! ## Records

The walk over a header may bind nothing for an entry, and pays for it all the same.  So the bound is
over what was bound, and the walk ends because each entry is paid for. -/

/-- The heading of a field takes a byte at least. -/
theorem metered_heading : Metered input (readHeading context input) fun spent _ => 0 < spent := by
  refine Metered.checked Metered.varint32 fun start lead spent positive => ?_
  dsimp only
  split
  · exact Metered.pure positive
  · split
    · -- a name of some length, which stands in the header
      refine (Metered.take _).bind fun bytes more _ => ?_
      cases Utf8.decode bytes with
      | error cause => exact Metered.malformed
      | ok name => exact Metered.pure (by omega)
    · -- a property, which the schema names
      cases property? context (Int32.ofInt (-lead.toInt - 1)) with
      | none => exact Metered.throw
      | some property => exact Metered.pure positive

/-- Fields were added, and they are paid for. -/
def PaidFields (context : Context) (room : Nat) (target : Record) (spent : Nat) (made : Record) :
    Prop :=
  ∃ added, Grown target made added ∧
    (context.registry = none → contentOfFields added ≤ spent ∧ nestingOfFields added ≤ room)

theorem PaidFields.refl (room : Nat) (target : Record) :
    PaidFields context room target 0 target :=
  ⟨[], Grown.refl target, fun _ => ⟨Nat.le_refl 0, Nat.zero_le room⟩⟩

/-- What is paid for with some bytes is paid for with more. -/
theorem PaidFields.mono {room spent more : Nat} {target made : Record}
    (fields : PaidFields context room target spent made) (le : spent ≤ more) :
    PaidFields context room target more made := by
  obtain ⟨added, grown, price⟩ := fields
  exact ⟨added, grown, fun none => ⟨Nat.le_trans (price none).1 le, (price none).2⟩⟩

/-- A field that is paid for on its own is paid for with those bound behind it. -/
theorem PaidFields.bind {room spent later : Nat} {target made : Record} {name : String}
    {value : Value} {pinned : Option TypeTag} (one : value.Paid context 0 room spent)
    (rest : PaidFields context room (target.bind name value pinned) later made) :
    PaidFields context room target (spent + later) made := by
  obtain ⟨added, grown, price⟩ := rest
  refine ⟨_, grown.bind, fun none => ?_⟩
  obtain ⟨light, shallow⟩ := one none
  obtain ⟨light', shallow'⟩ := price none
  rw [contentOfFields, nestingOfFields]
  exact ⟨by omega, Nat.max_le.mpr ⟨shallow, shallow'⟩⟩

section Records

variable {room : Nat} {inner : BodyReader} (paid : PaidReader context input room inner)
include paid

/-- The induction is on the room for entries; each entry adds its own field at its own price. -/
theorem metered_fields (projection : Option (List String)) :
    ∀ (entries last bound : Nat) (target : Record),
    Metered input (readFieldsInto context input inner projection entries last bound target)
      fun spent made => PaidFields context room target spent made.2 := by
  intro entries
  induction entries with
  | zero =>
    intro last bound target
    rw [readFieldsInto_zero]
    exact (Metered.offset (p := fun _ _ => True) fun _ => trivial).bind fun start _ _ =>
      Metered.malformed
  | succ entries ih =>
    intro last bound target
    rw [readFieldsInto_succ]
    refine metered_heading.bind fun heading spent positive => ?_
    cases heading with
    | none => exact Metered.pure ((PaidFields.refl room target).mono (Nat.zero_le _))
    | some heading =>
      dsimp only
      split
      · -- an entry that is stepped over adds nothing
        refine (Metered.skip _).bind fun _ more _ => ?_
        exact (ih last bound target).mono fun later made fields => fields.mono (by omega)
      · refine (metered_slot paid heading.pinned).bind fun placed more slot => ?_
        cases projection with
        | none =>
          exact (ih _ _ _).mono fun later made fields =>
            (PaidFields.bind slot.2 fields).mono (by omega)
        | some wanted =>
          dsimp only
          split
          · exact Metered.pure ((PaidFields.bind slot.2 (PaidFields.refl room _)).mono (by omega))
          · exact (ih _ _ _).mono fun later made fields =>
              (PaidFields.bind slot.2 fields).mono (by omega)

/-- The class name and the end of the header are paid for besides the fields. -/
theorem metered_record (projection : Option (List String)) (target : Record) :
    Metered input (readRecordInto context input inner projection target) fun spent made =>
      ∃ className more, (Utf8.encode className).length + more < spent ∧
        PaidFields context room (Binder.named className target) more made := by
  refine Metered.string.bind fun className spent long => ?_
  refine (metered_fields paid projection _ 0 0 _).bind fun made more fields => ?_
  exact (metered_finish made.1).map fun rest _ free => ⟨className, more, by omega, fields⟩

/-- An embedded record is paid for by what was read of it, and nests one level deeper than its
fields.  Where it bears the mark of an object and something is registered, it is not the record that
comes back, and nothing is said of what a factory makes of it. -/
theorem metered_embedded : Metered input (readEmbedded context input inner)
    (Value.Paid context 0 (room + 1)) := by
  rw [readEmbedded, onNew_readRecord]
  refine (metered_record paid none Record.new).bind fun record spent fact => ?_
  obtain ⟨className, more, price, added, grown, paid⟩ := fact
  -- what no factory makes is the record itself
  have owned : Metered input (pure (Value.embedded { record with isEmbedded := true }))
      fun more => Value.Paid context 0 (room + 1) (spent + more) := by
    refine Metered.pure fun none => ?_
    obtain ⟨light, shallow⟩ := paid none
    -- an empty class name is no class name, which makes the record only lighter
    have name : (Utf8.encode (record.className.getD "")).length
        ≤ (Utf8.encode className).length := by
      rw [grown, Binder.named]
      split
      · exact Nat.zero_le _
      · exact Nat.le_refl _
    have fields : record.fields = added := by
      rw [grown, Binder.named]
      split <;> rfl
    refine ⟨?_, ?_⟩
    · rw [Value.content, Record.content, fields]
      omega
    · rw [Value.nesting, Record.nesting, fields]
      omega
  cases record.field? Record.serializableClassField with
  | none => exact owned
  | some marker =>
    cases marker with
    | string className =>
      cases registered : context.registry with
      | none => exact Metered.throw
      | some registry =>
        dsimp only
        cases registry.makeSerializable className
            (record.remove Record.serializableClassField).2 with
        -- an object is as large as its factory makes it, and nothing is said of that
        | error e => exact Metered.throw
        | ok object => exact Metered.pure fun none => by rw [registered] at none; cases none
    | _ => exact owned

end Records

/-! ## Bodies at every level

The level that a container costs is what bounds the nesting; the budget bounds everything else. -/

/-- The price of a container pays for one level of nesting. -/
theorem paid_container {α : Type} {room : Nat} {read : Decoder α} {wrap : α → Value}
    {content nesting : α → Nat}
    (metered : Metered input read fun spent a => context.registry = none →
      1 + content a ≤ spent ∧ nesting a ≤ room)
    (whole : ∀ a, (wrap a).content = 1 + content a ∧ (wrap a).nesting = nesting a + 1) :
    Metered input (read >>= fun a => pure (wrap a)) (Value.Paid context 0 (room + 1)) := by
  refine metered.map fun spent a fact none => ?_
  obtain ⟨light, shallow⟩ := fact none
  rw [(whole a).1, (whole a).2]
  exact ⟨light, Nat.succ_le_succ shallow⟩

/-- One level more of containers, given that the readers inside them are paid. -/
theorem paid_bodyWith (room : Nat) (inner : Except CodecError BodyReader)
    (paid : ∀ read, inner = .ok read → ∃ less, room = less + 1 ∧ PaidReader context input less read) :
    PaidReader context input room (readBodyWith context input inner) := by
  intro tag
  cases flat : tag.isContainer with
  | false =>
    rw [readBodyWith_flat context input flat]
    exact metered_scalar tag room flat
  | true =>
    cases inner with
    -- where no level is left a container is refused before a byte of it is read
    | error e => cases tag <;> first | exact Metered.throw | cases flat
    | ok read =>
      -- a container costs a level, which is one more than its contents have
      obtain ⟨less, rfl, inside⟩ := paid read rfl
      cases tag with
      | embedded => exact metered_embedded inside
      | embeddedList => exact paid_container (metered_items inside) fun _ => ⟨rfl, rfl⟩
      | embeddedSet => exact paid_container (metered_items inside) fun _ => ⟨rfl, rfl⟩
      | embeddedMap => exact paid_container (metered_map inside) fun _ => ⟨rfl, rfl⟩
      | _ => cases flat

/-- Every value is paid for, however deep it is allowed to nest. -/
theorem paid_body (context : Context) (input : List UInt8) (room : Nat) :
    PaidReader context input room (readBody context input room) := by
  induction room with
  | zero => exact paid_bodyWith 0 _ fun read none => by cases none
  | succ room ih =>
    refine paid_bodyWith (room + 1) _ fun read same => ⟨room, rfl, ?_⟩
    cases same
    exact ih

/-! ## The walk ends by itself

The walk is given as many entries as the input has bytes, and one more.  It never gets to the end of
them: each entry takes a byte that is paid for, and so the budget runs out before. -/

/-- Every entry hands out a byte, so a walk that has more room than the budget has bytes never
runs out of it: still more room changes nothing. -/
theorem readFieldsInto_room {room : Nat} {inner : BodyReader}
    (paid : PaidReader context input room inner) (projection : Option (List String)) (more : Nat) :
    ∀ (entries last bound : Nat) (target : Record) (here : Cursor),
    here.visited ≤ input.length → input.length < here.visited + entries →
    readFieldsInto context input inner projection (entries + more) last bound target here
      = readFieldsInto context input inner projection entries last bound target here := by
  intro entries
  induction entries with
  | zero =>
    -- there is budget left, so there is room left
    intro last bound target here within enough
    omega
  | succ entries ih =>
    intro last bound target here within enough
    rw [Nat.add_right_comm, readFieldsInto_succ, readFieldsInto_succ]
    cases read : readHeading context input here with
    | error e there => rw [run_bind_of_error read, run_bind_of_error read]
    | ok heading there =>
      rw [run_bind_of_ok read, run_bind_of_ok read]
      -- the byte that the heading took is what the entry costs of the room
      obtain ⟨spent, price, positive, kept, -⟩ := metered_heading.ok read
      have within' := kept within
      cases heading with
      | none => rfl
      | some heading =>
        dsimp only
        split
        · cases skipped : Cursor.skip input (Slot.size heading.pinned.isSome) there with
          | error e next => rw [run_bind_of_error skipped, run_bind_of_error skipped]
          | ok _ next =>
            rw [run_bind_of_ok skipped, run_bind_of_ok skipped]
            obtain ⟨spent', price', -, kept', -⟩ := (Metered.skip _).ok skipped
            exact ih last bound target next (kept' within') (by omega)
        · cases slot : readSlot input inner heading.pinned there with
          | error e next => rw [run_bind_of_error slot, run_bind_of_error slot]
          | ok placed next =>
            rw [run_bind_of_ok slot, run_bind_of_ok slot]
            obtain ⟨spent', price', -, kept', -⟩ := (metered_slot paid _).ok slot
            have within'' := kept' within'
            cases projection with
            | none => exact ih _ _ _ next within'' (by omega)
            | some wanted =>
              dsimp only
              split
              · rfl
              · exact ih _ _ _ next within'' (by omega)

end Decoding

/-! ## Whole decodings

What the walk over the outermost header binds is what the target has more in the end. -/

open Decoding in
/-- **Decoding hostile input is bounded.**  Without a registry, whatever the input, the place to
begin at, the schema, the projection and the target are: no more bytes are handed out than there
are, be it up to an answer or up to a failure; the fields that were added hold no more than the
bytes handed out, and nest no deeper than the settings allow.  And no walk over a header, on any
level, ends for want of room: with any more of it, it would run alike. -/
theorem Record.decodeFrom_bounded (context : Context) (unregistered : context.registry = none)
    (input : List UInt8) (projection : Option (List String)) (target : Record) (here : Cursor) :
    (match Record.decodeFrom context input projection ⟨here, target⟩ with
      | .ok _ final =>
        final.cursor.visited ≤ input.length ∧ ∃ added,
          final.target.fields = target.fields ++ added ∧
          contentOfFields added ≤ final.cursor.visited ∧
          nestingOfFields added ≤ context.options.maxDepth
      | .error _ final => final.cursor.visited ≤ input.length) ∧
    ∀ (room more last bound : Nat) (wanted : Option (List String)) (partial' : Record)
        (there : Cursor), there.visited ≤ input.length →
      readFieldsInto context input (readBody context input room) wanted
          (input.length + 1 + more) last bound partial' there
        = readFieldsInto context input (readBody context input room) wanted
          (input.length + 1) last bound partial' there := by
  constructor
  · have metered := metered_record (paid_body context input context.options.maxDepth)
      projection target
    cases run : Record.decodeFrom context input projection ⟨here, target⟩ with
    | ok _ final =>
      obtain ⟨there, made⟩ := final
      -- what the walk said of the fields it added, with the budget counted from where it began,
      -- which is 0
      obtain ⟨spent, price, ⟨className, more, rest, added, grown, fair⟩, kept, -⟩ :=
        metered.ok ((Record.decodeFrom_ok_iff context input projection).mp run)
      obtain ⟨light, shallow⟩ := fair unregistered
      have within : there.visited ≤ input.length := kept (Nat.zero_le _)
      refine ⟨within, added, ?_, ?_, shallow⟩
      · show made.fields = _
        rw [grown, Binder.named]
        split <;> rfl
      · show contentOfFields added ≤ there.visited
        rw [price]
        show contentOfFields added ≤ 0 + spent
        omega
    | error e final =>
      obtain ⟨there, made⟩ := final
      exact metered.error
        ((Record.decodeFrom_error_iff context input projection).mp ⟨made, run⟩) (Nat.zero_le _)
  · intro room more last bound wanted partial' there within
    exact readFieldsInto_room (paid_body context input room) wanted more _ last bound partial'
      there within (by omega)

/-- The slot of the field `a` points back into the header, at the field's own name: the name is
read once more, as a string, and that takes the last two bytes of the budget. -/
theorem Record.decodeFrom_bounded_slot_into_header :
    let input : List UInt8 := [0, 1, 97, 0, 0, 0, 1, 7, 0, 0, 0]
    let made : Record := ⟨none, RecordId.empty, [⟨"a", .string "a", some .string⟩], false⟩
    Record.decodeFrom {} input none ⟨Cursor.start, Record.new⟩ = .ok () ⟨⟨9, 11⟩, made⟩ ∧
      (⟨9, 11⟩ : Cursor).visited ≤ input.length ∧ ∃ added, made.fields = [] ++ added ∧
        contentOfFields added ≤ 11 ∧ nestingOfFields added ≤ 32 :=
  have run : Record.decodeFrom {} [0, 1, 97, 0, 0, 0, 1, 7, 0, 0, 0] none ⟨Cursor.start, Record.new⟩
      = .ok () ⟨⟨9, 11⟩, ⟨none, RecordId.empty, [⟨"a", .string "a", some .string⟩], false⟩⟩ := rfl
  have bounded := (Record.decodeFrom_bounded {} rfl [0, 1, 97, 0, 0, 0, 1, 7, 0, 0, 0] none
    Record.new Cursor.start).1
  ⟨run, by rw [run] at bounded; exact bounded⟩

end DocumentCodec
