import DocumentCodec.Proofs.Emission
import DocumentCodec.Proofs.Normal
/-!
# Records and maps as tables of members

A record and a map are written by one rule: a head, the labels and slots of the members, a tail, and
the bodies in the order of the slots.  What tells their members apart is data: the label, whether a
schema pins the type, the tag the body is to be written under, and the type that is declared for the
elements of a collection.

So a fact about tables is proved once, for members, and holds for records and for maps.
-/

namespace DocumentCodec

/-- A member of a table, before its body is written. -/
structure Member where
  /-- the field that failures are reported for -/
  field : String
  label : List UInt8
  pinned : Bool
  value : Value
  tag : Except Unsupported TypeTag
  linked : Option TypeTag

namespace Member

/-- The entry of a member, given the writer for bodies. -/
def entry (inner : BodyWriter) (member : Member) : Entry where
  label := member.label
  pinned := member.pinned
  body := Encoding.writeSlotBody member.field member.value member.tag fun tag =>
    inner member.field tag member.linked member.value

/-- The entry of the first member stands before those of the others. -/
theorem encodeAll_cons (inner : BodyWriter) (member : Member) (rest : List Member)
    (fillings : List (Option Filling)) :
    Entry.encodeAll ((member :: rest).map (entry inner)) fillings
      = member.label ++ Slot.encode member.pinned fillings.head?.join
        ++ Entry.encodeAll (rest.map (entry inner)) fillings.tail := rfl

/-- The member that a field of a record of some class is. -/
def ofField (context : Context) (className : Option String) (field : Field) : Member :=
  match Encoding.property? context className field.name with
  | some property =>
    { field := field.name
      label := Varint.encodeSigned (Int64.ofInt (-property.id.toInt - 1))
      pinned := property.concreteType?.isSome
      value := field.value
      tag := Encoding.fieldTag field property.concreteType?
      linked := property.linked }
  | none =>
    { field := field.name
      label := Varint.encode (UInt64.ofNat (Utf8.encode field.name).length)
        ++ Utf8.encode field.name
      pinned := false
      value := field.value
      tag := Encoding.fieldTag field none
      linked := none }

/-- The member that an entry of a map is; `field` is the one that holds the map. -/
def ofPair (field : String) (pair : String × Value) : Member where
  field := field
  label := Encoding.keyBytes pair.1
  pinned := false
  value := pair.2
  tag :=
    match pair.2.naturalTag with
    | some tag => .ok tag
    | none => .error .untypedMapValue
  linked := none

variable (context : Context) (className : Option String) (field : Field)

@[simp] theorem field_ofField : (ofField context className field).field = field.name := by
  rw [ofField]
  cases Encoding.property? context className field.name <;> rfl

@[simp] theorem value_ofField : (ofField context className field).value = field.value := by
  rw [ofField]
  cases Encoding.property? context className field.name <;> rfl

@[simp] theorem tag_ofField : (ofField context className field).tag
    = Encoding.fieldTag field (pinnedTag context className field.name) := by
  rw [ofField, pinnedTag]
  cases Encoding.property? context className field.name <;> rfl

@[simp] theorem linked_ofField : (ofField context className field).linked
    = linkedTag context className field.name := by
  rw [ofField, linkedTag]
  cases Encoding.property? context className field.name <;> rfl

variable {context className field}

/-- What stands in a header for a field depends on its name alone. -/
theorem label_ofField {other : Field} (same : field.name = other.name) :
    (ofField context className field).label = (ofField context className other).label ∧
      (ofField context className field).pinned = (ofField context className other).pinned := by
  rw [ofField, ofField, same]
  cases Encoding.property? context className other.name with
  | none => exact ⟨rfl, rfl⟩
  | some property => exact ⟨rfl, rfl⟩

/-- Two fields of one name and one value are one member, if they are written under one tag. -/
theorem ofField_congr {other : Field} (sameName : field.name = other.name)
    (sameValue : field.value = other.value)
    (sameTag : Encoding.fieldTag field (pinnedTag context className field.name)
      = Encoding.fieldTag other (pinnedTag context className field.name)) :
    ofField context className field = ofField context className other := by
  rw [pinnedTag] at sameTag
  rw [ofField, ofField, ← sameName]
  cases known : Encoding.property? context className field.name with
  | none =>
    rw [known] at sameTag
    simp only [sameName, sameValue]
    exact congrArg (Member.mk _ _ _ _ · _) sameTag
  | some property =>
    rw [known] at sameTag
    simp only [sameName, sameValue]
    exact congrArg (Member.mk _ _ _ _ · _) sameTag

end Member

namespace Encoding

/-- A key stands whole in its bytes. -/
theorem length_le_keyBytes (key : String) :
    (Utf8.encode key).length < (keyBytes key).length := by
  rw [keyBytes, List.cons_append, List.length_cons, List.length_append]
  omega

variable {context : Context} {inner : BodyWriter}

/-- The entry of a field is that of a member, whether it is headed by a name or an id. -/
theorem fieldEntry_eq (className : Option String) (field : Field) :
    fieldEntry context inner className field
      = (Member.ofField context className field).entry inner := by
  rw [fieldEntry, Member.ofField]
  cases property? context className field.name with
  | none => rfl
  | some property => rfl

/-- The members of a record: its fields but those that leave no trace. -/
def recordMembers (context : Context) (record : Record) : List Member :=
  (record.fields.filter (!isOmitted ·)).map (Member.ofField context record.className)

/-- The members of a map: its entries but those that leave no trace. -/
def mapMembers (field : String) (pairs : List (String × Value)) : List Member :=
  (pairs.filter (!·.2.isTransient)).map (Member.ofPair field)

/-- What stands before the members of a record: its class name. -/
def recordHead (record : Record) : List UInt8 :=
  let className := Utf8.encode (record.className.getD "")
  Varint.encode (UInt64.ofNat className.length) ++ className

/-- What stands before the members of a map: how many there are. -/
def mapHead (pairs : List (String × Value)) : List UInt8 :=
  Varint.encode (UInt64.ofNat (pairs.filter (!·.2.isTransient)).length)

/-- **A record is a table of its fields.** -/
theorem writeRecord_eq (record : Record) :
    writeRecord context inner record
      = writeTable (recordHead record) ((recordMembers context record).map (Member.entry inner))
          (Varint.encode headerEnd) := by
  have entries : (record.fields.filter (!isOmitted ·)).map
      (fieldEntry context inner record.className)
      = (recordMembers context record).map (Member.entry inner) := by
    rw [recordMembers, List.map_map]
    exact List.map_congr_left fun field _ => fieldEntry_eq record.className field
  rw [writeRecord, entries]
  rfl

/-- **A map is a table of its members**, with no byte between the header and the bodies. -/
theorem writeMap_eq (field : String) (pairs : List (String × Value)) :
    writeMap inner field pairs
      = writeTable (mapHead pairs) ((mapMembers field pairs).map (Member.entry inner)) [] := by
  rw [mapMembers, List.map_map]
  rfl

end Encoding

/-! ## What a table that was written tells of each member -/

/-- The label of each member stands in the header. -/
theorem Member.label_le_encodeAll (inner : BodyWriter) : ∀ {members : List Member}
    (fillings : List (Option Filling)) {member : Member}, member ∈ members →
    member.label.length ≤ (Entry.encodeAll (members.map (Member.entry inner)) fillings).length := by
  intro members
  induction members with
  | nil =>
    intro fillings member there
    cases there
  | cons first rest ih =>
    intro fillings member there
    rw [List.map_cons, Entry.encodeAll, List.length_append, List.length_append]
    rcases List.mem_cons.mp there with rfl | later
    · show _ ≤ member.label.length + _ + _
      omega
    · have deeper := ih fillings.tail later
      omega

/-- Only a value that is not null has a body. -/
theorem Member.notNull_of_body {write : BodyWriter} {member : Member} {body : Encoder TypeTag}
    (there : (member.entry write).body = some body) : member.value.isNull = false := by
  rw [entry, Encoding.writeSlotBody] at there
  split at there
  · cases there
  · next notNull => exact Bool.eq_false_iff.mpr notNull

/-- The body of each member was written behind the header, if it has one. -/
theorem Member.slotBody_of_mem {inner : BodyWriter} : ∀ {members : List Member} {start : Nat}
    {earlier calls : List LinkTarget} {fillings : List (Option Filling)} {bytes : List UInt8},
    Bodies.write ((members.map (entry inner)).map (·.body)) start earlier
      = ⟨fillings, bytes, calls, .ok ()⟩ →
    ∀ member ∈ members, ∃ place asked filling own made, start ≤ place ∧
      SlotBody member.value member.tag (fun tag => inner member.field tag member.linked member.value)
        place asked filling own made := by
  intro members
  induction members with
  | nil =>
    intro start earlier calls fillings bytes run member there
    cases there
  | cons first rest ih =>
    intro start earlier calls fillings bytes run member there
    obtain ⟨_, _, _, _, _, _, body, later, -, -, -⟩ := Bodies.write_cons_eq_ok run
    rcases List.mem_cons.mp there with rfl | inside
    · exact ⟨start, _, _, _, _, Nat.le_refl _, body⟩
    · obtain ⟨place, _, _, _, _, behind, body⟩ := ih later member inside
      exact ⟨place, _, _, _, _, by omega, body⟩

/-! ## What was written in turn

Elements are written one behind the other, and so are the bodies of a table.  For what is told by
the calls of the resolver and the number of bytes, it is the same which of the two they are. -/

/-- What is known of things that were written in turn, each from what the resolver was asked for
before it, what was asked for then, and how many bytes it took; `size` is how many they took
together. -/
inductive InTurn {α : Type} (one : α → (earlier calls : List LinkTarget) → (size : Nat) → Prop) :
    List α → (earlier calls : List LinkTarget) → (size : Nat) → Prop where
  | nil {earlier : List LinkTarget} : InTurn one [] earlier [] 0
  | cons {a : α} {rest : List α} {earlier calls later : List LinkTarget} {size more : Nat}
      (first : one a earlier calls size) (others : InTurn one rest (earlier ++ calls) later more) :
      InTurn one (a :: rest) earlier (calls ++ later) (size + more)

namespace InTurn

variable {α : Type} {one : α → List LinkTarget → List LinkTarget → Nat → Prop}

/-- What is said of each element may be weakened. -/
theorem mono {other : α → List LinkTarget → List LinkTarget → Nat → Prop} {items : List α}
    {earlier calls : List LinkTarget} {size : Nat} (told : InTurn one items earlier calls size)
    (weaker : ∀ a earlier calls size, one a earlier calls size → other a earlier calls size) :
    InTurn other items earlier calls size := by
  induction told with
  | nil => exact .nil
  | cons first _ ih => exact .cons (weaker _ _ _ _ first) ih

/-- There are no more things than bytes, if each of them takes one. -/
theorem length_le {items : List α} {earlier calls : List LinkTarget} {size : Nat}
    (told : InTurn one items earlier calls size)
    (positive : ∀ a earlier calls size, one a earlier calls size → 0 < size) :
    items.length ≤ size := by
  induction told with
  | nil => exact Nat.le_refl 0
  | cons first _ ih =>
    have here := positive _ _ _ _ first
    rw [List.length_cons]
    omega

/-- Elements that were all written, in few enough bytes for a length. -/
theorem of_forM {write : α → Encoder Unit} : ∀ {items : List α} {start : Nat}
    {earlier calls : List LinkTarget} {bytes : List UInt8},
    (∀ a ∈ items, ∀ {start earlier bytes calls}, write a start earlier = ⟨bytes, calls, .ok ()⟩ →
      bytes.length < 2 ^ 31 → one a earlier calls bytes.length) →
    items.forM write start earlier = ⟨bytes, calls, .ok ()⟩ → bytes.length < 2 ^ 31 →
    InTurn one items earlier calls bytes.length := by
  intro items
  induction items with
  | nil =>
    intro start earlier calls bytes _ run _
    cases run
    exact .nil
  | cons a rest ih =>
    intro start earlier calls bytes each run short
    rw [Encoder.forM_cons] at run
    obtain ⟨_, _, _, _, _, first, later, rfl, rfl⟩ := Encoder.bind_eq_ok.mp run
    rw [List.length_append] at short ⊢
    exact .cons (each a List.mem_cons_self first (by omega))
      (ih (fun other there => each other (List.mem_cons_of_mem _ there)) later (by omega))

/-- Members whose bodies were all written, in few enough bytes for a length. -/
theorem of_bodies {inner : BodyWriter} {member : α → Member} : ∀ {items : List α} {start : Nat}
    {earlier calls : List LinkTarget} {fillings : List (Option Filling)} {bytes : List UInt8},
    (∀ a ∈ items, ∀ {place earlier filling bytes calls},
      SlotBody (member a).value (member a).tag
        (fun tag => inner (member a).field tag (member a).linked (member a).value) place earlier
        filling bytes calls → bytes.length < 2 ^ 31 → one a earlier calls bytes.length) →
    Bodies.write (((items.map member).map (Member.entry inner)).map (·.body)) start earlier
      = ⟨fillings, bytes, calls, .ok ()⟩ → bytes.length < 2 ^ 31 →
    InTurn one items earlier calls bytes.length := by
  intro items
  induction items with
  | nil =>
    intro start earlier calls fillings bytes _ run _
    cases run
    exact .nil
  | cons a rest ih =>
    intro start earlier calls fillings bytes each run short
    rw [List.map_cons, List.map_cons, List.map_cons] at run
    obtain ⟨_, _, _, _, _, _, body, later, -, rfl, rfl⟩ := Bodies.write_cons_eq_ok run
    rw [List.length_append] at short ⊢
    exact .cons (each a List.mem_cons_self body (by omega))
      (ih (fun other there => each other (List.mem_cons_of_mem _ there)) later (by omega))

end InTurn

end DocumentCodec
