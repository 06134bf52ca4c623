import DocumentCodec.Proofs.Members
import DocumentCodec.Proofs.Resolution.Trace
import DocumentCodec.Proofs.RoundTrip.Object
/-!
# When the resolver is asked

The events of a record are those of its fields in order, the events of a list or set those of its
elements in order, and those of a map the ones of its entries in ascending order of their keys;
bodies inside bodies come where they stand.  Links are what is written under the four tags of links,
an embedded record among them when it goes under `link`.

Every encoder runs through the events of what it writes (`Performs`).  That is closed under the
ways in which encoders are put together, so it holds of records by induction on the levels.
-/

namespace DocumentCodec

/-! ## The events of a value

What will be asked for, and what will be refused, is known from the values alone.  Only the verdict
on a link is not, and that is left to the run. -/

/-- The events of writing a value of a field under a tag, as `BodyWriter` writes it. -/
abbrev BodyEvents :=
  (field : String) → (tag : TypeTag) → (linked : Option TypeTag) → (value : Value) → List Event

/-- The links that a value is written as under a tag, if it is one of the tags of links. -/
def Value.links? : TypeTag → Value → Option (List (Option LinkTarget))
  | .link, .link target => some [some target]
  | .link, .embedded record => some [some (.record record)]
  | .linkList, .linkList items | .linkList, .linkSet items
  | .linkSet, .linkList items | .linkSet, .linkSet items => some items
  | .linkMap, .linkMap entries => some ((OrderedMap.ofList entries).map (·.2))
  | _, _ => none

/-- The events of a member of a table: those of its body, and that its slot has to reach it. -/
def Member.events (inner : BodyEvents) (member : Member) : List Event :=
  if member.value.isNull then []
  else
    match member.tag with
    | .error reason => [.refuse member.field member.value.kind reason]
    | .ok tag =>
      inner member.field tag member.linked member.value ++ [.reach member.field member.value.kind]

namespace Encoding

variable (context : Context)

/-- The events of a value that holds no others: links, or none unless it is refused. -/
def scalarEvents (field : String) (tag : TypeTag) (value : Value) : List Event :=
  match value.links? tag with
  | some items => items.map .link
  | none =>
    match (writeScalar context field tag value 0 []).result with
    | .error (.unsupportedValue field kind reason) => [.refuse field kind reason]
    | _ => []

/-- The events of an element of a list or set. -/
def itemEvents (inner : BodyEvents) (field : String) (linked : Option TypeTag) (item : Value) :
    List Event :=
  if item.isNull then []
  else
    match linked <|> item.naturalTag with
    | none => [.refuse field item.kind .untypedElement]
    | some tag => inner field tag none item

/-- The events of a record, field by field. -/
def recordEvents (inner : BodyEvents) (record : Record) : List Event :=
  (recordMembers context record).flatMap (Member.events inner)

/-- The events of a value, given those for one level deeper, if there is one. -/
def eventsWith (inner : Option BodyEvents) : BodyEvents := fun field tag linked value =>
  let deeper (events : BodyEvents → List Event) : List Event :=
    match inner with
    | none => [.tooDeep]
    | some inner => events inner
  match tag, value with
  | .embedded, .embedded record => deeper fun inner => recordEvents context inner record
  | .embedded, .serializable className record =>
    deeper fun inner => recordEvents context inner (markedRecord className record)
  | .embeddedList, .embeddedList items | .embeddedList, .embeddedSet items
  | .embeddedSet, .embeddedList items | .embeddedSet, .embeddedSet items =>
    deeper fun inner => (items.filter (!·.isTransient)).flatMap
      (itemEvents inner field (linked.filter (·.isConcrete)))
  | .embeddedMap, .embeddedMap pairs =>
    deeper fun inner => (mapMembers field (OrderedMap.ofList pairs)).flatMap (Member.events inner)
  | _, _ => scalarEvents context field tag value

/-- The events of a value with so many levels left. -/
def events : (room : Nat) → BodyEvents
  | 0 => eventsWith context none
  | room + 1 => eventsWith context (some (events room))

end Encoding

/-- The events of encoding a record. -/
def Record.events (context : Context) (record : Record) : List Event :=
  Encoding.recordEvents context (Encoding.events context context.options.maxDepth) record

/-! ## Performing

An encoder performs its events if it does what they say, in order, and stops at the first that
fails.  The offset at which it does so is not its own, so it is said of every one. -/

namespace Encoder

variable {α β : Type} {context : Context}

/-- The encoder runs through the events, wherever its bytes stand. -/
def Performs (context : Context) (x : Encoder α) (events : List Event) : Prop :=
  ∀ start earlier buffer, Holds buffer start (x start earlier).bytes →
    Runs context buffer start earlier events (x start earlier).calls
      (start + (x start earlier).bytes.length) ((x start earlier).result.map fun _ => ())

/-- What depends on where it stands is told so. -/
theorem position_bind (f : Nat → Encoder β) (start : Nat) (earlier : List LinkTarget) :
    (position >>= f) start earlier = f start start earlier := by
  have first : position start earlier = ⟨[], [], .ok start⟩ := rfl
  rw [bind_of_ok first]
  simp

theorem emit_bind_emit (bytes more : List UInt8) :
    (emit bytes >>= fun _ => emit more) = emit (bytes ++ more) := rfl

namespace Performs

variable {x : Encoder α} {f : α → Encoder β} {events more : List Event}

theorem pure (a : α) : Performs context (Pure.pure a : Encoder α) [] :=
  fun _ _ _ _ => .done (Nat.le_add_right _ _)

theorem emit (bytes : List UInt8) : Performs context (Encoder.emit bytes) [] :=
  fun _ _ _ _ => .done (Nat.le_add_right _ _)

theorem refuse (field : String) (value : Value) (reason : Unsupported) :
    Performs context (Encoding.refuse field value reason : Encoder α)
      [.refuse field value.kind reason] :=
  fun _ _ _ _ => .refused

theorem tooDeep : Performs context (Encoder.fail context.tooDeep : Encoder α) [.tooDeep] :=
  fun _ _ _ _ => .tooDeep

/-- The events of a sequence are those of its parts. -/
theorem bind (first : Performs context x events) (second : ∀ a, Performs context (f a) more) :
    Performs context (x >>= f) (events ++ more) := by
  intro start earlier buffer holds
  rcases run : x start earlier with ⟨bytes, calls, result⟩
  have ran := first start earlier buffer
  rw [run] at ran
  cases result with
  | error e =>
    rw [bind_of_error run] at holds ⊢
    -- a failing part ends the run before the events behind it
    exact (ran holds).cut more
  | ok a =>
    rw [bind_of_ok run] at holds ⊢
    have later := second a (start + bytes.length) (earlier ++ calls) buffer holds.right
    rw [List.length_append, ← Nat.add_assoc]
    exact (ran holds.left).append later

/-- The events of a sequence over a list are those of the elements in turn. -/
theorem forM {write : α → Encoder Unit} {perform : α → List Event} (items : List α)
    (each : ∀ item ∈ items, Performs context (write item) (perform item)) :
    Performs context (items.forM write) (items.flatMap perform) := by
  induction items with
  | nil => exact pure ()
  | cons item rest ih =>
    rw [forM_cons, List.flatMap_cons]
    exact (each item List.mem_cons_self).bind fun _ =>
      ih fun other there => each other (List.mem_cons_of_mem _ there)

end Performs
end Encoder

/-! ## Links -/

open Encoder

variable {context : Context}

/-- Writing a link asks for it if need be, and writes the identity of its verdict. -/
theorem Link.performs (item : Option LinkTarget) :
    Performs context (Link.writeElement context item) [.link item] := by
  intro start earlier buffer holds
  cases item with
  | none =>
    -- none is stored as the identity of the null link, and nothing is asked
    exact .stored rfl (Nat.le_refl _) holds (.done (Nat.le_refl _))
  | some target =>
    have resolved := Link.resolve_eq context target start earlier
    rcases verdict : Link.verdict context earlier (some target) with e | rid
    · rw [verdict] at resolved
      -- without an identity not a byte is written
      have failed : Link.write context target start earlier = _ := bind_of_error resolved
      rw [Link.writeElement, failed]
      exact .unresolved verdict
    · rw [verdict] at resolved
      have written : Link.write context target start earlier = _ := bind_of_ok resolved
      rw [Link.writeElement, written] at holds ⊢
      exact .stored verdict (Nat.le_refl _) holds (.done (Nat.le_refl _))

/-! ## Tables

A table performs the events of its bodies in the order of the slots, each with the check that its
slot can reach it; the labels perform none. -/

/-- A body for a slot that was written: then it is looked at whether the slot reaches it. -/
theorem Encoder.Performs.slotBody {write : Encoder Unit} {events : List Event}
    (performs : Performs context write events) (field : String) (value : Value) (tag : TypeTag) :
    Performs context
      (position >>= fun start => write >>= fun _ =>
        Encoding.checkPointer field value start >>= fun _ => Pure.pure tag)
      (events ++ [.reach field value.kind]) := by
  intro start earlier buffer
  -- the place that is checked is where the body begins
  rw [position_bind]
  rcases run : write start earlier with ⟨bytes, calls, result⟩
  have ran := performs start earlier buffer
  rw [run] at ran
  cases result with
  | error e =>
    rw [bind_of_error run]
    exact fun holds => (ran holds).cut _
  | ok _ =>
    rw [bind_of_ok run]
    intro holds
    rw [List.length_append, ← Nat.add_assoc]
    refine (ran holds.left).append ?_
    unfold Encoding.checkPointer
    -- where the body began is looked at last, when all its events took place
    by_cases far : Slot.maxPointer < start
    · rw [if_pos far]
      exact .beyond (by omega)
    · rw [if_neg far]
      exact .reached (.done (Nat.le_add_right _ _))

namespace Member

variable {write : BodyWriter} {inner : BodyEvents}

/-- The body of a member runs through its events. -/
theorem performs {member : Member} {body : Encoder TypeTag}
    (there : (member.entry write).body = some body)
    (each : ∀ tag, Performs context (write member.field tag member.linked member.value)
      (inner member.field tag member.linked member.value)) :
    Performs context body (member.events inner) := by
  unfold entry Encoding.writeSlotBody at there
  unfold events
  by_cases null : member.value.isNull = true
  · simp [null] at there
  · rw [if_neg null] at there ⊢
    obtain rfl := Option.some.inj there
    cases member.tag with
    | error reason =>
      have first : Performs context position [] := fun _ _ _ _ => .done (Nat.le_add_right _ _)
      exact first.bind fun _ => .refuse _ _ _
    | ok tag => exact (each tag).slotBody _ _ _

/-- A member without a body has no events. -/
theorem events_of_none {member : Member} (none : (member.entry write).body = none) :
    member.events inner = [] := by
  unfold entry Encoding.writeSlotBody at none
  by_cases null : member.value.isNull = true
  · simp [events, null]
  · simp [null] at none

/-- The bodies of a table run through the events of its members in turn. -/
theorem performs_bodies (members : List Member)
    (each : ∀ member ∈ members, ∀ tag,
      Performs context (write member.field tag member.linked member.value)
        (inner member.field tag member.linked member.value)) :
    ∀ start earlier buffer,
      let bodies := Bodies.write ((members.map (entry write)).map (·.body)) start earlier
      Holds buffer start bodies.bytes →
      Runs context buffer start earlier (members.flatMap (events inner)) bodies.calls
        (start + bodies.bytes.length) bodies.result := by
  induction members with
  | nil => exact fun _ _ _ _ => .done (Nat.le_add_right _ _)
  | cons member rest ih =>
    have others := ih fun other there => each other (List.mem_cons_of_mem _ there)
    intro start earlier buffer bodies
    subst bodies
    rw [List.map_cons, List.map_cons, List.flatMap_cons]
    cases there : (member.entry write).body with
    | none =>
      -- a null member has no events
      rw [events_of_none there]
      exact others start earlier buffer
    | some body =>
      have ran := performs there (each member List.mem_cons_self) start earlier buffer
      -- the bodies run one behind the other, up to the first that fails
      rw [Bodies.write]
      rcases run : body start earlier with ⟨bytes, calls, result⟩
      rw [run] at ran
      cases result with
      | error e => exact fun holds => (ran holds).cut _
      | ok tag =>
        intro holds
        have later := others (start + bytes.length) (earlier ++ calls) buffer holds.right
        show Runs context buffer start earlier _ _ (start + (bytes ++ _).length) _
        rw [List.length_append, ← Nat.add_assoc]
        exact (ran holds.left).append later

/-- A table runs through the events of its members, behind its header. -/
theorem performs_table (members : List Member) (head tail : List UInt8)
    (each : ∀ member ∈ members, ∀ tag,
      Performs context (write member.field tag member.linked member.value)
        (inner member.field tag member.linked member.value)) :
    Performs context (writeTable head (members.map (entry write)) tail)
      (members.flatMap (events inner)) := by
  intro start earlier buffer holds
  -- how long the header is does not depend on what is filled in
  have header (fillings : List (Option Filling)) :
      (head ++ Entry.encodeAll (members.map (entry write)) fillings ++ tail).length
        = head.length + Entry.sizeAll (members.map (entry write)) + tail.length := by
    rw [List.length_append, List.length_append, Entry.length_encodeAll]
  have bodies := holds.right
  rw [header] at bodies
  have ran := performs_bodies members each _ earlier buffer bodies
  have result (outcome : Except CodecError Unit) : outcome.map (fun _ => ()) = outcome := by
    cases outcome <;> rfl
  rw [result]
  refine ran.mono (Nat.le_add_right _ _) ?_
  show _ ≤ start + (_ ++ _ : List UInt8).length
  rw [List.length_append, header]
  omega

end Member

/-! ## Values that hold no others

A body without links performs no event but its own refusal, if it has one. -/

namespace Encoding

variable {field : String} {tag : TypeTag} {value : Value}

/-- A value that is not written as links is emitted at once or refused. -/
theorem writeScalar_quiet (plain : value.links? tag = none) :
    (∃ bytes, writeScalar context field tag value = emit bytes) ∨
      ∃ kind reason, writeScalar context field tag value
        = Encoder.fail (.unsupportedValue field kind reason) := by
  have refused (reason : Unsupported) : (∃ bytes, refuse field value reason = emit bytes) ∨
      ∃ kind reason', refuse field value reason
        = (Encoder.fail (.unsupportedValue field kind reason') : Encoder Unit) :=
    Or.inr ⟨_, _, rfl⟩
  have integer (tag : TypeTag) : (∃ bytes, writeInteger field tag value = emit bytes) ∨
      ∃ kind reason, writeInteger field tag value
        = Encoder.fail (.unsupportedValue field kind reason) := by
    unfold writeInteger
    split
    · exact refused _
    · split
      · exact Or.inl ⟨_, rfl⟩
      · exact refused _
  cases tag with
  | integer => exact integer _
  | long => exact integer _
  | short => exact integer _
  | string | byte | boolean | binary | linkBag | float =>
    unfold writeScalar
    dsimp only
    split
    · exact Or.inl ⟨_, rfl⟩
    · exact refused _
  | double =>
    unfold writeScalar
    dsimp only
    split
    · exact Or.inl ⟨_, rfl⟩
    · exact Or.inl ⟨_, rfl⟩
    · exact refused _
  | dateTime | date =>
    unfold writeScalar
    dsimp only
    split
    · exact Or.inl ⟨_, rfl⟩
    · exact Or.inl ⟨_, rfl⟩
    · exact Or.inl ⟨_, rfl⟩
    · exact refused _
  | decimal =>
    unfold writeScalar
    dsimp only
    split
    · unfold writeDecimal
      dsimp only
      split
      · exact Or.inr ⟨_, _, rfl⟩
      · split
        · exact Or.inr ⟨_, _, rfl⟩
        · exact Or.inl ⟨_, rfl⟩
    · exact refused _
  | custom =>
    unfold writeScalar
    dsimp only
    split
    · unfold writeCustom
      split
      · exact Or.inl ⟨_, emit_bind_emit _ _⟩
      · exact Or.inr ⟨_, _, rfl⟩
    · exact refused _
  | link | linkList | linkSet | linkMap =>
    -- what is a link under such a tag was excluded, and all else is refused
    cases value <;> first | exact refused _ | cases plain
  | _ => exact refused _

/-- The links of a value that is written as links are written in turn. -/
theorem performs_links (items : List (Option LinkTarget)) :
    Performs context (items.forM (Link.writeElement context)) (items.map .link) := by
  rw [List.map_eq_flatMap]
  exact Performs.forM items fun item _ => Link.performs item

/-- A list of links is written in turn behind its number. -/
theorem performs_writeLinks (items : List (Option LinkTarget)) :
    Performs context (writeLinks context items) (items.map .link) := by
  have number : Performs context (Encoder.varint items.length) [] := .emit _
  exact number.bind fun _ => performs_links items

/-- A map of links is written in turn, each link behind its key. -/
theorem performs_writeLinkMap (entries : List (String × Option LinkTarget)) :
    Performs context (writeLinkMap context entries) ((entries.map (·.2)).map .link) := by
  rw [List.map_map, List.map_eq_flatMap]
  have number : Performs context (Encoder.varint entries.length) [] := .emit _
  refine number.bind fun _ => Performs.forM entries fun entry _ => ?_
  have key : Performs context (emit (keyBytes entry.1)) [] := .emit _
  exact key.bind fun _ => Link.performs entry.2

/-- A value that holds no others runs through its events. -/
theorem performs_scalar (formed : value.isWellFormed = true) :
    Performs context (writeScalar context field tag value)
      (scalarEvents context field tag value) := by
  unfold scalarEvents
  cases links : value.links? tag with
  | none =>
    rcases writeScalar_quiet links with ⟨bytes, same⟩ | ⟨kind, reason, same⟩
    · rw [same]
      exact .emit bytes
    · rw [same]
      exact fun _ _ _ _ => .refused
  | some items =>
    unfold Value.links? at links
    -- one link or a linked record, then links in a list or set, then a map of links
    split at links
    case h_1 | h_2 =>
      cases links
      exact Link.performs (some _)
    case h_3 | h_4 | h_5 | h_6 =>
      cases links
      exact performs_writeLinks items
    case h_7 entries =>
      cases links
      have ordered : OrderedMap.Ascending entries :=
        of_decide_eq_true (Bool.and_eq_true_iff.mp formed).1
      rw [OrderedMap.ofList_eq_self ordered]
      exact performs_writeLinkMap entries
    case h_8 => cases links

/-! ## Bodies with bodies inside

Where a level is left the events inside are performed, and otherwise the container itself is
refused. -/

variable {write : BodyWriter} {inner : BodyEvents}
  (deeper : ∀ field tag linked value, Value.isWellFormed value = true →
    Performs context (write field tag linked value) (inner field tag linked value))
include deeper

/-- An element runs through its events behind its tag. -/
theorem performs_item {linked : Option TypeTag} {item : Value} (formed : item.isWellFormed = true) :
    Performs context (writeItem write field linked item) (itemEvents inner field linked item) := by
  unfold writeItem itemEvents
  by_cases null : item.isNull = true
  · rw [if_pos null, if_pos null]
    exact .emit _
  · rw [if_neg null, if_neg null]
    cases linked <|> item.naturalTag with
    | none => exact .refuse _ _ _
    | some tag =>
      have first : Performs context (Encoder.byte tag.id) [] := .emit _
      exact first.bind fun _ => deeper _ _ _ _ formed

/-- A list or a set performs the events of its elements in order.  The number and the tag in front
perform none. -/
theorem performs_items {linked : Option TypeTag} {items : List Value}
    (formed : wellFormedItems items = true) :
    Performs context (writeItems write field linked items)
      ((items.filter (!·.isTransient)).flatMap
        (itemEvents inner field (linked.filter (·.isConcrete)))) := by
  have number (n : Nat) : Performs context (Encoder.varint n) [] := .emit _
  have tagged : Performs context (Encoder.byte TypeTag.any.id) [] := .emit _
  refine (number _).bind fun _ => tagged.bind fun _ => Performs.forM _ fun item there => ?_
  exact performs_item deeper (wellFormedItems_iff.mp formed item (List.mem_filter.mp there).1)

/-- A map performs the events of its members in the order of their keys, as the bodies stand. -/
theorem performs_map {pairs : List (String × Value)} (ordered : OrderedMap.Ascending pairs)
    (formed : wellFormedEntries pairs = true) :
    Performs context (writeMap write field pairs)
      ((mapMembers field (OrderedMap.ofList pairs)).flatMap (Member.events inner)) := by
  rw [writeMap_eq, OrderedMap.ofList_eq_self ordered]
  refine Member.performs_table _ _ _ fun member there tag => deeper _ _ _ _ ?_
  obtain ⟨pair, kept, rfl⟩ := List.mem_map.mp there
  exact wellFormedEntries_iff.mp formed pair (List.mem_filter.mp kept).1

/-- A record performs the events of its fields in order. -/
theorem performs_record {record : Record}
    (formed : ∀ field ∈ record.fields, field.value.isWellFormed = true) :
    Performs context (writeRecord context write record) (recordEvents context inner record) := by
  rw [writeRecord_eq]
  refine Member.performs_table _ _ _ fun member there tag => deeper _ _ _ _ ?_
  obtain ⟨field, kept, rfl⟩ := List.mem_map.mp there
  rw [Member.value_ofField]
  exact formed field (List.mem_filter.mp kept).1

omit deeper in
/-- A record that is in order still is with the mark of an object, which is a text. -/
theorem formed_markedRecord {className : String} {record : Record}
    (formed : ∀ field ∈ record.fields, field.value.isWellFormed = true) :
    ∀ field ∈ (markedRecord className record).fields, field.value.isWellFormed = true := by
  intro field there
  rcases Record.mem_fields_set there with before | ⟨-, marks⟩
  · exact formed field before
  · rw [marks]
    rfl

omit deeper in
theorem formed_fields {record : Record} (formed : record.isWellFormed = true) :
    ∀ field ∈ record.fields, field.value.isWellFormed = true := by
  cases record
  exact wellFormedFields_iff.mp (Bool.and_eq_true_iff.mp formed).2

/-- What is left for the bodies inside a container: a level that performs its events, or none. -/
inductive Level (context : Context) : Except CodecError BodyWriter → Option BodyEvents → Prop where
  | none : Level context (.error context.tooDeep) none
  | some {write : BodyWriter} {inner : BodyEvents}
      (deeper : ∀ field tag linked value, Value.isWellFormed value = true →
        Performs context (write field tag linked value) (inner field tag linked value)) :
      Level context (.ok write) (some inner)

omit deeper in
/-- **A value runs through its events** if the values inside it do. -/
theorem performs_bodyWith {left : Except CodecError BodyWriter} {known : Option BodyEvents}
    (level : Level context left known) (linked : Option TypeTag)
    (formed : value.isWellFormed = true) :
    Performs context (writeBodyWith context left field tag linked value)
      (eventsWith context known field tag linked value) := by
  -- a container's tag over a value of another kind is refused like a scalar
  have scalar : Performs context (writeScalar context field tag value)
      (scalarEvents context field tag value) := performs_scalar formed
  cases tag with
  | embedded =>
    cases value with
    | embedded record =>
      cases level with
      | none => exact .tooDeep
      | some deeper => exact performs_record deeper (formed_fields formed)
    | serializable className record =>
      cases level with
      | none => exact .tooDeep
      | some deeper => exact performs_record deeper (formed_markedRecord (formed_fields formed))
    | _ => exact scalar
  | embeddedList | embeddedSet =>
    cases value with
    | embeddedList items | embeddedSet items =>
      cases level with
      | none => exact .tooDeep
      | some deeper => exact performs_items deeper formed
    | _ => exact scalar
  | embeddedMap =>
    cases value with
    | embeddedMap pairs =>
      have formed := Bool.and_eq_true_iff.mp formed
      cases level with
      | none => exact .tooDeep
      | some deeper => exact performs_map deeper (of_decide_eq_true formed.1) formed.2
    | _ => exact scalar
  | _ => exact scalar

omit deeper in
/-- **A body performs its events**, at any depth; the induction is on the levels that are left. -/
theorem performs_body (room : Nat) : ∀ field tag linked value, Value.isWellFormed value = true →
    Performs context (writeBody context room field tag linked value)
      (events context room field tag linked value) := by
  induction room with
  | zero => exact fun field tag linked value formed => performs_bodyWith .none linked formed
  | succ room ih => exact fun field tag linked value formed => performs_bodyWith (.some ih) linked formed

end Encoding

/-! ## Whole records -/

namespace Record

/-- **The resolver is asked for the links that are written, in turn, and for nothing else.**
Whatever the record, the context and the resolver's state are, the encoding runs through the
record's events: each link gets its verdict when the resolver was asked for the pending ones before
it, and its identity stands behind those of the links before it.  The resolver is asked once for
each pending link, for all of them if encoding goes through; a failure is that of one event, behind
which nothing takes place.  It is for want of an identity only where no proxy keeps the one at hand,
and then it names the target's own identity, and nothing was asked for behind it. -/
theorem emission_resolves (context : Context) {record : Record} (formed : record.isWellFormed = true)
    (start : Nat) (earlier : List LinkTarget) :
    let emitted := record.emission context start earlier
    let asked := fun events : List Event => (Event.links events).flatMap (Link.asks context)
    (∀ buffer, Holds buffer start emitted.bytes →
      Runs context buffer start earlier (record.events context) emitted.calls
        (start + emitted.bytes.length) emitted.result) ∧
    (∀ target ∈ emitted.calls,
      some target ∈ Event.links (record.events context) ∧ Link.isPending target.rid = true) ∧
    (emitted.result = .ok () → emitted.calls = asked (record.events context)) ∧
    (∀ e, emitted.result = .error e → ∃ before last after,
      record.events context = before ++ last :: after ∧
      emitted.calls = asked before ++ asked [last] ∧
      ∃ buffer mid there,
        Runs context buffer mid (earlier ++ asked before) [last] (asked [last]) there (.error e)) ∧
    ∀ rid problem, emitted.result = .error (.linkResolutionFailure rid problem) →
      context.options.proxyStorage = false ∧ ∃ target,
        some target ∈ Event.links (record.events context) ∧ target.rid = rid ∧
        Link.isPending rid = true ∧
        (context.resolver.isSome = true → emitted.calls.getLast? = some target) := by
  intro emitted asked
  have performs : Encoder.Performs context (record.emission context) (record.events context) :=
    Encoding.performs_record (Encoding.performs_body context.options.maxDepth)
      (Encoding.formed_fields formed)
  have runs (buffer : List UInt8) (holds : Holds buffer start emitted.bytes) :
      Runs context buffer start earlier (record.events context) emitted.calls
        (start + emitted.bytes.length) emitted.result := by
    have ran := performs start earlier buffer holds
    have same : emitted.result.map (fun _ => ()) = emitted.result := by
      cases emitted.result <;> rfl
    rwa [same] at ran
  -- zeros up to where the bytes begin make a buffer that holds them
  have run := runs (List.replicate start 0 ++ emitted.bytes ++ [])
    ⟨_, _, rfl, List.length_replicate⟩
  refine ⟨runs, fun target there => ?_, run.calls_eq.2, fun e failed => ?_,
    fun rid problem failed => ?_⟩
  · obtain ⟨item, linked, asks⟩ := List.mem_flatMap.mp (run.calls_eq.1.subset there)
    obtain ⟨rfl, pending⟩ := Link.mem_asks asks
    exact ⟨linked, pending⟩
  · rw [failed] at run
    obtain ⟨before, last, after, mid, split, calls, fails⟩ := run.of_error
    refine ⟨before, last, after, split, ?_, _, mid, _, fails⟩
    rw [calls, Event.links_append, List.flatMap_append]
  · rw [failed] at run
    exact run.of_linkFailure

/-- The first link is stored, the second one is resolved, and the answer for the third is invalid;
the fourth is not asked for any more. -/
theorem emission_resolves_until_refused :
    let resolver : Resolver := fun earlier _ => .ok ⟨7, if earlier.isEmpty then 3 else -1⟩
    let context : Context := { resolver := some resolver }
    let pending (position : Int64) : LinkTarget := .identity ⟨-1, position⟩
    let record : Record := ⟨none, RecordId.empty,
      [⟨"a", .link (.identity ⟨5, 2⟩), none⟩,
        ⟨"m", .embeddedMap [("k", .linkList [none, some (pending (-2))])], none⟩,
        ⟨"b", .link (pending (-3)), none⟩, ⟨"c", .link (pending (-4)), none⟩], false⟩
    record.isWellFormed = true ∧
      (record.emission context 0 []).calls = [pending (-2), pending (-3)] ∧
      (record.emission context 0 []).result
        = .error (.linkResolutionFailure ⟨-1, -3⟩ (.invalidAnswer ⟨7, -1⟩)) ∧
      ∃ target, target.rid = ⟨-1, -3⟩ ∧
        (record.emission context 0 []).calls.getLast? = some target := by
  intro resolver context pending record
  have formed : record.isWellFormed = true := by decide
  have calls : (record.emission context 0 []).calls = [pending (-2), pending (-3)] := by
    subst record pending context resolver
    rfl
  have failed : (record.emission context 0 []).result
      = .error (.linkResolutionFailure ⟨-1, -3⟩ (.invalidAnswer ⟨7, -1⟩)) := by
    subst record pending context resolver
    rfl
  obtain ⟨-, -, -, -, unresolved⟩ := emission_resolves context formed 0 []
  obtain ⟨-, target, -, same, -, last⟩ := unresolved _ _ failed
  exact ⟨formed, calls, failed, target, same, last rfl⟩

end Record
end DocumentCodec
