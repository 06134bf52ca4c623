import DocumentCodec.Proofs.Members
import DocumentCodec.Proofs.RoundTrip.Object
/-!
# When nothing is lost

What is recalled of a record is its normal form, unless something is lost on the way: a length is no
signed 32-bit word, a day begins before the first instant, a factory is missing or makes another
object, or a record bears the mark of an object.  So an encoding that is short enough, of a record
with none of the rest, is decoded to the normal form.

Both sides go through the values in the order in which they are written and ask the resolver for the
same targets; that they agree is therefore said of a successful writing.
-/

namespace DocumentCodec

/-- Factories that make the very objects that were stored. -/
structure Registry.IsFaithful (registry : Registry) : Prop where
  customs : ∀ typeName factory, OrderedMap.find? typeName registry.customs = some factory →
    ∀ stream, factory stream = .ok ⟨typeName, stream⟩
  serializables : ∀ className factory,
    OrderedMap.find? className registry.serializables = some factory →
    ∀ record, factory record = .ok ⟨className, record⟩

/-- A value that is written under a tag is read back to its normal form. -/
structure Lossless (context : Context) (w : TypeTag × Value) : Prop where
  classed : ∀ record, heldRecord w = some record → record.className ≠ some ""
  unmarked : ∀ record, w = (.embedded, .embedded record) → ∀ field ∈ record.fields,
    field.name = Record.serializableClassField → field.value.text? = none
  markable : ∀ className record, w = (.embedded, .serializable className record) →
    record.contains Record.serializableClassField = false
  registered : ∀ className record, w.2 = .serializable className record →
    context.registry.any (·.hasSerializable className) = true
  dated : ∀ millis, w.1 = .date → w.2.millis? = some millis →
    Signed.Fits64 ((context.options.zone.dayNumber millis).toInt * Zone.millisPerDay)

/-- What is recalled agrees with the normal form; both ask for the same targets. -/
def Agrees {α : Type} (remember : Recalling α) (normal : Asking α)
    (earlier last : List LinkTarget) : Prop :=
  ∃ made, remember earlier = some (made, last) ∧ normal earlier = (made, last)

namespace Agrees

variable {α β : Type} {earlier mid last : List LinkTarget}

theorem pure (a : α) : Agrees (Pure.pure a) (Pure.pure a) earlier earlier := ⟨a, rfl, rfl⟩

/-- Agreement goes through sequences: what both agree on first, both go on with. -/
theorem bind {x : Recalling α} {n : Asking α} {f : α → Recalling β} {g : α → Asking β}
    (first : Agrees x n earlier mid)
    (second : ∀ a, n earlier = (a, mid) → Agrees (f a) (g a) mid last) :
    Agrees (x >>= f) (n >>= g) earlier last := by
  obtain ⟨a, recalled, normal⟩ := first
  obtain ⟨b, recalled', normal'⟩ := second a normal
  exact ⟨b, by rw [Recalling.run_bind recalled, recalled'],
    by rw [Asking.run_bind normal, normal']⟩

theorem map {x : Recalling α} {n : Asking α} {wrap : α → β} (first : Agrees x n earlier last) :
    Agrees (x >>= fun a => Pure.pure (wrap a)) (n >>= fun a => Pure.pure (wrap a)) earlier last :=
  first.bind fun a _ => pure (wrap a)

/-- What is asked of the resolver is asked alike. -/
theorem asking {ask : Asking α} {a : α} (run : ask earlier = (a, last)) :
    Agrees (Recalling.asking ask) ask earlier last :=
  ⟨a, congrArg some run, run⟩

/-- What is only checked has no part in the normal form. -/
theorem of_some {x : Recalling α} {f : α → Recalling β} {n : Asking β} {a : α}
    (checked : x earlier = some (a, earlier)) (rest : Agrees (f a) n earlier last) :
    Agrees (x >>= f) n earlier last := by
  obtain ⟨b, recalled, normal⟩ := rest
  exact ⟨b, by rw [Recalling.run_bind checked, recalled], normal⟩

/-- It goes through lists, element by element. -/
theorem mapM_cons {remember : α → Recalling β} {normal : α → Asking β} {a : α} {rest : List α}
    (first : Agrees (remember a) (normal a) earlier mid)
    (later : Agrees (rest.mapM remember) (rest.mapM normal) mid last) :
    Agrees ((a :: rest).mapM remember) ((a :: rest).mapM normal) earlier last := by
  rw [List.mapM_cons, List.mapM_cons]
  exact first.bind fun _ _ => later.map

/-! ## What is written in sequence

Elements, members and fields are gone through together: what was written, what is recalled, and what
is normal, and the calls of the resolver along with them. -/

/-- Things that were written in turn are recalled in turn. -/
theorem inTurn {remember : α → Recalling β} {normal : α → Asking β} {items : List α}
    {calls : List LinkTarget} {size : Nat}
    (told : InTurn (fun a earlier calls _ => Agrees (remember a) (normal a) earlier (earlier ++ calls))
      items earlier calls size) :
    Agrees (items.mapM remember) (items.mapM normal) earlier (earlier ++ calls) := by
  induction told with
  | nil =>
    rw [List.append_nil]
    exact pure []
  | cons first _ ih =>
    rw [← List.append_assoc]
    exact mapM_cons first ih

/-- Things that are written one behind the other. -/
theorem forM {write : α → Encoder Unit} {remember : α → Recalling β} {normal : α → Asking β}
    (items : List α) {start : Nat} {earlier calls : List LinkTarget} {bytes : List UInt8}
    (each : ∀ item ∈ items, ∀ {start earlier bytes calls},
      write item start earlier = ⟨bytes, calls, .ok ()⟩ → bytes.length < 2 ^ 31 →
        0 < bytes.length ∧ Agrees (remember item) (normal item) earlier (earlier ++ calls))
    (run : items.forM write start earlier = ⟨bytes, calls, .ok ()⟩)
    (short : bytes.length < 2 ^ 31) : items.length ≤ bytes.length ∧
      Agrees (items.mapM remember) (items.mapM normal) earlier (earlier ++ calls) := by
  have told : InTurn (fun a earlier calls size => 0 < size ∧
      Agrees (remember a) (normal a) earlier (earlier ++ calls)) items earlier calls bytes.length :=
    .of_forM each run short
  exact ⟨told.length_le fun _ _ _ _ fact => fact.1, inTurn (told.mono fun _ _ _ _ fact => fact.2)⟩

/-- The bodies of a table's members. -/
theorem bodies {write : BodyWriter} {member : α → Member} {remember : α → Recalling β}
    {normal : α → Asking β} (kept : List α) {place : Nat} {earlier calls : List LinkTarget}
    {fillings : List (Option Filling)} {bytes : List UInt8}
    (each : ∀ a ∈ kept, ∀ {place earlier filling bytes calls},
      SlotBody (member a).value (member a).tag
        (fun tag => write (member a).field tag (member a).linked (member a).value) place earlier
        filling bytes calls → bytes.length < 2 ^ 31 →
      Agrees (remember a) (normal a) earlier (earlier ++ calls))
    (run : Bodies.write (((kept.map member).map (Member.entry write)).map (·.body)) place earlier
      = ⟨fillings, bytes, calls, .ok ()⟩) (short : bytes.length < 2 ^ 31) :
    Agrees (kept.mapM remember) (kept.mapM normal) earlier (earlier ++ calls) :=
  inTurn (.of_bodies each run short)

end Agrees

/-! ## Values that hold no others

The value becomes what the tag says, and that is what is recalled; an object comes back if its
factory makes it again, and a length if it fits. -/

/-- The normal form of a whole number is the number under the tag. -/
theorem Value.normal_of_int64? {context : Context} {value : Value} {v : Int64}
    (number : value.int64? = some v) (tag : TypeTag) (linked : Option TypeTag) :
    value.normal context tag linked = pure (value.retagged context.options.zone tag) := by
  cases value with
  | byte _ => rfl
  | short _ => rfl
  | integer _ => rfl
  | long _ => rfl
  | _ => cases number

/-- The normal form of an instant is the instant, or the beginning of its day. -/
theorem Value.normal_of_millis? {context : Context} {value : Value} {millis : Int64}
    (instant : value.millis? = some millis) (tag : TypeTag) (linked : Option TypeTag) :
    value.normal context tag linked = pure (value.retagged context.options.zone tag) := by
  cases value with
  | date _ => rfl
  | dateTime _ => rfl
  | long _ => rfl
  | _ => cases instant

namespace Registry

variable {registry : Registry} {name : String}

/-- A registered factory makes the object that was stored. -/
theorem IsFaithful.makeCustom (faithful : registry.IsFaithful)
    (registered : registry.hasCustom name = true) (stream : List UInt8) :
    registry.makeCustom name stream = .ok ⟨name, stream⟩ := by
  obtain ⟨factory, found⟩ := Option.isSome_iff_exists.mp registered
  rw [Registry.makeCustom, found]
  exact faithful.customs name factory found stream

/-- The same for the records of serializable objects. -/
theorem IsFaithful.makeSerializable (faithful : registry.IsFaithful)
    (registered : registry.hasSerializable name = true) (record : Record) :
    registry.makeSerializable name record = .ok ⟨name, record⟩ := by
  obtain ⟨factory, found⟩ := Option.isSome_iff_exists.mp registered
  rw [Registry.makeSerializable, found]
  exact faithful.serializables name factory found record

end Registry

namespace Agrees

variable {context : Context} {start : Nat} {earlier calls : List LinkTarget} {bytes : List UInt8}

/-- A link that was written comes back as the identity that was stored. -/
theorem link {target : LinkTarget}
    (run : Link.write context target start earlier = ⟨bytes, calls, .ok ()⟩) :
    Agrees (Recalling.asking (target.stored context)) (target.stored context) earlier
      (earlier ++ calls) := by
  obtain ⟨rid, -, stored⟩ := Link.write_eq_ok run
  exact asking stored

/-- An element of a collection of links comes back as its identity; an identity that stands for no
link comes back as none. -/
theorem linkElement {item : Option LinkTarget}
    (run : Link.writeElement context item start earlier = ⟨bytes, calls, .ok ()⟩) :
    0 < bytes.length ∧ Agrees (Recalling.asking (normalLink context item))
      (normalLink context item) earlier (earlier ++ calls) := by
  cases item with
  | none =>
    rw [Link.writeElement, Link.writeId_eq] at run
    cases run
    rw [List.append_nil]
    exact ⟨Link.length_idBytes_pos _, asking rfl⟩
  | some target =>
    obtain ⟨rid, rfl, stored⟩ := Link.write_eq_ok run
    -- two numbers are two bytes at least
    refine ⟨Link.length_idBytes_pos _, asking (a := if rid.isNullLink then none
      else some (.identity rid)) ?_⟩
    rw [normalLink, Asking.run_bind stored]
    rfl

/-- A list of links comes back link by link; each takes a byte, so a short encoding has no more of
them than a reader counts. -/
theorem links {items : List (Option LinkTarget)} (short : bytes.length < 2 ^ 31)
    (run : Encoding.writeLinks context items start earlier = ⟨bytes, calls, .ok ()⟩) :
    Agrees (Recall.links context items) (items.mapM (normalLink context)) earlier
      (earlier ++ calls) := by
  obtain ⟨rest, written, rfl⟩ := Encoder.emit_bind_eq_ok run
  rw [List.length_append] at short
  obtain ⟨fewer, all⟩ : _ ∧ Agrees (items.mapM fun item => Recalling.asking
      (normalLink context item)) _ earlier _ :=
    forM items (fun item _ _ _ _ _ one _ => linkElement one) written (by omega)
  rw [Recalling.mapM_asking] at all
  exact of_some (Recall.length_eq_some.mpr ⟨by omega, rfl, rfl⟩) all

/-- A map of links comes back entry by entry, under its keys. -/
theorem linkMap {entries : List (String × Option LinkTarget)} (short : bytes.length < 2 ^ 31)
    (run : Encoding.writeLinkMap context entries start earlier = ⟨bytes, calls, .ok ()⟩) :
    Agrees (Recall.linkMap context entries) (entries.mapM (normalLinkEntry context)) earlier
      (earlier ++ calls) := by
  obtain ⟨rest, written, rfl⟩ := Encoder.emit_bind_eq_ok run
  rw [List.length_append] at short
  -- an entry is its key and its link, and the key is as short as the entry
  have each (entry : String × Option LinkTarget) {start : Nat} {earlier calls : List LinkTarget}
      {bytes : List UInt8} (one : (Encoder.emit (Encoding.keyBytes entry.1) >>= fun _ =>
        Link.writeElement context entry.2) start earlier = ⟨bytes, calls, .ok ()⟩)
      (short : bytes.length < 2 ^ 31) : 0 < bytes.length ∧
        Agrees (Recall.linkEntry context entry) (normalLinkEntry context entry) earlier
          (earlier ++ calls) := by
    obtain ⟨element, written, rfl⟩ := Encoder.emit_bind_eq_ok one
    obtain ⟨-, link⟩ := linkElement written
    have key := Encoding.length_le_keyBytes entry.1
    rw [List.length_append] at short ⊢
    refine ⟨by omega, of_some (Recall.string_eq_some.mpr ⟨by omega, rfl, rfl⟩) ?_⟩
    exact link.map
  obtain ⟨fewer, all⟩ := forM entries (fun entry _ _ _ _ _ => each entry) written (by omega)
  exact of_some (Recall.length_eq_some.mpr ⟨by omega, rfl, rfl⟩) all

/-- A day is recalled as the instant at which it begins. -/
theorem date {value : Value} {millis : Int64} {linked : Option TypeTag}
    (instant : value.millis? = some millis)
    (dated : Signed.Fits64 ((context.options.zone.dayNumber millis).toInt * Zone.millisPerDay)) :
    Agrees (Recall.scalar context .date value) (value.normal context .date linked) earlier
      earlier := by
  rw [Recall.scalar_date instant, Value.normal_of_millis? instant, Value.retagged_date instant,
    Recall.date, Zone.startOfDay?, if_pos dated]
  exact pure _

/-- An opaque object is recalled as itself. -/
theorem custom (faithful : ∀ registry, context.registry = some registry → registry.IsFaithful)
    {field typeName : String} {stream : List UInt8} (short : bytes.length < 2 ^ 31)
    (run : Encoding.writeCustom context field typeName stream start earlier
      = ⟨bytes, calls, .ok ()⟩) :
    Agrees (Recall.custom context typeName stream)
      (Pure.pure (Value.custom typeName stream)) earlier (earlier ++ calls) := by
  obtain ⟨registry, there, registered, rfl, rfl⟩ := Encoding.writeCustom_eq_ok run
  simp only [List.length_append] at short
  rw [List.append_nil]
  refine of_some (Recall.string_eq_some.mpr ⟨by omega, rfl, rfl⟩) ?_
  refine of_some (Recall.binary_eq_some.mpr ⟨by omega, rfl, rfl⟩) ?_
  rw [there]
  refine of_some rfl ?_
  rw [(faithful registry there).makeCustom registered]
  exact pure _

/-- What was written without bodies inside. -/
theorem scalar (faithful : ∀ registry, context.registry = some registry → registry.IsFaithful)
    {field : String} {tag : TypeTag} {linked : Option TypeTag} {value : Value}
    (short : bytes.length < 2 ^ 31) (lossless : Lossless context (tag, value))
    (run : Encoding.writeScalar context field tag value start earlier = ⟨bytes, calls, .ok ()⟩) :
    Agrees (Recall.scalar context tag value) (value.normal context tag linked) earlier
      (earlier ++ calls) := by
  -- a value that is read as the tag says, without asking for anything
  have kept (made : Value) (asked : List LinkTarget) :
      Agrees (Pure.pure made) (Pure.pure made) asked (asked ++ []) := by
    rw [List.append_nil]
    exact pure made
  cases WrittenScalar.of_eq_ok run with
  | short number _ =>
    rw [Value.normal_of_int64? number]
    exact kept _ _
  | integer number _ =>
    rw [Value.normal_of_int64? number]
    exact kept _ _
  | long number =>
    rw [Value.normal_of_int64? number]
    exact kept _ _
  | string text =>
    rw [List.length_append] at short
    exact of_some (Recall.string_eq_some.mpr ⟨by omega, rfl, rfl⟩) (kept _ _)
  | binary content =>
    rw [List.length_append] at short
    exact of_some (Recall.binary_eq_some.mpr ⟨by omega, rfl, rfl⟩) (kept _ _)
  | linkBag content =>
    rw [List.length_append] at short
    exact of_some (Recall.binary_eq_some.mpr ⟨by omega, rfl, rfl⟩) (kept _ _)
  | double word => exact kept _ _
  | widened word => exact kept _ _
  | float word => exact kept _ _
  | byte v => exact kept _ _
  | boolean v => exact kept _ _
  | dateTime instant =>
    rw [Value.normal_of_millis? instant]
    exact kept _ _
  | date instant =>
    rw [List.append_nil]
    exact date instant (lossless.dated _ rfl instant)
  | decimal written =>
    obtain ⟨-, -, -, rfl⟩ := Encoding.writeDecimal_eq_ok written
    exact kept _ _
  | link written => exact (link written).map
  | linked written => exact (link written).map
  | linkList sort written | linkSet sort written =>
    rcases sort with rfl | rfl <;> exact (links short written).map
  | linkMap written => exact (linkMap short written).map
  | custom written => exact custom faithful short written

end Agrees

/-- A value that is no string is not read back as one. -/
theorem Value.text?_normal {context : Context} {tag : TypeTag} {linked : Option TypeTag}
    {value : Value} (other : value.text? = none) (asked : List LinkTarget) :
    (value.normal context tag linked asked).1.text? = none := by
  cases value with
  | string text => cases other
  | _ => cases tag <;> rfl

/-- The class name of a record comes back, unless it is the empty one, which is written as none is.
-/
theorem Binder.named_new {className : Option String} (classed : className ≠ some "") :
    Binder.named (className.getD "") Record.new = ⟨className, RecordId.empty, [], false⟩ := by
  cases className with
  | none => rfl
  | some className =>
    have notEmpty : className.isEmpty = false := by
      refine Bool.eq_false_iff.mpr fun empty => classed ?_
      rw [String.isEmpty_iff.mp empty]
    rw [named, Option.getD_some, notEmpty]
    rfl

/-! ## The normal form of a marked record

The mark of an object is a field more, and it comes back as one; to take it out again gives the
normal form of the record. -/

namespace Record

variable {context : Context} {record made : Record} {earlier last : List LinkTarget}
  {className : String}

/-- A field keeps its name. -/
theorem name_normalField (className : Option String) (field : Field) (asked : List LinkTarget) :
    (normalField context className field asked).1.name = field.name := by
  rw [normalField]
  rcases inSlot_cases field.value
    (Encoding.fieldTag field (pinnedTag context className field.name)) with same | ⟨chosen, same⟩
  · rw [same]
    rfl
  · rw [same]
    rfl

/-- A field that holds no text comes to hold none. -/
theorem text?_normalField {className : Option String} {field : Field}
    (other : field.value.text? = none) (asked : List LinkTarget) :
    (normalField context className field asked).1.value.text? = none := by
  rw [normalField]
  rcases inSlot_cases field.value
    (Encoding.fieldTag field (pinnedTag context className field.name)) with same | ⟨chosen, same⟩
  · rw [same]
    exact other
  · rw [same]
    exact Value.text?_normal other asked

/-- The fields of the normal form are those that are not left out, each as it is read back. -/
theorem mapM_normalField (run : record.normal context earlier = (made, last)) :
    (record.fields.filter (!Encoding.isOmitted ·)).mapM (normalField context record.className)
      earlier = (made.fields, last) := by
  rw [normal_eq, normalFields_eq] at run
  rcases fields : (record.fields.filter (!Encoding.isOmitted ·)).mapM
    (normalField context record.className) earlier with ⟨added, asked⟩
  rw [Asking.run_bind fields] at run
  cases run
  rfl

/-- The names that are read back are those of the fields that are not left out, in order. -/
theorem fieldNames_normal (run : record.normal context earlier = (made, last)) :
    made.fieldNames = (record.fields.filter (!Encoding.isOmitted ·)).map (·.name) :=
  Asking.map_mapM (name_normalField record.className) _ (mapM_normalField run)

theorem absent_normal (unmarked : record.contains name = false)
    (run : record.normal context earlier = (made, last)) :
    ∀ field ∈ made.fields, field.name ≠ name :=
  absent_of_kept (fieldNames_normal run) unmarked

/-- The normal form of a marked record is the normal form of the record, marked. -/
theorem normal_markedRecord (unmarked : record.contains serializableClassField = false)
    (run : (Encoding.markedRecord className record).normal context earlier = (made, last)) :
    ∃ inner pinned, record.normal context earlier = (inner, last) ∧
      made = inner.append serializableClassField (.string className) pinned := by
  rw [Encoding.markedRecord, normal_eq, className_set, fields_set unmarked, normalFields_eq,
    List.filter_append, List.mapM_append] at run
  rw [normal_eq, normalFields_eq]
  rcases fields : (record.fields.filter (!Encoding.isOmitted ·)).mapM
    (normalField context record.className) earlier with ⟨added, asked⟩
  rw [bind_assoc, Asking.run_bind fields] at run
  rw [Asking.run_bind fields]
  -- the field that marks the record is kept, under whatever tag, and asks for nothing
  have marker : ∃ pinned, normalField context record.className
      ⟨serializableClassField, .string className, none⟩
        = pure ⟨serializableClassField, .string className, pinned⟩ := by
    rw [normalField]
    rcases inSlot_cases (.string className) (Encoding.fieldTag
      ⟨serializableClassField, .string className, none⟩
      (pinnedTag context record.className serializableClassField)) with same | ⟨chosen, same⟩
    · exact ⟨none, same⟩
    · refine ⟨some chosen, same.trans ?_⟩
      cases chosen <;> rfl
  obtain ⟨pinned, marker⟩ := marker
  have kept : [(⟨serializableClassField, .string className, none⟩ : Field)].filter
      (!Encoding.isOmitted ·) = [⟨serializableClassField, .string className, none⟩] := rfl
  rw [kept, List.mapM_cons, marker] at run
  cases run
  exact ⟨_, pinned, rfl, rfl⟩

/-- A record that no string marks has a normal form that none marks. -/
theorem unmarked_normal
    (unmarked : ∀ field ∈ record.fields, field.name = serializableClassField →
      field.value.text? = none) (run : record.normal context earlier = (made, last)) :
    ∀ field ∈ made.fields, field.name = serializableClassField → field.value.text? = none := by
  intro field there named
  obtain ⟨before, kept, asked', rfl⟩ := Asking.mem_mapM _ (mapM_normalField run) there
  rw [name_normalField] at named
  exact text?_normalField (unmarked before (List.mem_filter.mp kept).1 named) asked'

end Record

/-- The mark of an object loses nothing. -/
theorem Lossless.marker {context : Context} (tag : TypeTag) (className : String) :
    Lossless context (tag, .string className) := by
  constructor
  · intro record held
    -- a text holds no record and is no day, so none of the conditions is about it
    have holdsNone : heldRecord (tag, .string className) = none := by cases tag <;> rfl
    cases holdsNone.symm.trans held
  · intro record same
    cases congrArg Prod.snd same
  · intro className record same
    cases congrArg Prod.snd same
  · intro className record same
    cases same
  · intro millis _ instant
    cases instant

/-- The mark of an object loses nothing. -/
theorem Encoding.lossless_markedRecord {context : Context} {className : String} {record : Record}
    (lossless : ∀ w ∈ record.written context, Lossless context w) :
    ∀ w ∈ (markedRecord className record).written context, Lossless context w := by
  intro w inside
  rcases mem_written_markedRecord inside with before | ⟨tag, rfl⟩
  · exact lossless w before
  · exact Lossless.marker tag className

namespace Recall

variable {context : Context} {record : Record}

/-- A marked record becomes the object again. -/
theorem embed_append {className : String} {pinned : Option TypeTag}
    (absent : ∀ field ∈ record.fields, field.name ≠ Record.serializableClassField)
    (faithful : ∀ registry, context.registry = some registry → registry.IsFaithful)
    (registered : context.registry.any (·.hasSerializable className) = true) :
    embed context (record.append Record.serializableClassField (.string className) pinned)
      = some (.serializable className record) := by
  rw [embed, Record.field?_append absent, Record.remove_append absent]
  cases there : context.registry with
  | none =>
    rw [there] at registered
    cases registered
  | some registry =>
    rw [there] at registered
    simp only [Option.bind_eq_bind, Option.bind_some]
    rw [(faithful registry there).makeSerializable registered]
    rfl

/-- A heading is recalled if its bytes are few enough for a length. -/
theorem heading_of_short {className : Option String} {field : Field} {earlier : List LinkTarget}
    (short : (Member.ofField context className field).label.length < 2 ^ 31) :
    heading context className field.name earlier = some ((), earlier) := by
  rw [heading]
  rw [Member.ofField] at short
  cases known : Encoding.property? context className field.name with
  | some property => rfl
  | none =>
    rw [known] at short
    dsimp only at short
    rw [List.length_append] at short
    exact Recalling.run_pure_bind_map (length_eq_some.mpr ⟨by omega, rfl, rfl⟩)

end Recall

/-! ## Values that hold others

Whatever is inside is written, recalled and normal at one level less, so what holds of those bodies
holds of this one. -/

/-- What was written for a well-formed value that loses nothing is recalled as its normal form. -/
structure Agreeing (context : Context) (write : BodyWriter) (remember : BodyRecall) : Prop where
  agree : ∀ {field : String} {tag : TypeTag} {linked : Option TypeTag} {value : Value} {start : Nat}
    {earlier calls : List LinkTarget} {bytes : List UInt8},
    write field tag linked value start earlier = ⟨bytes, calls, .ok ()⟩ → bytes.length < 2 ^ 31 →
    (∀ w ∈ value.written context tag linked, Lossless context w) →
    Agrees (remember tag linked value) (value.normal context tag linked) earlier (earlier ++ calls)

namespace Agreeing

variable {context : Context} {write : BodyWriter} {remember : BodyRecall}
  (agreeing : Agreeing context write remember) {start : Nat} {earlier calls : List LinkTarget}
  {bytes : List UInt8}
include agreeing

/-- An element comes back in normal form, and takes a byte at least. -/
theorem item {field : String} {linked : Option TypeTag} {item : Value}
    (lossless : ∀ w ∈ writtenItem context linked item, Lossless context w)
    (run : Encoding.writeItem write field (linked.filter (·.isConcrete)) item start earlier
      = ⟨bytes, calls, .ok ()⟩) (short : bytes.length < 2 ^ 31) :
    0 < bytes.length ∧
      Agrees (Recall.item remember linked item) (normalItem context linked item) earlier
        (earlier ++ calls) := by
  rw [writtenItem] at lossless
  cases WrittenItem.of_eq_ok run with
  | null null =>
    -- absent, it is one tag and nothing more
    rw [Recall.item, normalItem, inSlot_of_null null, inSlot_of_null null, Value.eq_null null,
      List.append_nil]
    exact ⟨Nat.one_pos, .pure _⟩
  | body notNull typed written =>
    have choice := itemTag_eq_ok typed
    rw [inSlot_of_ok notNull choice] at lossless
    rw [List.length_cons] at short
    rw [Recall.item, normalItem, inSlot_of_ok notNull choice, inSlot_of_ok notNull choice]
    exact ⟨Nat.succ_pos _, agreeing.agree written (by omega) lossless⟩

/-- A list comes back in normal form, but for the elements that were left out. -/
theorem items {field : String} {linked : Option TypeTag} {items : List Value}
    (lossless : ∀ w ∈ writtenItems context linked items, Lossless context w)
    (run : Encoding.writeItems write field linked items start earlier = ⟨bytes, calls, .ok ()⟩)
    (short : bytes.length < 2 ^ 31) :
    Agrees (Recall.items remember linked items) (normalItems context linked items) earlier
      (earlier ++ calls) := by
  obtain ⟨elements, each, rfl⟩ := Encoding.writeItems_eq_ok run
  rw [writtenItems_eq] at lossless
  rw [Recall.items, normalItems_eq]
  generalize items.filter (!·.isTransient) = kept at each short lossless ⊢
  simp only [List.length_append] at short
  obtain ⟨fewer, all⟩ := Agrees.forM kept (fun element there _ _ _ _ one short =>
    agreeing.item (fun w inside => lossless w (List.mem_flatMap.mpr ⟨element, there, inside⟩)) one
      short) each (by omega)
  exact .of_some (Recall.length_eq_some.mpr ⟨by omega, rfl, rfl⟩) all

/-- A member of a map comes back in normal form, if its key is short enough. -/
theorem member {field : String} {pair : String × Value} {place : Nat} {filling : Option Filling}
    (body : SlotBody pair.2 (memberTag pair.2) (fun tag => write field tag none pair.2) place earlier
      filling bytes calls) (short : bytes.length < 2 ^ 31)
    (key : (Utf8.encode pair.1).length < 2 ^ 31)
    (lossless : ∀ w ∈ writtenMember context pair, Lossless context w) :
    Agrees (Recall.member remember pair) (normalMember context pair) earlier (earlier ++ calls) := by
  rw [Recall.member]
  refine .of_some (Recall.string_eq_some.mpr ⟨key, rfl, rfl⟩) ?_
  rw [normalMember, Recall.slot]
  rw [writtenMember] at lossless
  cases body with
  | null isNull =>
    have same : pair = (pair.1, .null) := Prod.ext rfl (Value.eq_null isNull)
    rw [inSlot_of_null isNull, inSlot_of_null isNull, List.append_nil, same]
    exact .pure _
  | body notNull choice written reached =>
    rw [inSlot_of_ok notNull choice] at lossless
    rw [inSlot_of_ok notNull choice, inSlot_of_ok notNull choice, bind_assoc]
    exact (agreeing.agree written short lossless).map

/-- A map comes back in normal form: its members stand in the header, so there are few of them, and
their keys are short. -/
theorem members {field : String} {members : List (String × Value)}
    (lossless : ∀ w ∈ writtenMembers context members, Lossless context w)
    (run : Encoding.writeMap write field members start earlier = ⟨bytes, calls, .ok ()⟩)
    (short : bytes.length < 2 ^ 31) :
    Agrees (Recall.members remember members) (normalMembers context members) earlier
      (earlier ++ calls) := by
  rw [Encoding.writeMap_eq, Encoding.mapHead, Encoding.mapMembers] at run
  rw [writtenMembers_eq] at lossless
  rw [Recall.members, normalMembers_eq]
  generalize members.filter (!·.2.isTransient) = kept at run lossless ⊢
  obtain ⟨fillings, bodies, written, rfl⟩ := writeTable_eq_ok run
  have fewer := Entry.length_le_encodeAll ((kept.map (Member.ofPair field)).map
    (Member.entry write)) fillings
  simp only [List.length_append] at short
  rw [List.length_map, List.length_map] at fewer
  refine .of_some (Recall.length_eq_some.mpr ⟨by omega, rfl, rfl⟩) ?_
  refine Agrees.bodies kept (fun pair there {place _ _ bytes _} body short => ?_) written (by omega)
  -- a key stands in the header, so it is as short as the encoding
  have label : (Encoding.keyBytes pair.1).length ≤ _ :=
    Member.label_le_encodeAll write fillings (List.mem_map_of_mem (f := Member.ofPair field) there)
  have key := Encoding.length_le_keyBytes pair.1
  exact agreeing.member body short (by omega) fun w inside =>
    lossless w (List.mem_flatMap.mpr ⟨pair, there, inside⟩)

/-- A field comes back in normal form, if its heading does. -/
theorem field {className : Option String} {field : Field} {place : Nat} {filling : Option Filling}
    (body : SlotBody field.value
      (Encoding.fieldTag field (pinnedTag context className field.name))
      (fun tag => write field.name tag (linkedTag context className field.name) field.value) place
      earlier filling bytes calls) (short : bytes.length < 2 ^ 31)
    (heading : Recall.heading context className field.name earlier = some ((), earlier))
    (lossless : ∀ w ∈ writtenField context className field, Lossless context w) :
    Agrees (Recall.field context remember className field) (normalField context className field)
      earlier (earlier ++ calls) := by
  rw [Recall.field]
  refine .of_some heading ?_
  rw [normalField, Recall.slot]
  rw [writtenField] at lossless
  cases body with
  | null isNull =>
    rw [inSlot_of_null isNull, inSlot_of_null isNull, List.append_nil, Value.eq_null isNull]
    exact .pure _
  | body notNull choice written reached =>
    rw [inSlot_of_ok notNull choice] at lossless
    rw [inSlot_of_ok notNull choice, inSlot_of_ok notNull choice, bind_assoc]
    exact (agreeing.agree written short lossless).map

/-- A record that has a class name, if any, that is not empty. -/
theorem record {record : Record} (classed : record.className ≠ some "")
    (lossless : ∀ w ∈ record.written context, Lossless context w)
    (run : Encoding.writeRecord context write record start earlier = ⟨bytes, calls, .ok ()⟩)
    (short : bytes.length < 2 ^ 31) :
    Agrees (Recall.record context remember record) (record.normal context) earlier
      (earlier ++ calls) := by
  rw [Encoding.writeRecord_eq, Encoding.recordMembers, Encoding.recordHead] at run
  rw [record.written_eq, writtenFields_eq] at lossless
  rw [Recall.record, Record.normal_eq, normalFields_eq]
  -- the fields that are not left out are written, recalled, and normal
  generalize record.fields.filter (!Encoding.isOmitted ·) = kept at run lossless ⊢
  obtain ⟨fillings, bodies, written, rfl⟩ := writeTable_eq_ok run
  simp only [List.length_append] at short
  refine .of_some (Recall.string_eq_some.mpr ⟨by omega, rfl, rfl⟩) ?_
  rw [Binder.named_new classed]
  refine Agrees.map (Agrees.bodies kept (fun field there {place earlier _ bytes _} body short => ?_)
    written (by omega))
  -- the name of a field is no longer than all the bytes, so it can be read back
  have label := Member.label_le_encodeAll write fillings
    (List.mem_map_of_mem (f := Member.ofField context record.className) there)
  simp only [Member.value_ofField, Member.tag_ofField, Member.field_ofField,
    Member.linked_ofField] at body
  exact agreeing.field body short (Recall.heading_of_short (by omega)) fun w inside =>
    lossless w (List.mem_flatMap.mpr ⟨field, there, inside⟩)

/-- A record that is written as part of another. -/
theorem embedded {record : Record} {linked : Option TypeTag}
    (lossless : ∀ w ∈ (Value.embedded record).written context .embedded linked, Lossless context w)
    (run : Encoding.writeRecord context write record start earlier = ⟨bytes, calls, .ok ()⟩)
    (short : bytes.length < 2 ^ 31) :
    Agrees (Recall.embedded context remember record)
      ((Value.embedded record).normal context .embedded linked) earlier (earlier ++ calls) := by
  have self := lossless _ (Value.mem_written _ _ _)
  obtain ⟨made, recalled, normal⟩ := agreeing.record (self.classed record rfl)
    (fun w inside => lossless w (List.mem_cons_of_mem _ inside)) run short
  have unmarked := Record.unmarked_normal (self.unmarked record rfl) normal
  refine ⟨.embedded { made with isEmbedded := true }, ?_, Asking.run_bind normal⟩
  rw [Recall.embedded, Recalling.run_bind recalled, Recall.embed_of_unmarked unmarked]
  rfl

/-- An object, written as the record that stands for it. -/
theorem serializable
    (faithful : ∀ registry, context.registry = some registry → registry.IsFaithful)
    {className : String} {record : Record} {linked : Option TypeTag}
    (lossless : ∀ w ∈ (Value.serializable className record).written context .embedded linked,
      Lossless context w)
    (run : Encoding.writeRecord context write (Encoding.markedRecord className record) start earlier
      = ⟨bytes, calls, .ok ()⟩) (short : bytes.length < 2 ^ 31) :
    Agrees (Recall.embedded context remember (Encoding.markedRecord className record))
      ((Value.serializable className record).normal context .embedded linked) earlier
      (earlier ++ calls) := by
  have self := lossless _ (Value.mem_written _ _ _)
  have classed : (Encoding.markedRecord className record).className ≠ some "" := by
    rw [Encoding.markedRecord, Record.className_set]
    exact self.classed record rfl
  obtain ⟨made, recalled, normal⟩ := agreeing.record classed
    (Encoding.lossless_markedRecord fun w inside => lossless w (List.mem_cons_of_mem _ inside))
    run short
  have unmarked := self.markable className record rfl
  -- the mark comes back as the last field, and is taken out again before the factory sees the
  -- record
  obtain ⟨inner, pinned, same, rfl⟩ := Record.normal_markedRecord unmarked normal
  refine ⟨.serializable className inner, ?_, Asking.run_bind same⟩
  rw [Recall.embedded, Recalling.run_bind recalled, Recall.embed_append
    (Record.absent_normal unmarked same) faithful (self.registered className record rfl)]
  rfl

end Agreeing

/-- One level more of containers, given that the bodies inside them are recalled as their normal
forms. -/
theorem agreeing_bodyWith {context : Context}
    (faithful : ∀ registry, context.registry = some registry → registry.IsFaithful)
    {inner : Except CodecError BodyWriter} {remember : Option BodyRecall}
    (deeper : ∀ write, inner = .ok write →
      ∃ inside, remember = some inside ∧ Agreeing context write inside) :
    Agreeing context (Encoding.writeBodyWith context inner) (Recall.bodyWith context remember) := by
  constructor
  intro field tag linked value start earlier calls bytes run short lossless
  have below (w : TypeTag × Value) (there : w ∈ (value.written context tag linked).tail) :
      Lossless context w := lossless w (List.mem_of_mem_tail there)
  -- one case for each way in which a body is written
  cases WrittenBody.of_eq_ok run with
  | scalar flat written =>
    rw [Recall.bodyWith_flat flat]
    exact Agrees.scalar faithful short (lossless _ (Value.mem_written _ _ _)) written
  | embedded inside written =>
    obtain ⟨inner, rfl, agreeing⟩ := deeper _ inside
    exact agreeing.embedded lossless written short
  | serializable inside written =>
    obtain ⟨inner, rfl, agreeing⟩ := deeper _ inside
    exact agreeing.serializable faithful lossless written short
  | sequence sort elements inside written =>
    obtain ⟨inner, rfl, agreeing⟩ := deeper _ inside
    rw [Value.written_sequence elements] at below
    rw [Recall.bodyWith_sequence sort elements, Value.normal_sequence elements]
    exact (agreeing.items below written short).map
  | map inside written =>
    obtain ⟨inner, rfl, agreeing⟩ := deeper _ inside
    exact (agreeing.members below written short).map

/-- Every body is recalled as its normal form, however deep it nests. -/
theorem agreeing_body {context : Context}
    (faithful : ∀ registry, context.registry = some registry → registry.IsFaithful) (room : Nat) :
    Agreeing context (Encoding.writeBody context room) (Recall.body context room) := by
  induction room with
  | zero => exact agreeing_bodyWith faithful fun write none => by cases none
  | succ room ih =>
    refine agreeing_bodyWith faithful fun write same => ⟨_, rfl, ?_⟩
    cases same
    exact ih

end DocumentCodec
