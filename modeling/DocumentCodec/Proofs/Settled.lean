import DocumentCodec.Proofs.RoundTrip
import DocumentCodec.Proofs.Settled.Scalar
/-!
# Which identities are stored

Whatever the resolver does, an encoding without a proxy stores three sorts of identities: persistent
ones, the one that stands for no link, and answers of the resolver.  The answers are not looked at
again, so a resolver that answers with an identity of an open transaction gets it stored.

If all stored identities are of the first two sorts, the record that is decoded can be encoded
without a resolver, unless a factory puts other links into an object.  A decoded value is of the
kind of the tag that it was written under, so it is written under that tag again, and its links hold
the identities that were stored.  The induction is on the room, over what is recalled of a value and
the events of writing it.
-/

namespace DocumentCodec

variable {context : Context}

/-! ## Bodies with bodies inside

The record that came back is written under the tags it came back under, which are those it had.
Only its class name may have changed, from the empty one to none, and then nothing is prescribed. -/

/-- A record is written without the resolver if its fields are. -/
theorem Encoding.silent_record {write : BodyWriter} {record : Record}
    (silent : ∀ field ∈ record.fields, (Member.ofField context record.className field).Silent write) :
    Encoder.Silent (writeRecord context write record) := by
  rw [writeRecord_eq]
  refine Member.silent_table _ _ _ fun member there => ?_
  obtain ⟨field, kept, rfl⟩ := List.mem_map.mp there
  exact silent field (List.mem_filter.mp kept).1

/-- What came back of a value that was written under a tag: a value of the kind of the tag, which is
written under it without the resolver if the type of its elements is the one declared before, or is
left open. -/
structure ComesBack (write : BodyWriter) (tag : TypeTag) (linked : Option TypeTag) (made : Value) :
    Prop where
  natural : made.naturalTag = some tag
  silent : ∀ field again, again = linked ∨ again = none →
    Encoder.Silent (write field tag again made)

/-- Where the events of a value pass, what is recalled of it comes back; and text, which may mark an
object, is written without the resolver under any tag. -/
structure Settling (context : Context) (write : BodyWriter) (inner : BodyEvents)
    (remember : BodyRecall) : Prop where
  back : ∀ {field : String} {tag : TypeTag} {linked : Option TypeTag} {value : Value},
    value.isWellFormed = true →
    Returns context (inner field tag linked value) (remember tag linked value)
      (ComesBack write tag linked)
  text : ∀ field tag linked text, Encoder.Silent (write field tag linked (.string text))

namespace Settling

variable {write : BodyWriter} {inner : BodyEvents} {remember : BodyRecall}
  (settling : Settling context write inner remember)
include settling

/-! ### Lists and sets -/

/-- An element is written again behind the tag that it had. -/
theorem item (field : String) (linked : Option TypeTag) {item : Value}
    (formed : item.isWellFormed = true) :
    Returns context (Encoding.itemEvents inner field (linked.filter (·.isConcrete)) item)
      (Recall.item remember linked item) fun made => ∀ field again, again = linked ∨ again = none →
        Encoder.Silent (Encoding.writeItem write field (again.filter (·.isConcrete)) made) := by
  unfold Encoding.itemEvents Recall.item
  by_cases null : item.isNull = true
  · rw [if_pos null, inSlot_of_null null]
    exact .pure fun field again _ => .emit _
  · rw [if_neg null]
    rw [Bool.not_eq_true] at null
    cases typed : linked.filter (·.isConcrete) <|> item.naturalTag with
    | none =>
      intro earlier last recalled made passes
      -- an element without a tag is refused, and nothing comes back of it
      exact absurd passes Passes.not_refuse
    | some tag =>
      rw [inSlot_of_ok null (itemTag_eq_ok typed)]
      refine (settling.back formed).mono fun made back field again same => ?_
      -- a declared type is the one from before, and else the kind asks for it
      have typed' : (again.filter (·.isConcrete) <|> made.naturalTag) = some tag := by
        rw [back.natural]
        rcases same with rfl | rfl
        · cases declared : again.filter (·.isConcrete) with
          | none => rfl
          | some other =>
            rw [declared] at typed
            exact typed
        · rfl
      unfold Encoding.writeItem
      rw [if_neg (by simp [Value.isNull_of_naturalTag back.natural]), typed']
      have first : Encoder.Silent (Encoder.byte tag.id) := .emit _
      exact first.bind fun _ => back.silent field none (Or.inr rfl)

/-- The elements that come back of a list are written again in silence, whether the type of links
that the schema declares is still declared then or not. -/
theorem items {field : String} {linked : Option TypeTag} {items : List Value}
    (formed : wellFormedItems items = true) :
    Returns context ((items.filter (!·.isTransient)).flatMap
        (Encoding.itemEvents inner field (linked.filter (·.isConcrete))))
      (Recall.items remember linked items) fun mades => ∀ field again, again = linked ∨ again = none →
        Encoder.Silent (Encoding.writeItems write field again mades) := by
  have each := Returns.mapM (items.filter (!·.isTransient)) fun element there =>
    settling.item field linked
      (wellFormedItems_iff.mp formed element (List.mem_filter.mp there).1)
  refine .length (each.mono fun mades silent field again same => ?_)
  have number : Encoder.Silent (Encoder.varint (mades.filter (!·.isTransient)).length) := .emit _
  have tagged : Encoder.Silent (Encoder.byte TypeTag.any.id) := .emit _
  exact number.bind fun _ => tagged.bind fun _ => .forM _ fun made there =>
    silent made (List.mem_filter.mp there).1 field again same

/-! ### Slots -/

/-- What is recalled of a slot: nothing, or a value that came back under the tag that was chosen. -/
theorem slot (member : Member) (formed : member.value.isWellFormed = true) :
    Returns context (member.events inner)
      (Recall.slot (fun tag => remember tag member.linked member.value) member.value member.tag)
      fun held => held = none ∨ ∃ tag made, member.tag = .ok tag ∧ held = some (tag, made) ∧
        ComesBack write tag member.linked made := by
  unfold Member.events Recall.slot
  by_cases null : member.value.isNull = true
  · rw [if_pos null, inSlot_of_null null]
    exact .pure (Or.inl rfl)
  · rw [if_neg null]
    rw [Bool.not_eq_true] at null
    cases choice : member.tag with
    | error reason =>
      intro earlier last recalled made passes
      -- without a tag the encoding fails, and then these events do not pass
      exact absurd passes Passes.not_refuse
    | ok tag =>
      rw [inSlot_of_ok null rfl]
      refine (settling.back formed).bind fun made back => ?_
      intro earlier last recalled held passes run
      cases run
      exact ⟨passes.reach.symm, Or.inr ⟨tag, made, rfl, rfl, back⟩⟩

/-! ### Maps -/

/-- So is the member that comes back of a map, whose tag is that of its own kind the second time
too. -/
theorem member (field : String) (pair : String × Value) (formed : pair.2.isWellFormed = true) :
    Returns context ((Member.ofPair field pair).events inner) (Recall.member remember pair)
      fun made => ∀ field, (Member.ofPair field made).Silent write := by
  refine .string ((settling.slot (Member.ofPair field pair) formed).map ?_)
  rintro held (rfl | ⟨tag, made, -, rfl, back⟩) again chosen notNull choice
  · cases notNull
  · -- a member of a map goes by the kind of its value
    have same : memberTag made = .ok chosen := choice
    rw [memberTag_natural back.natural] at same
    cases same
    exact back.silent again none (Or.inl rfl)

/-- So are all members of a map. -/
theorem members {field : String} {pairs : List (String × Value)}
    (ordered : OrderedMap.Ascending pairs) (formed : wellFormedEntries pairs = true) :
    Returns context ((Encoding.mapMembers field (OrderedMap.ofList pairs)).flatMap
        (Member.events inner)) (Recall.members remember pairs) fun mades =>
      ∀ field, Encoder.Silent (Encoding.writeMap write field mades) := by
  rw [OrderedMap.ofList_eq_self ordered, Encoding.mapMembers, List.flatMap_map]
  have each := Returns.mapM (pairs.filter (!·.2.isTransient)) fun pair there =>
    settling.member field pair (wellFormedEntries_iff.mp formed pair (List.mem_filter.mp there).1)
  refine .length (each.mono fun mades silent field => ?_)
  rw [Encoding.writeMap_eq]
  refine Member.silent_table _ _ _ fun member there => ?_
  obtain ⟨made, kept, rfl⟩ := List.mem_map.mp there
  exact silent made (List.mem_filter.mp kept).1 field

/-! ### Records -/

/-- A field is written again under the tag that it is pinned to, by the same schema or by none. -/
theorem field (className : Option String) (field : Field)
    (formed : field.value.isWellFormed = true) :
    Returns context ((Member.ofField context className field).events inner)
      (Recall.field context remember className field) fun made =>
        ∀ again, again = className ∨ again = none →
          (Member.ofField context again made).Silent write := by
  refine .after fun earlier _ mid headed => ⟨Recall.heading_eq_some headed, ?_⟩
  have slot := settling.slot (Member.ofField context className field) (by simpa using formed)
  simp only [Member.value_ofField, Member.tag_ofField, Member.linked_ofField] at slot
  refine slot.map ?_
  rintro held (rfl | ⟨tag, made, choice, rfl, back⟩) again same chosen notNull choice'
  · -- what is in the slot is null
    simp at notNull
    cases notNull
  · rw [Member.tag_ofField] at choice'
    rw [Member.field_ofField, Member.value_ofField, Member.linked_ofField]
    -- a slot that the schema pins was filled under that tag; without the class nothing is pinned
    have agrees : pinnedTag context again field.name = none ∨
        pinnedTag context again field.name = some tag := by
      rcases same with rfl | rfl
      · exact Encoding.fieldTag_pinned field choice
      · left
        unfold pinnedTag Encoding.property?
        cases context.schema <;> rfl
    have declared : linkedTag context again field.name = linkedTag context className field.name ∨
        linkedTag context again field.name = none := by
      rcases same with rfl | rfl
      · exact Or.inl rfl
      · right
        unfold linkedTag Encoding.property?
        cases context.schema <;> rfl
    have same := (Encoding.fieldTag_natural field.name back.natural agrees).1.symm.trans choice'
    cases same
    exact back.silent _ _ declared

/-- So are the fields that come back of a record.  Their record may have lost its class name, and
with it what the schema prescribes: that is what the silence of a field allows for. -/
theorem record {record : Record} (formed : ∀ field ∈ record.fields, field.value.isWellFormed = true) :
    Returns context (Encoding.recordEvents context inner record)
      (Recall.record context remember record) fun made =>
        ∀ field ∈ made.fields, (Member.ofField context made.className field).Silent write := by
  rw [Encoding.recordEvents, Encoding.recordMembers, List.flatMap_map]
  have each := Returns.mapM (record.fields.filter (!Encoding.isOmitted ·)) fun field there =>
    settling.field record.className field (formed field (List.mem_filter.mp there).1)
  -- the empty class name comes back as none
  have classed : (Binder.named (record.className.getD "") Record.new).className = record.className ∨
      (Binder.named (record.className.getD "") Record.new).className = none := by
    by_cases empty : record.className = some ""
    · right
      rw [empty]
      rfl
    · left
      rw [Binder.named_new empty]
  exact .string (each.map fun fields silent field there => silent field there _ classed)

/-- The field that marks an object holds text. -/
theorem silent_markedRecord {className : String} {record : Record}
    (silent : ∀ field ∈ record.fields, (Member.ofField context record.className field).Silent write) :
    Encoder.Silent (Encoding.writeRecord context write (Encoding.markedRecord className record)) := by
  refine Encoding.silent_record fun field there => ?_
  rw [Encoding.markedRecord, Record.className_set]
  rcases Record.mem_fields_set there with before | ⟨-, marks⟩
  · exact silent field before
  · intro tag _ _
    rw [Member.value_ofField, marks]
    exact settling.text _ _ _ _

end Settling

/-! ### Embedded records and objects -/

/-- The factories hand an object back as it was stored, or refuse to; what they do with streams of
bytes does not matter. -/
def Context.RestoresObjects (context : Context) : Prop :=
  ∀ registry, context.registry = some registry → ∀ className record object,
    registry.makeSerializable className record = .ok object → object = ⟨className, record⟩

section Levels

variable (restores : context.RestoresObjects)
include restores

/-- A record that was written as part of another comes back, or as the object that it is marked to
stand for. -/
theorem Settling.embedded {write : BodyWriter} {inner : BodyEvents} {remember : BodyRecall}
    (settling : Settling context write inner remember) {linked : Option TypeTag} {record : Record}
    (formed : ∀ field ∈ record.fields, field.value.isWellFormed = true) :
    Returns context (Encoding.recordEvents context inner record)
      (Recall.embedded context remember record)
      (ComesBack (Encoding.writeBodyWith context (.ok write)) .embedded linked) := by
  intro earlier last recalled value passes run
  obtain ⟨made, mid, here, found⟩ := Recalling.run_bind_eq_some.mp run
  obtain ⟨rfl, silent⟩ := settling.record formed passes here
  obtain ⟨embeds, rfl⟩ := Recalling.answer_eq_some.mp found
  refine ⟨rfl, ?_⟩
  unfold Recall.embed at embeds
  split at embeds
  · -- an object was made of it, and what is written of that is the record with the mark again
    obtain ⟨registry, known, makes⟩ := Option.bind_eq_some_iff.mp embeds
    obtain ⟨object, outcome, same⟩ := Option.bind_eq_some_iff.mp makes
    obtain rfl := restores registry known _ _ object (eq_ok_of_toOption outcome)
    cases same
    refine ⟨rfl, fun field again _ => settling.silent_markedRecord fun field there => ?_⟩
    exact silent field (List.mem_filter.mp there).1
  · -- it stays a record
    cases embeds
    exact ⟨by simp [Value.naturalTag], fun field again _ => Encoding.silent_record silent⟩

/-! ### Level by level -/

/-- What is left for the bodies inside a container: a level at which values come back, or none. -/
inductive Settling.Level (context : Context) :
    Except CodecError BodyWriter → Option BodyEvents → Option BodyRecall → Prop where
  | none {e : CodecError} {remember : Option BodyRecall} : Level context (.error e) none remember
  | some {write : BodyWriter} {inner : BodyEvents} {remember : BodyRecall}
      (settling : Settling context write inner remember) :
      Level context (.ok write) (some inner) (some remember)

omit restores in
/-- Bodies that hold no others have the same events at every level. -/
theorem Encoding.eventsWith_flat {tag : TypeTag} (flat : tag.isContainer = false)
    (inner : Option BodyEvents) (field : String) (linked : Option TypeTag) (value : Value) :
    eventsWith context inner field tag linked value = scalarEvents context field tag value := by
  cases tag with
  | embedded | embeddedList | embeddedSet | embeddedMap => cases flat
  | _ => rfl

/-- **A value comes back** if the values inside it do. -/
theorem settling_bodyWith {left : Except CodecError BodyWriter} {known : Option BodyEvents}
    {inside : Option BodyRecall} (level : Settling.Level context left known inside) :
    Settling context (Encoding.writeBodyWith context left) (Encoding.eventsWith context known)
      (Recall.bodyWith context inside) := by
  constructor
  · intro field tag linked value formed
    cases flat : tag.isContainer with
    | false =>
      rw [Encoding.eventsWith_flat flat, Recall.bodyWith_flat flat]
      refine (Returns.scalar formed).mono fun made fact => ⟨fact.1, fun field again _ => ?_⟩
      rw [Encoding.writeBodyWith_flat flat]
      exact fact.2 field
    | true =>
      -- a container is too deep or holds values that come back, and any other value is refused
      cases tag with
      | embedded =>
        cases value with
        | embedded record =>
          cases level with
          | none => exact fun _ _ _ _ passes => absurd passes Passes.not_tooDeep
          | some settling => exact settling.embedded restores (Encoding.formed_fields formed)
        | serializable className record =>
          cases level with
          | none => exact fun _ _ _ _ passes => absurd passes Passes.not_tooDeep
          | some settling =>
            exact settling.embedded restores
              (Encoding.formed_markedRecord (Encoding.formed_fields formed))
        | _ => exact fun _ _ _ _ passes => absurd passes Passes.not_refuse
      | embeddedList | embeddedSet =>
        cases value with
        | embeddedList items | embeddedSet items =>
          cases level with
          | none => exact fun _ _ _ _ passes => absurd passes Passes.not_tooDeep
          | some settling => exact (settling.items formed).map fun made silent => ⟨rfl, silent⟩
        | _ => exact fun _ _ _ _ passes => absurd passes Passes.not_refuse
      | embeddedMap =>
        cases value with
        | embeddedMap pairs =>
          have formed := Bool.and_eq_true_iff.mp formed
          cases level with
          | none => exact fun _ _ _ _ passes => absurd passes Passes.not_tooDeep
          | some settling =>
            exact (settling.members (of_decide_eq_true formed.1) formed.2).map fun made silent =>
              ⟨rfl, fun field _ _ => silent field⟩
        | _ => exact fun _ _ _ _ passes => absurd passes Passes.not_refuse
      | _ => cases flat
  · intro field tag linked text
    -- text holds no links, and no container takes it
    have flat : Encoding.writeBodyWith context left field tag linked (.string text)
        = Encoding.writeScalar context field tag (.string text) := by
      cases tag <;> rfl
    rw [flat]
    exact Encoding.silent_scalar (by cases tag <;> rfl)

/-- **What comes back of a body is settled**, at any depth; the induction is on the levels that are
left. -/
theorem settling_body (room : Nat) : Settling context (Encoding.writeBody context room)
    (Encoding.events context room) (Recall.body context room) := by
  induction room with
  | zero => exact settling_bodyWith restores .none
  | succ room ih => exact settling_bodyWith restores (.some ih)

end Levels

/-! ## Whole records

The links of the record that came back are the identities that were stored; if those need no
resolver, writing it needs none. -/

namespace Record

variable {record made : Record} {start : Nat} {earlier calls : List LinkTarget}
  {bytes input : List UInt8}

/-- A record that was recalled where all events passed is encoded without the resolver. -/
theorem silent_of_recalled (restores : context.RestoresObjects)
    (formed : record.isWellFormed = true) {last recalled : List LinkTarget}
    (passes : Passes context earlier (record.events context) last)
    (run : record.recalled context earlier = some (made, recalled)) :
    Encoder.Silent (made.emission context) := by
  have settling := settling_body restores context.options.maxDepth
  exact Encoding.silent_record (settling.record (Encoding.formed_fields formed) passes run).2

/-- **Which identities are stored.**  Where encoding without a proxy goes through, an identity is
stored for each link, in turn, wherever the encoding stands.  It is persistent, or it stands for no
link, or the resolver answered with it when it was asked for a target in this encoding; then it was
assigned, but it may be known in a transaction alone.  If there are none of the last sort, the
record that is decoded from there needs no resolver, wherever and whenever it is encoded: nothing is
asked for, and no link fails. -/
theorem stored_identities (formed : record.isWellFormed = true)
    (plain : context.options.proxyStorage = false)
    (run : record.emission context start earlier = ⟨bytes, calls, .ok ()⟩)
    (holds : Holds input start bytes) :
    ∃ rids, Stores context earlier (record.events context) rids (earlier ++ calls) ∧
      Stand input start rids ∧
      (∀ rid ∈ rids, rid.isPersistent = true ∨ rid.isNullLink = true ∨
        ∃ resolve asked target, context.resolver = some resolve ∧
          earlier <+: asked ∧ asked ++ [target] <+: earlier ++ calls ∧
          some target ∈ Event.links (record.events context) ∧ Link.isPending target.rid = true ∧
          resolve asked target = .ok rid ∧ rid.isValid = true) ∧
      ((∀ rid ∈ rids, rid.isPersistent = true ∨ rid.isNullLink = true) →
        (∀ schema, context.schema = some schema → schema.IsCoherent) → context.RestoresObjects →
        record.IsNamed context → input.length < 2 ^ 63 →
        ∀ visited there made, decodeFrom context input none ⟨⟨start, visited⟩, Record.new⟩
            = .ok () ⟨there, made⟩ →
          ∀ place asked, (made.emission context place asked).calls = [] ∧ ∀ rid problem,
            (made.emission context place asked).result
              ≠ .error (.linkResolutionFailure rid problem)) := by
  have performs : Encoder.Performs context (record.emission context) (record.events context) :=
    Encoding.performs_record (Encoding.performs_body context.options.maxDepth)
      (Encoding.formed_fields formed)
  have ran := performs start earlier input
  rw [run] at ran
  -- the encoding ran through its events, so each link among them has an identity where it stands
  obtain ⟨rids, stores, stand⟩ := Stores.of_runs (ran holds)
  refine ⟨rids, stores, stand, fun rid there => ?_, ?_⟩
  · rcases stores.origin plain rid there with settled | answered
    · rcases (Link.isPending_eq_false_iff rid).mp settled with persistent | null
      · exact Or.inl persistent
      · exact Or.inr (Or.inl null)
    · exact Or.inr (Or.inr answered)
  · intro settled coherent restores named small visited there made decoded
    -- all identities are settled, which is what the second encoding needs to know of the first
    have passes : Passes context earlier (record.events context) (earlier ++ calls) :=
      ⟨rids, stores, fun rid among => (Link.isPending_eq_false_iff rid).mpr (settled rid among)⟩
    have recalled := recalled_of_decodeFrom formed coherent named run holds small decoded
    exact silent_of_recalled restores formed passes recalled

/-- One link is stored as it is, one as the resolver's answer, and an absent one as the identity set
aside for it; none of the three is left to be asked for when the record is decoded and encoded
again. -/
theorem stored_identities_of_three :
    let context : Context := { resolver := some fun _ _ => .ok ⟨3, 7⟩ }
    let record : Record := ⟨none, RecordId.empty,
      [⟨"a", .link (.identity ⟨5, 2⟩), none⟩,
        ⟨"l", .linkList [some (.identity ⟨-1, -7⟩), none], none⟩], false⟩
    let bytes : List UInt8 := [0, 1, 97, 0, 0, 0, 16, 13, 1, 108, 0, 0, 0, 18, 14, 0, 5, 2, 2, 3, 7,
      254, 255, 255, 255, 255, 255, 255, 255, 255, 1, 255, 255, 255, 255, 255, 255, 255, 255, 255, 1]
    let made : Record := ⟨none, RecordId.empty,
      [⟨"a", .link (.identity ⟨5, 2⟩), some .link⟩,
        ⟨"l", .linkList [some (.identity ⟨3, 7⟩), none], some .linkList⟩], false⟩
    context.options.proxyStorage = false ∧
      record.emission context 0 [] = ⟨bytes, [.identity ⟨-1, -7⟩], .ok ()⟩ ∧
      decode context bytes none Record.new = .ok () ⟨⟨bytes.length, bytes.length⟩, made⟩ ∧
      ∀ place asked, (made.emission context place asked).calls = [] ∧ ∀ rid problem,
        (made.emission context place asked).result
          ≠ .error (.linkResolutionFailure rid problem) := by
  intro context record bytes made
  have run : record.emission context 0 [] = ⟨bytes, [.identity ⟨-1, -7⟩], .ok ()⟩ := by
    subst bytes record context
    rfl
  have named : record.IsNamed context := by
    unfold IsNamed
    decide
  have recalled : record.recalled context [] = some (made, [.identity ⟨-1, -7⟩]) := by
    subst made record context
    rfl
  have encoded : record.encode context = .ok bytes := by
    rw [encode, run]
    rfl
  have decoded : decode context bytes none Record.new
      = .ok () ⟨⟨bytes.length, bytes.length⟩, made⟩ :=
    decode_of_recalled rfl (fun _ none => by cases none) named encoded (by decide) recalled
  obtain ⟨rids, -, -, sorts, again⟩ := stored_identities rfl rfl run (Holds.whole bytes)
  have settled : ∀ rid ∈ rids, rid.isPersistent = true ∨ rid.isNullLink = true := by
    intro rid there
    rcases sorts rid there with persistent | null | ⟨resolve, _, _, known, _, _, _, _, answered, _⟩
    · exact Or.inl persistent
    · exact Or.inr null
    · cases known
      cases answered
      exact Or.inl rfl
  exact ⟨rfl, run, decoded, again settled (fun _ none => by cases none) (fun _ none => by cases none)
    named (by decide) 0 _ made decoded⟩

/-- The resolver may answer with an identity of a transaction.  It is stored, though it is neither
persistent nor the one that stands for no link, and the record that is decoded asks for it again.
And where no identity is stored at all, a factory may still make an object with a link of its
own. -/
theorem asked_again :
    (let answer : RecordId := ⟨-1, -5⟩
      let context : Context := { resolver := some fun _ _ => .ok answer }
      let record : Record := ⟨none, RecordId.empty, [⟨"l", .link (.identity ⟨-1, -7⟩), none⟩], false⟩
      let bytes : List UInt8 := [0, 1, 108, 0, 0, 0, 9, 13, 0, 255, 255, 255, 255, 255, 255, 255, 255,
        255, 1, 251, 255, 255, 255, 255, 255, 255, 255, 255, 1]
      let made : Record :=
        ⟨none, RecordId.empty, [⟨"l", .link (.identity answer), some .link⟩], false⟩
      context.options.proxyStorage = false ∧ record.isWellFormed = true ∧
        record.encode context = .ok bytes ∧
        Stores context [] (record.events context) [answer] [.identity ⟨-1, -7⟩] ∧
        Holds bytes 9 (Link.idBytes answer) ∧
        answer.isTemporary = true ∧ answer.isPersistent = false ∧ answer.isNullLink = false ∧
        decode context bytes none Record.new = .ok () ⟨⟨bytes.length, bytes.length⟩, made⟩ ∧
        (made.emission context 0 []).calls = [.identity answer]) ∧
    (let linked : Record := ⟨none, RecordId.empty, [⟨"l", .link (.identity ⟨-1, -7⟩), none⟩], false⟩
      let context : Context :=
        { registry := some ⟨[], [("K", fun _ => .ok ⟨"K", linked⟩)]⟩
          resolver := some fun _ _ => .ok ⟨3, 7⟩ }
      let record : Record := ⟨none, RecordId.empty, [⟨"o", .serializable "K" Record.new, none⟩], false⟩
      let made : Record :=
        ⟨none, RecordId.empty, [⟨"o", .serializable "K" linked, some .embedded⟩], false⟩
      ∃ bytes, record.encode context = .ok bytes ∧
        Stores context [] (record.events context) [] [] ∧
        decode context bytes none Record.new = .ok () ⟨⟨bytes.length, bytes.length⟩, made⟩ ∧
        (made.emission context 0 []).calls = [.identity ⟨-1, -7⟩]) := by
  constructor
  · -- a resolver that answers with an identity that is pending itself
    intro answer context record bytes made
    have run : record.encode context = .ok bytes := eq_ok_of_toOption (by decide +kernel)
    have named : record.IsNamed context := by
      unfold IsNamed
      decide
    have recalled : record.recalled context [] = some (made, [.identity ⟨-1, -7⟩]) := by
      subst made record context answer
      rfl
    have stores : Stores context [] (record.events context) [answer] [.identity ⟨-1, -7⟩] := by
      subst record context answer
      exact .link rfl (.reach .nil)
    have holds : bytes = [0, 1, 108, 0, 0, 0, 9, 13, 0] ++ Link.idBytes answer ++ [] := by
      decide +kernel
    have again : (made.emission context 0 []).calls = [.identity answer] := by
      subst made context answer
      rfl
    have decoded : decode context bytes none Record.new
        = .ok () ⟨⟨bytes.length, bytes.length⟩, made⟩ :=
      decode_of_recalled rfl (fun _ none => by cases none) named run (by decide) recalled
    exact ⟨rfl, rfl, run, stores, ⟨_, _, holds, rfl⟩, rfl, rfl, rfl, decoded, again⟩
  · -- a factory that makes an object of its own, with a pending link in it
    intro linked context record made
    let bytes : List UInt8 := [0, 1, 111, 0, 0, 0, 9, 9, 0, 0, 29, 95, 95, 111, 114, 105, 101, 110,
      116, 100, 98, 95, 115, 101, 114, 105, 108, 105, 122, 101, 100, 95, 99, 108, 97, 115, 115, 95,
      95, 32, 0, 0, 0, 46, 7, 0, 1, 75]
    have run : record.encode context = .ok bytes := eq_ok_of_toOption (by decide +kernel)
    have named : record.IsNamed context := by
      unfold IsNamed
      decide
    have recalled : record.recalled context [] = some (made, []) := by
      subst made record context linked
      rfl
    have stores : Stores context [] (record.events context) [] [] := by
      subst record context linked
      exact .reach (.reach .nil)
    have again : (made.emission context 0 []).calls = [.identity ⟨-1, -7⟩] := by
      subst made context linked
      rfl
    have decoded : decode context bytes none Record.new
        = .ok () ⟨⟨bytes.length, bytes.length⟩, made⟩ :=
      decode_of_recalled rfl (fun _ none => by cases none) named run (by decide) recalled
    exact ⟨bytes, run, stores, decoded, again⟩

end Record
end DocumentCodec
