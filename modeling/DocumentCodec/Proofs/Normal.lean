import DocumentCodec.Encoding
import DocumentCodec.WellFormed
/-!
# The normal form of a record

Encoding a record and decoding it again does not give the record back but its *normal form*: what
is transient is gone, links have become identities, and each value is of the kind of the tag it
was written under.

The normal form depends on the context, which knows the tags and resolves the links.  A resolver
may keep state, so the normal form is computed from the targets that the resolver was asked for
before, and says which it was asked for by then, in the order in which the values are written.
-/

namespace DocumentCodec

/-- A computation that asks the resolver for targets, given those it was asked for before. -/
abbrev Asking := StateM (List LinkTarget)

/-! ## Asking in sequence

Asking is a computation that may not fail and keeps the list of what the resolver was asked for. -/

namespace Asking

variable {α β : Type} {earlier mid last : List LinkTarget}

theorem run_bind {x : Asking α} {f : α → Asking β} {a : α} (first : x earlier = (a, mid)) :
    (x >>= f) earlier = f a mid := by
  show (match x earlier with | (a, asked) => f a asked) = f a mid
  rw [first]

/-- Asking for a list is asking for the first thing and then for the others. -/
theorem run_mapM_cons {f : α → Asking β} {a : α} {rest : List α} {b : β} {bs : List β}
    (first : f a earlier = (b, mid)) (later : rest.mapM f mid = (bs, last)) :
    (a :: rest).mapM f earlier = (b :: bs, last) := by
  rw [List.mapM_cons, run_bind first, run_bind later]
  rfl

theorem mapM_cons (f : α → Asking β) (a : α) (rest : List α) (earlier : List LinkTarget) :
    (a :: rest).mapM f earlier = ((f a earlier).1 :: (rest.mapM f (f a earlier).2).1,
      (rest.mapM f (f a earlier).2).2) :=
  run_mapM_cons rfl rfl

/-- Each answer was given for one of the things that were asked for. -/
theorem mem_mapM {f : α → Asking β} : ∀ (items : List α) {earlier last : List LinkTarget}
    {made : List β}, items.mapM f earlier = (made, last) → ∀ {b : β}, b ∈ made →
    ∃ a ∈ items, ∃ asked, (f a asked).1 = b := by
  intro items
  induction items with
  | nil =>
    intro earlier last made run b there
    cases run
    cases there
  | cons a rest ih =>
    intro earlier last made run b there
    rw [mapM_cons] at run
    cases run
    rcases List.mem_cons.mp there with rfl | later
    · exact ⟨a, List.mem_cons_self, earlier, rfl⟩
    · obtain ⟨a', inside, found⟩ := ih rfl later
      exact ⟨a', List.mem_cons_of_mem _ inside, found⟩

/-- What keeps a key of each thing keeps the keys of them all. -/
theorem map_mapM {γ : Type} {f : α → Asking β} {key : α → γ} {key' : β → γ}
    (keeps : ∀ a asked, key' (f a asked).1 = key a) : ∀ (items : List α)
    {earlier last : List LinkTarget} {made : List β}, items.mapM f earlier = (made, last) →
    made.map key' = items.map key := by
  intro items
  induction items with
  | nil =>
    intro earlier last made run
    cases run
    rfl
  | cons a rest ih =>
    intro earlier last made run
    rw [mapM_cons] at run
    cases run
    have later : (rest.mapM f (f a earlier).2).1.map key' = rest.map key := ih rfl
    rw [List.map_cons, List.map_cons, keeps, later]

end Asking

/-! ## Links

A link becomes the identity that is stored for it, and the null link becomes no link. -/

/-- The identity that stands for a target when it is read back: its own if it can be stored as it
is, else the resolver's answer, and without a usable one the identity at hand. -/
def LinkTarget.stored (context : Context) (target : LinkTarget) : Asking RecordId := fun earlier =>
  if Link.isPending target.rid then
    match context.resolver with
    | none => (target.rid, earlier)
    | some resolve =>
      match resolve earlier target with
      | .ok answer => (if answer.isValid then answer else target.rid, earlier ++ [target])
      | .error _ => (target.rid, earlier ++ [target])
  else (target.rid, earlier)

/-- An element of a collection of links: the identity set aside for it stands for none. -/
def normalLink (context : Context) : Option LinkTarget → Asking (Option LinkTarget)
  | none => return none
  | some target => do
    let rid ← target.stored context
    return if rid.isNullLink then none else some (.identity rid)

/-- An entry of a map of links. -/
def normalLinkEntry (context : Context) (entry : String × Option LinkTarget) :
    Asking (String × Option LinkTarget) :=
  return (entry.1, ← normalLink context entry.2)

/-! ## Values that hold no others

A number becomes one of the tag it was written under, an instant the start of its day, and
everything else stays. -/

namespace Value

/-- The milliseconds that a value of one of the three kinds that count them holds. -/
def millis? : Value → Option Int64
  | .date millis | .dateTime millis | .long millis => some millis
  | _ => none

/-- The value as a value of the kind of a tag: an integer with the width of the tag, a single as a
double, an instant as the beginning of its local day or as it is. -/
def retagged (zone : Zone) (tag : TypeTag) (value : Value) : Value :=
  match tag, value.int64?, value.millis? with
  | .short, some v, _ => .short v.toInt16
  | .integer, some v, _ => .integer v.toInt32
  | .long, some v, _ => .long v
  | .dateTime, _, some millis => .dateTime millis
  | .date, _, some millis => .date ((zone.startOfDay? (zone.dayNumber millis)).getD millis)
  | .double, _, _ =>
    match value with
    | .float word => .double (FloatWord.widen word)
    | _ => value
  | _, _, _ => value

theorem retagged_short {value : Value} {v : Int64} {zone : Zone}
    (number : value.int64? = some v) : value.retagged zone .short = .short v.toInt16 := by
  unfold retagged
  rw [number]

theorem retagged_integer {value : Value} {v : Int64} {zone : Zone}
    (number : value.int64? = some v) : value.retagged zone .integer = .integer v.toInt32 := by
  unfold retagged
  rw [number]

theorem retagged_long {value : Value} {v : Int64} {zone : Zone}
    (number : value.int64? = some v) : value.retagged zone .long = .long v := by
  unfold retagged
  rw [number]

theorem retagged_dateTime {value : Value} {millis : Int64} {zone : Zone}
    (instant : value.millis? = some millis) : value.retagged zone .dateTime = .dateTime millis := by
  unfold retagged
  rw [instant]

/-- A day that has no start in the zone keeps the milliseconds it was written with. -/
theorem retagged_date {value : Value} {millis : Int64} {zone : Zone}
    (instant : value.millis? = some millis) : value.retagged zone .date
      = .date ((zone.startOfDay? (zone.dayNumber millis)).getD millis) := by
  unfold retagged
  rw [instant]

end Value

/-! ## Values that hold others

A list that was written under the tag of sets comes back as a set, and a set under that of lists as
a list; a record that was written as a link comes back as one. -/

/-- What becomes of a value in a slot: for a null one there is nothing to be done, else it is what
is made under the tag that was chosen. -/
def inSlot {α : Type} (value : Value) (tag : Except Unsupported TypeTag) (nothing : α)
    (made : TypeTag → α) : α :=
  match value.isNull, tag with
  | false, .ok tag => made tag
  | _, _ => nothing

theorem inSlot_of_null {α : Type} {value : Value} {tag : Except Unsupported TypeTag} {nothing : α}
    {made : TypeTag → α} (null : value.isNull = true) : inSlot value tag nothing made = nothing := by
  unfold inSlot
  rw [null]

/-- Something is made of a value that is there under the tag that was chosen. -/
theorem inSlot_of_ok {α : Type} {value : Value} {tag : Except Unsupported TypeTag} {nothing : α}
    {made : TypeTag → α} {chosen : TypeTag} (notNull : value.isNull = false)
    (choice : tag = .ok chosen) : inSlot value tag nothing made = made chosen := by
  unfold inSlot
  rw [notNull, choice]

/-- Nothing is made where no tag could be chosen, be there a value or not. -/
theorem inSlot_of_error {α : Type} {value : Value} {tag : Except Unsupported TypeTag} {nothing : α}
    {made : TypeTag → α} {reason : Unsupported} (choice : tag = .error reason) :
    inSlot value tag nothing made = nothing := by
  unfold inSlot
  rw [choice]
  cases value.isNull <;> rfl

/-- Nothing is made, or something under some tag. -/
theorem inSlot_cases {α : Type} (value : Value) (tag : Except Unsupported TypeTag) {nothing : α}
    {made : TypeTag → α} : inSlot value tag nothing made = nothing ∨
      ∃ chosen, inSlot value tag nothing made = made chosen := by
  unfold inSlot
  split
  · exact Or.inr ⟨_, rfl⟩
  · exact Or.inl rfl

theorem Value.eq_null {value : Value} (null : value.isNull = true) : value = .null := by
  cases value with
  | null => rfl
  | _ => cases null

/-- No kind asks for the tag that stands for all of them. -/
theorem Value.naturalTag_ne_any (value : Value) : value.naturalTag ≠ some .any := by
  cases value with
  | embedded record =>
    rw [Value.naturalTag]
    split <;> simp
  | _ => simp [Value.naturalTag]

/-- A value that asks for a tag is there. -/
theorem Value.isNull_of_naturalTag {value : Value} {tag : TypeTag}
    (natural : value.naturalTag = some tag) : value.isNull = false := by
  cases value with
  | null => cases natural
  | _ => rfl

/-- A value that asks for a tag is not left out. -/
theorem Value.isTransient_of_naturalTag {value : Value} {tag : TypeTag}
    (natural : value.naturalTag = some tag) : value.isTransient = false := by
  cases value with
  | transient => cases natural
  | _ => rfl

/-- No kind asks for the tag of what is left out. -/
theorem Value.naturalTag_ne_transient (value : Value) : value.naturalTag ≠ some .transient := by
  cases value with
  | embedded record =>
    rw [Value.naturalTag]
    split <;> simp
  | _ => simp [Value.naturalTag]

/-- A field of a kind that is stored under its own tag is written alike with the pin and without. -/
theorem Encoding.fieldTag_natural (name : String) {value : Value} {chosen : TypeTag}
    {declared : Option TypeTag} (natural : value.naturalTag = some chosen)
    (agrees : declared = none ∨ declared = some chosen) :
    fieldTag ⟨name, value, some chosen⟩ declared = .ok chosen ∧
      fieldTag ⟨name, value, none⟩ declared = .ok chosen := by
  have concrete : (some chosen).filter (·.isConcrete) = some chosen := by
    refine Option.filter_eq_some_iff.mpr ⟨rfl, ?_⟩
    have other : chosen ≠ .any := fun same => value.naturalTag_ne_any (same ▸ natural)
    exact bne_iff_ne.mpr other
  unfold fieldTag
  dsimp only
  rw [concrete, natural]
  rcases agrees with rfl | rfl
  · exact ⟨rfl, rfl⟩
  · exact ⟨if_pos rfl, rfl⟩

/-- A field of a kind that is stored under its own tag leaves a trace. -/
theorem Encoding.isOmitted_natural (name : String) {value : Value} {chosen : TypeTag}
    (natural : value.naturalTag = some chosen) : isOmitted ⟨name, value, some chosen⟩ = false := by
  have other : chosen ≠ .transient := fun same => value.naturalTag_ne_transient (same ▸ natural)
  refine Bool.or_eq_false_iff.mpr ⟨Value.isTransient_of_naturalTag natural, ?_⟩
  exact beq_eq_false_iff_ne.mpr fun same => other (Option.some.inj same)

/-- The type that the schema pins a field to. -/
def pinnedTag (context : Context) (className : Option String) (field : String) :
    Option TypeTag :=
  (Encoding.property? context className field).bind (·.concreteType?)

/-- The type that the schema declares for the elements of a field's collection. -/
def linkedTag (context : Context) (className : Option String) (field : String) :
    Option TypeTag :=
  (Encoding.property? context className field).bind (·.linked)

/-- A field without a property is not pinned, and nothing is declared for the elements of it. -/
theorem pinnedTag_of_none {context : Context} {className : Option String} {field : String}
    (unknown : Encoding.property? context className field = none) :
    pinnedTag context className field = none := by
  rw [pinnedTag, unknown]
  rfl

/-- Where no field is bound no type of links is declared. -/
theorem linkedTag_of_none {context : Context} {className : Option String} {field : String}
    (unknown : Encoding.property? context className field = none) :
    linkedTag context className field = none := by
  rw [linkedTag, unknown]
  rfl

/-- The tag of an element: the one declared for them all, else the one of its kind. -/
def itemTag (linked : Option TypeTag) (item : Value) : Except Unsupported TypeTag :=
  match linked.filter (·.isConcrete) <|> item.naturalTag with
  | some tag => .ok tag
  | none => .error .untypedElement

/-- The tag of a map's member: the one of its kind. -/
def memberTag (value : Value) : Except Unsupported TypeTag :=
  match value.naturalTag with
  | some tag => .ok tag
  | none => .error .untypedMapValue

theorem itemTag_eq_ok {linked : Option TypeTag} {item : Value} {chosen : TypeTag}
    (typed : (linked.filter (·.isConcrete) <|> item.naturalTag) = some chosen) :
    itemTag linked item = .ok chosen := by
  rw [itemTag, typed]

theorem itemTag_natural {item : Value} {chosen : TypeTag} (natural : item.naturalTag = some chosen) :
    itemTag none item = .ok chosen := itemTag_eq_ok natural

theorem memberTag_natural {value : Value} {chosen : TypeTag}
    (natural : value.naturalTag = some chosen) : memberTag value = .ok chosen := by
  rw [memberTag, natural]

mutual

/-- The value that is read back for one that was written under a tag; `linked` is the type that a
schema declares for the elements of a collection. -/
def Value.normal (context : Context) (tag : TypeTag) (linked : Option TypeTag) :
    Value → Asking Value
  | .embedded record =>
    match tag with
    | .link => return .link (.identity (← (LinkTarget.record record).stored context))
    | _ => return .embedded { ← record.normal context with isEmbedded := true }
  | .embeddedList items => do
    let items ← normalItems context linked items
    return if tag = .embeddedSet then .embeddedSet items else .embeddedList items
  | .embeddedSet items => do
    let items ← normalItems context linked items
    return if tag = .embeddedSet then .embeddedSet items else .embeddedList items
  | .embeddedMap members => return .embeddedMap (← normalMembers context members)
  | .link target => return .link (.identity (← target.stored context))
  | .linkList items => do
    let items ← items.mapM (normalLink context)
    return if tag = .linkSet then .linkSet items else .linkList items
  | .linkSet items => do
    let items ← items.mapM (normalLink context)
    return if tag = .linkSet then .linkSet items else .linkList items
  | .linkMap entries => return .linkMap (← entries.mapM (normalLinkEntry context))
  | .serializable className record => return .serializable className (← record.normal context)
  | value => return value.retagged context.options.zone tag
termination_by structural x => x

/-- The record that is read back: of its own it keeps its class name and its fields in order. -/
def Record.normal (context : Context) : Record → Asking Record
  | ⟨className, _, fields, _⟩ =>
    return ⟨className, RecordId.empty, ← normalFields context className fields, false⟩
termination_by structural x => x

/-- The fields that are read back: those that were not left out, each with the tag it was written
under. -/
def normalFields (context : Context) (className : Option String) : List Field → Asking (List Field)
  | [] => return []
  | ⟨name, value, pinned⟩ :: rest =>
    let tag := Encoding.fieldTag ⟨name, value, pinned⟩ (pinnedTag context className name)
    if Encoding.isOmitted ⟨name, value, pinned⟩ then normalFields context className rest
    else do
      let first ← inSlot value tag (return ⟨name, value, none⟩) fun tag =>
        return ⟨name, ← value.normal context tag (linkedTag context className name), some tag⟩
      let later ← normalFields context className rest
      return first :: later
termination_by structural x => x

/-- The elements that are read back: those that were not left out, each of the kind declared for
them all or else of its own. -/
def normalItems (context : Context) (linked : Option TypeTag) : List Value → Asking (List Value)
  | [] => return []
  | item :: rest =>
    if item.isTransient then normalItems context linked rest
    else do
      let first ← inSlot item (itemTag linked item) (return item) fun tag =>
        item.normal context tag none
      let later ← normalItems context linked rest
      return first :: later
termination_by structural x => x

/-- The members of a map that are read back: those that were not left out. -/
def normalMembers (context : Context) : List (String × Value) → Asking (List (String × Value))
  | [] => return []
  | (key, value) :: rest =>
    if value.isTransient then normalMembers context rest
    else do
      let first ← inSlot value (memberTag value) (return (key, value)) fun tag =>
        return (key, ← value.normal context tag none)
      let later ← normalMembers context rest
      return first :: later
termination_by structural x => x

end

/-! ## What is written

The parts of a value that were written, each under its tag: the value, and everything inside it that
is not left out.  Much of what decoding needs to know of a record it needs of each part alone. -/

mutual

/-- The values that are written for a value under a tag, itself and those in it at every depth,
each with the tag it is written under. -/
def Value.written (context : Context) (tag : TypeTag) (linked : Option TypeTag) :
    Value → List (TypeTag × Value)
  | .embedded record =>
    (tag, .embedded record) :: if tag = .link then [] else record.written context
  | .embeddedList items => (tag, .embeddedList items) :: writtenItems context linked items
  | .embeddedSet items => (tag, .embeddedSet items) :: writtenItems context linked items
  | .embeddedMap members => (tag, .embeddedMap members) :: writtenMembers context members
  | .serializable className record => (tag, .serializable className record) :: record.written context
  | value => [(tag, value)]
termination_by structural x => x

/-- The values that are written for a record. -/
def Record.written (context : Context) : Record → List (TypeTag × Value)
  | ⟨className, _, fields, _⟩ => writtenFields context className fields
termination_by structural x => x

/-- The values that are written for fields. -/
def writtenFields (context : Context) (className : Option String) :
    List Field → List (TypeTag × Value)
  | [] => []
  | ⟨name, value, pinned⟩ :: rest =>
    let tag := Encoding.fieldTag ⟨name, value, pinned⟩ (pinnedTag context className name)
    if Encoding.isOmitted ⟨name, value, pinned⟩ then writtenFields context className rest
    else inSlot value tag [] (fun tag => value.written context tag (linkedTag context className name))
      ++ writtenFields context className rest
termination_by structural x => x

/-- The values that are written for elements. -/
def writtenItems (context : Context) (linked : Option TypeTag) :
    List Value → List (TypeTag × Value)
  | [] => []
  | item :: rest =>
    if item.isTransient then writtenItems context linked rest
    else inSlot item (itemTag linked item) [] (fun tag => item.written context tag none)
      ++ writtenItems context linked rest
termination_by structural x => x

/-- The values that are written for the members of a map. -/
def writtenMembers (context : Context) : List (String × Value) → List (TypeTag × Value)
  | [] => []
  | (_, value) :: rest =>
    if value.isTransient then writtenMembers context rest
    else inSlot value (memberTag value) [] (fun tag => value.written context tag none)
      ++ writtenMembers context rest
termination_by structural x => x

end

/-- The record that is written as part of the enclosing one, when a value is written under a
tag. -/
def heldRecord : TypeTag × Value → Option Record
  | (.embedded, .embedded record) => some record
  | (.embedded, .serializable _ record) => some record
  | _ => none

/-- A record and the records that are written as part of it, at every depth. -/
def Record.levels (context : Context) (record : Record) : List Record :=
  record :: (record.written context).filterMap heldRecord

/-! ## Member by member

The recursion over a list follows the structure of values.  Seen from outside it treats each of the
members that are not left out alike. -/

/-- A field that is read back. -/
def normalField (context : Context) (className : Option String) (field : Field) : Asking Field :=
  inSlot field.value (Encoding.fieldTag field (pinnedTag context className field.name))
    (return ⟨field.name, field.value, none⟩) fun tag =>
      return ⟨field.name,
        ← field.value.normal context tag (linkedTag context className field.name), some tag⟩

/-- An element that is read back. -/
def normalItem (context : Context) (linked : Option TypeTag) (item : Value) : Asking Value :=
  inSlot item (itemTag linked item) (return item) fun tag => item.normal context tag none

/-- A member of a map that is read back. -/
def normalMember (context : Context) (member : String × Value) : Asking (String × Value) :=
  inSlot member.2 (memberTag member.2) (return member) fun tag =>
    return (member.1, ← member.2.normal context tag none)

/-- The values that are written for a field. -/
def writtenField (context : Context) (className : Option String) (field : Field) :
    List (TypeTag × Value) :=
  inSlot field.value (Encoding.fieldTag field (pinnedTag context className field.name)) [] fun tag =>
    field.value.written context tag (linkedTag context className field.name)

/-- The values that are written for an element. -/
def writtenItem (context : Context) (linked : Option TypeTag) (item : Value) :
    List (TypeTag × Value) :=
  inSlot item (itemTag linked item) [] fun tag => item.written context tag none

/-- The values that are written for a member of a map. -/
def writtenMember (context : Context) (member : String × Value) : List (TypeTag × Value) :=
  inSlot member.2 (memberTag member.2) [] fun tag => member.2.written context tag none

variable {context : Context}

section Passing

variable {α : Type} {omitted : α → Bool}

/-- A recursion that passes over what is omitted, and else puts what it makes of a member before
what it makes of the later ones, makes something of each member that is kept. -/
theorem eq_mapM_filter {β : Type} (walk : List α → Asking (List β)) {f : α → Asking β}
    (ends : walk [] = return [])
    (step : ∀ a rest, walk (a :: rest) = if omitted a then walk rest else do
      let first ← f a
      let later ← walk rest
      return first :: later) (members : List α) :
    walk members = (members.filter (!omitted ·)).mapM f := by
  induction members with
  | nil => exact ends
  | cons a rest ih =>
    rw [step]
    split
    · next passed => rw [List.filter_cons_of_neg (by simp [passed]), ih]
    · next kept => rw [List.filter_cons_of_pos (by simp [kept]), List.mapM_cons, ih]

/-- Likewise a recursion that lists several things for each member. -/
theorem eq_flatMap_filter {β : Type} (walk : List α → List β) {f : α → List β}
    (ends : walk [] = [])
    (step : ∀ a rest, walk (a :: rest) = if omitted a then walk rest else f a ++ walk rest)
    (members : List α) : walk members = (members.filter (!omitted ·)).flatMap f := by
  induction members with
  | nil => exact ends
  | cons a rest ih =>
    rw [step]
    split
    · next passed => rw [List.filter_cons_of_neg (by simp [passed]), ih]
    · next kept => rw [List.filter_cons_of_pos (by simp [kept]), List.flatMap_cons, ih]

end Passing

theorem normalFields_eq (className : Option String) (fields : List Field) :
    normalFields context className fields
      = (fields.filter (!Encoding.isOmitted ·)).mapM (normalField context className) :=
  eq_mapM_filter (normalFields context className) rfl (fun ⟨_, _, _⟩ _ => rfl) fields

theorem normalItems_eq (linked : Option TypeTag) (items : List Value) :
    normalItems context linked items
      = (items.filter (!·.isTransient)).mapM (normalItem context linked) :=
  eq_mapM_filter (normalItems context linked) rfl (fun _ _ => rfl) items

theorem normalMembers_eq (members : List (String × Value)) :
    normalMembers context members
      = (members.filter (!·.2.isTransient)).mapM (normalMember context) :=
  eq_mapM_filter (normalMembers context) rfl (fun ⟨_, _⟩ _ => rfl) members

theorem writtenFields_eq (className : Option String) (fields : List Field) :
    writtenFields context className fields
      = (fields.filter (!Encoding.isOmitted ·)).flatMap (writtenField context className) :=
  eq_flatMap_filter (writtenFields context className) rfl (fun ⟨_, _, _⟩ _ => rfl) fields

theorem writtenItems_eq (linked : Option TypeTag) (items : List Value) :
    writtenItems context linked items
      = (items.filter (!·.isTransient)).flatMap (writtenItem context linked) :=
  eq_flatMap_filter (writtenItems context linked) rfl (fun _ _ => rfl) items

theorem writtenMembers_eq (members : List (String × Value)) :
    writtenMembers context members
      = (members.filter (!·.2.isTransient)).flatMap (writtenMember context) :=
  eq_flatMap_filter (writtenMembers context) rfl (fun ⟨_, _⟩ _ => rfl) members

/-- What is read back of a record is what is read back of its fields. -/
theorem Record.normal_eq (record : Record) : record.normal context = (do
    let fields ← normalFields context record.className record.fields
    return ⟨record.className, RecordId.empty, fields, false⟩) := by
  cases record
  rfl

/-- What is written for a record is what is written for its fields. -/
theorem Record.written_eq (record : Record) :
    record.written context = writtenFields context record.className record.fields := by
  cases record
  rfl

/-- A value itself is written. -/
theorem Value.mem_written (tag : TypeTag) (linked : Option TypeTag) (value : Value) :
    (tag, value) ∈ value.written context tag linked := by
  cases value with
  | embedded _ => exact List.mem_cons_self
  | embeddedList _ => exact List.mem_cons_self
  | embeddedSet _ => exact List.mem_cons_self
  | embeddedMap _ => exact List.mem_cons_self
  | serializable _ _ => exact List.mem_cons_self
  | _ => exact List.mem_singleton.mpr rfl

/-! ## Well-formed values

Only well-formed values are written for a well-formed one. -/

/-- What stands in what is made was made under some tag. -/
theorem mem_inSlot {α : Type} {value : Value} {tag : Except Unsupported TypeTag} {a : α}
    {made : TypeTag → List α} (there : a ∈ inSlot value tag [] made) : ∃ tag, a ∈ made tag := by
  unfold inSlot at there
  split at there
  · exact ⟨_, there⟩
  · cases there

mutual

/-- What is written for a well-formed value is well formed. -/
theorem Value.isWellFormed_written (context : Context) : ∀ (value : Value) (tag : TypeTag)
    (linked : Option TypeTag), value.isWellFormed = true →
    ∀ w ∈ value.written context tag linked, w.2.isWellFormed = true
  | .embedded record, tag, linked, formed, w, there => by
    rw [Value.written] at there
    rcases List.mem_cons.mp there with rfl | deeper
    · exact formed
    · split at deeper
      · cases deeper
      · exact record.isWellFormed_written context formed w deeper
  | .serializable className record, tag, linked, formed, w, there => by
    rw [Value.written] at there
    rcases List.mem_cons.mp there with rfl | deeper
    · exact formed
    · exact record.isWellFormed_written context formed w deeper
  | .embeddedList items, tag, linked, formed, w, there => by
    rw [Value.written] at there
    rcases List.mem_cons.mp there with rfl | deeper
    · exact formed
    · exact wellFormed_writtenItems context items linked formed w deeper
  | .embeddedSet items, tag, linked, formed, w, there => by
    rw [Value.written] at there
    rcases List.mem_cons.mp there with rfl | deeper
    · exact formed
    · exact wellFormed_writtenItems context items linked formed w deeper
  | .embeddedMap members, tag, linked, formed, w, there => by
    rw [Value.written] at there
    rcases List.mem_cons.mp there with rfl | deeper
    · exact formed
    · exact wellFormed_writtenMembers context members (Bool.and_eq_true_iff.mp formed).2 w deeper
  -- what holds no other value is all that is written of it
  | .null, _, _, formed, _, there | .transient, _, _, formed, _, there
  | .boolean _, _, _, formed, _, there | .byte _, _, _, formed, _, there
  | .short _, _, _, formed, _, there | .integer _, _, _, formed, _, there
  | .long _, _, _, formed, _, there | .float _, _, _, formed, _, there
  | .double _, _, _, formed, _, there | .string _, _, _, formed, _, there
  | .binary _, _, _, formed, _, there | .date _, _, _, formed, _, there
  | .dateTime _, _, _, formed, _, there | .decimal _, _, _, formed, _, there
  | .link _, _, _, formed, _, there | .linkList _, _, _, formed, _, there
  | .linkSet _, _, _, formed, _, there | .linkMap _, _, _, formed, _, there
  | .linkBag _, _, _, formed, _, there | .custom _ _, _, _, formed, _, there =>
    List.mem_singleton.mp there ▸ formed
termination_by structural x => x

theorem Record.isWellFormed_written (context : Context) : ∀ (record : Record),
    record.isWellFormed = true → ∀ w ∈ record.written context, w.2.isWellFormed = true
  | ⟨className, _, fields, _⟩, formed, w, there =>
    wellFormed_writtenFields context fields className (Bool.and_eq_true_iff.mp formed).2 w there
termination_by structural x => x

/-- The values written for the fields of a record are as well formed as the fields: some are left
out, and the others bring what is written for them. -/
theorem wellFormed_writtenFields (context : Context) : ∀ (fields : List Field)
    (className : Option String), wellFormedFields fields = true →
    ∀ w ∈ writtenFields context className fields, w.2.isWellFormed = true
  | [], _, _, _, there => by cases there
  | ⟨name, value, pinned⟩ :: rest, className, formed, w, there => by
    obtain ⟨first, later⟩ := Bool.and_eq_true_iff.mp formed
    rw [writtenFields] at there
    split at there
    · -- the field is left out
      exact wellFormed_writtenFields context rest className later w there
    · rcases List.mem_append.mp there with here | deeper
      · -- a value that is written for the field's own value, under whatever tag was chosen
        obtain ⟨tag, here⟩ := mem_inSlot here
        exact value.isWellFormed_written context _ _ first w here
      · exact wellFormed_writtenFields context rest className later w deeper
termination_by structural x => x

/-- The same for the elements of a list. -/
theorem wellFormed_writtenItems (context : Context) : ∀ (items : List Value)
    (linked : Option TypeTag), wellFormedItems items = true →
    ∀ w ∈ writtenItems context linked items, w.2.isWellFormed = true
  | [], _, _, _, there => by cases there
  | item :: rest, linked, formed, w, there => by
    obtain ⟨first, later⟩ := Bool.and_eq_true_iff.mp formed
    rw [writtenItems] at there
    split at there
    · exact wellFormed_writtenItems context rest linked later w there
    · rcases List.mem_append.mp there with here | deeper
      · obtain ⟨tag, here⟩ := mem_inSlot here
        exact item.isWellFormed_written context _ _ first w here
      · exact wellFormed_writtenItems context rest linked later w deeper
termination_by structural x => x

/-- The same for the members of a map. -/
theorem wellFormed_writtenMembers (context : Context) : ∀ (members : List (String × Value)),
    wellFormedEntries members = true →
    ∀ w ∈ writtenMembers context members, w.2.isWellFormed = true
  | [], _, _, there => by cases there
  | (key, value) :: rest, formed, w, there => by
    obtain ⟨first, later⟩ := Bool.and_eq_true_iff.mp formed
    rw [writtenMembers] at there
    split at there
    · exact wellFormed_writtenMembers context rest later w there
    · rcases List.mem_append.mp there with here | deeper
      · obtain ⟨tag, here⟩ := mem_inSlot here
        exact value.isWellFormed_written context _ _ first w here
      · exact wellFormed_writtenMembers context rest later w deeper
termination_by structural x => x

end

/-! ## What it hangs on

Of a context only the tags count that its schema gives to fields and to the elements of their
collections. -/

mutual

/-- The schema is all that is asked what is written for a value: the same answers give the same
values under the same tags. -/
theorem Value.written_congr {context other : Context} (pinned : pinnedTag other = pinnedTag context)
    (declared : linkedTag other = linkedTag context) : ∀ (value : Value) (tag : TypeTag)
    (linked : Option TypeTag), value.written other tag linked = value.written context tag linked
  | .embedded record, tag, linked => by
    rw [Value.written, Value.written, record.written_congr pinned declared]
  | .serializable className record, tag, linked => by
    rw [Value.written, Value.written, record.written_congr pinned declared]
  | .embeddedList items, tag, linked => by
    rw [Value.written, Value.written, writtenItems_congr pinned declared items]
  | .embeddedSet items, tag, linked => by
    rw [Value.written, Value.written, writtenItems_congr pinned declared items]
  | .embeddedMap members, tag, linked => by
    rw [Value.written, Value.written, writtenMembers_congr pinned declared members]
  -- what holds no field is written without asking the schema
  | .null, _, _ | .transient, _, _ | .boolean _, _, _ | .byte _, _, _ | .short _, _, _
  | .integer _, _, _ | .long _, _, _ | .float _, _, _ | .double _, _, _ | .string _, _, _
  | .binary _, _, _ | .date _, _, _ | .dateTime _, _, _ | .decimal _, _, _ | .link _, _, _
  | .linkList _, _, _ | .linkSet _, _, _ | .linkMap _, _, _ | .linkBag _, _, _
  | .custom _ _, _, _ => rfl
termination_by structural x => x

/-- So it is for a record, at all its levels. -/
theorem Record.written_congr {context other : Context}
    (pinned : pinnedTag other = pinnedTag context)
    (declared : linkedTag other = linkedTag context) :
    ∀ record : Record, record.written other = record.written context
  | ⟨className, _, fields, _⟩ => writtenFields_congr pinned declared fields className
termination_by structural x => x

/-- For the fields of a record, where the schema is asked. -/
theorem writtenFields_congr {context other : Context} (pinned : pinnedTag other = pinnedTag context)
    (declared : linkedTag other = linkedTag context) :
    ∀ (fields : List Field) (className : Option String),
      writtenFields other className fields = writtenFields context className fields
  | [], _ => rfl
  | ⟨name, value, own⟩ :: rest, className => by
    -- the schema is asked for the tags of a field and nowhere else
    rw [writtenFields, writtenFields, writtenFields_congr pinned declared rest, pinned, declared]
    simp only [value.written_congr pinned declared]
termination_by structural x => x

/-- For the elements of a list, whose tags are their own or one that was asked for before. -/
theorem writtenItems_congr {context other : Context} (pinned : pinnedTag other = pinnedTag context)
    (declared : linkedTag other = linkedTag context) :
    ∀ (items : List Value) (linked : Option TypeTag),
      writtenItems other linked items = writtenItems context linked items
  | [], _ => rfl
  | item :: rest, linked => by
    rw [writtenItems, writtenItems, writtenItems_congr pinned declared rest]
    simp only [item.written_congr pinned declared]
termination_by structural x => x

/-- For the members of a map, whose tags are their own. -/
theorem writtenMembers_congr {context other : Context}
    (pinned : pinnedTag other = pinnedTag context)
    (declared : linkedTag other = linkedTag context) :
    ∀ members : List (String × Value), writtenMembers other members = writtenMembers context members
  | [] => rfl
  | (key, value) :: rest => by
    rw [writtenMembers, writtenMembers, writtenMembers_congr pinned declared rest]
    simp only [value.written_congr pinned declared]
termination_by structural x => x

end

theorem Record.levels_congr {context other : Context} (pinned : pinnedTag other = pinnedTag context)
    (declared : linkedTag other = linkedTag context) (record : Record) :
    record.levels other = record.levels context := by
  rw [levels, levels, record.written_congr pinned declared]

end DocumentCodec
