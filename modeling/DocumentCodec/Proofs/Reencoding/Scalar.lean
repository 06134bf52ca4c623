import DocumentCodec.Proofs.Recall
import DocumentCodec.Proofs.RoundTrip.Scalar
import DocumentCodec.Proofs.Writing
import DocumentCodec.Proofs.Zone
/-!
# Bodies without bodies inside, written again

What is recalled of a body is a value of the kind of its tag, so it is written under that tag when
nothing pins it; and it is written as the same bytes.  Integers kept their number, a day is counted
from its beginning as it was from any of its instants, and a link holds the very identity that was
stored for it, which needs no resolver if it is persistent or stands for no link.

The resolver is asked while a value is written, and its answers depend on what it was asked for
before; so what is known of the identities is said of all targets in the order in which they are
asked for, and each proof hands on the ones behind.
-/

namespace DocumentCodec

/-! ## The identities that are stored

Which identity a target gets depends on all targets before it, so the answers are said of whole
lists of targets and taken apart where the values are. -/

/-- The targets of a value's own links, under the tag that it is written under. -/
def linkTargets : TypeTag × Value → List LinkTarget
  | (.link, .link target) => [target]
  | (.link, .embedded record) => [.record record]
  | (.linkList, .linkList items) | (.linkList, .linkSet items)
  | (.linkSet, .linkList items) | (.linkSet, .linkSet items) => items.flatMap (·.toList)
  | (.linkMap, .linkMap entries) => entries.flatMap (·.2.toList)
  | _ => []

/-- The identities that are stored for targets need no resolver; `last` is what it was asked for
after them. -/
def Settles (context : Context) (targets : List LinkTarget) (earlier last : List LinkTarget) :
    Prop :=
  ∃ rids, targets.mapM (LinkTarget.stored context) earlier = (rids, last) ∧
    ∀ rid ∈ rids, Link.isPending rid = false

namespace Settles

variable {context : Context} {targets more : List LinkTarget} {target : LinkTarget}
  {earlier last : List LinkTarget}

theorem nil : Settles context [] earlier last → last = earlier := by
  rintro ⟨rids, run, -⟩
  cases run
  rfl

/-- The first target settles, with what the resolver says to it, and the others do from then on. -/
theorem cons (settles : Settles context (target :: more) earlier last) :
    ∃ rid mid, target.stored context earlier = (rid, mid) ∧ Link.isPending rid = false ∧
      Settles context more mid last := by
  obtain ⟨rids, run, settled⟩ := settles
  rcases first : target.stored context earlier with ⟨rid, mid⟩
  rcases later : more.mapM (LinkTarget.stored context) mid with ⟨rest, asked⟩
  rw [Asking.run_mapM_cons first later] at run
  cases run
  exact ⟨rid, mid, rfl, settled rid List.mem_cons_self, rest, later,
    fun other there => settled other (List.mem_cons_of_mem _ there)⟩

/-- Targets one behind the other settle one after the other, so the answers to a whole record are
split where its parts are. -/
theorem append : ∀ {targets : List LinkTarget} {earlier : List LinkTarget},
    Settles context (targets ++ more) earlier last →
    ∃ mid, Settles context targets earlier mid ∧ Settles context more mid last := by
  intro targets
  induction targets with
  | nil =>
    intro earlier settles
    exact ⟨earlier, ⟨[], rfl, fun rid there => by cases there⟩, settles⟩
  | cons target rest ih =>
    intro earlier settles
    obtain ⟨rid, mid, first, settled, later⟩ := cons settles
    obtain ⟨mid', ⟨rids, run, others⟩, final⟩ := ih later
    refine ⟨mid', ⟨rid :: rids, Asking.run_mapM_cons first run, ?_⟩, final⟩
    intro other there
    rcases List.mem_cons.mp there with rfl | inside
    · exact settled
    · exact others other inside

end Settles

/-! ## What is recalled

`Yields` says of a recalling, given that its targets settle: it has asked for just those, it stands
where the writing stood, and what it recalls has the property. -/

/-- Whatever is recalled has a property; and if the identities that are stored for the targets need
no resolver, both leave it asked for the same ones. -/
def Yields {α : Type} (context : Context) (remember : Recalling α) (targets : List LinkTarget)
    (earlier last : List LinkTarget) (post : α → Prop) : Prop :=
  ∀ (made : α) (recalled asked : List LinkTarget), remember earlier = some (made, recalled) →
    Settles context targets earlier asked → recalled = last ∧ asked = last ∧ post made

namespace Yields

variable {α β : Type} {context : Context} {targets more : List LinkTarget}
  {earlier mid last : List LinkTarget} {x : Recalling α} {post : α → Prop}

theorem pure {a : α} (fact : post a) : Yields context (Pure.pure a) [] earlier earlier post := by
  intro made recalled asked run settles
  cases run
  exact ⟨rfl, settles.nil, fact⟩

/-- Sequences: the targets of the first part are settled before those of the second, and the second
part begins with all that was asked until then. -/
theorem bind {f : α → Recalling β} {post' : β → Prop}
    (first : Yields context x targets earlier mid post)
    (second : ∀ a, x earlier = some (a, mid) → post a →
      Yields context (f a) more mid last post') :
    Yields context (x >>= f) (targets ++ more) earlier last post' := by
  intro made recalled asked run settles
  obtain ⟨a, mid', here, later⟩ := Recalling.run_bind_eq_some.mp run
  obtain ⟨mid'', settles, settles'⟩ := settles.append
  obtain ⟨rfl, rfl, fact⟩ := first a mid' mid'' here settles
  exact second a here fact made recalled asked later settles'

/-- What is made of a recalled value asks for nothing more. -/
theorem map {wrap : α → β} {post' : β → Prop} (first : Yields context x targets earlier last post)
    (keeps : ∀ a, post a → post' (wrap a)) :
    Yields context (x >>= fun a => Pure.pure (wrap a)) targets earlier last post' := by
  have both : Yields context _ (targets ++ []) earlier last post' :=
    first.bind fun a _ fact => pure (keeps a fact)
  rw [List.append_nil] at both
  exact both

/-- The fact about what is recalled may be weakened. -/
theorem mono {post' : α → Prop} (yields : Yields context x targets earlier last post)
    (weaker : ∀ a, post a → post' a) : Yields context x targets earlier last post' := by
  intro made recalled asked run settles
  obtain ⟨same, same', fact⟩ := yields made recalled asked run settles
  exact ⟨same, same', weaker made fact⟩

/-- What is only checked asks for nothing. -/
theorem check {f : α → Recalling β} {post' : β → Prop}
    (checks : ∀ a mid, x earlier = some (a, mid) →
      mid = earlier ∧ Yields context (f a) targets earlier last post') :
    Yields context (x >>= f) targets earlier last post' := by
  intro made recalled asked run settles
  obtain ⟨a, mid, here, later⟩ := Recalling.run_bind_eq_some.mp run
  obtain ⟨rfl, yields⟩ := checks a mid here
  exact yields made recalled asked later settles

/-- A number in front of something leaves no choice: it is recalled as itself or not at all. -/
theorem length {n : Nat} {f : Nat → Recalling β} {post' : β → Prop}
    (rest : Yields context (f n) targets earlier last post') :
    Yields context (Recall.length n >>= f) targets earlier last post' := by
  refine check fun count mid counted => ?_
  obtain ⟨-, rfl, rfl⟩ := Recall.length_eq_some.mp counted
  exact ⟨rfl, rest⟩

/-- Neither does text. -/
theorem string {text : String} {f : String → Recalling β} {post' : β → Prop}
    (rest : Yields context (f text) targets earlier last post') :
    Yields context (Recall.string text >>= f) targets earlier last post' := by
  refine check fun taken mid run => ?_
  obtain ⟨-, rfl, rfl⟩ := Recall.string_eq_some.mp run
  exact ⟨rfl, rest⟩

/-- Neither do bytes. -/
theorem binary {bytes : List UInt8} {f : List UInt8 → Recalling β} {post' : β → Prop}
    (rest : Yields context (f bytes) targets earlier last post') :
    Yields context (Recall.binary bytes >>= f) targets earlier last post' := by
  refine check fun taken mid run => ?_
  obtain ⟨-, rfl, rfl⟩ := Recall.binary_eq_some.mp run
  exact ⟨rfl, rest⟩

/-- An answer asks for nothing. -/
theorem answer {a : Option α} {f : α → Recalling β} {post' : β → Prop}
    (rest : ∀ b, a = some b → Yields context (f b) targets earlier last post') :
    Yields context (Recalling.answer a >>= f) targets earlier last post' := by
  refine check fun b mid run => ?_
  cases a with
  | none => cases run
  | some c =>
    cases run
    exact ⟨rfl, rest _ rfl⟩

/-! ### Things in sequence -/

/-- What is recalled of things that were written one behind the other is written again one behind
the other. -/
theorem forM {write : α → Encoder Unit} {remember : α → Recalling β} {aims : α → List LinkTarget}
    {again : β → Encoder Unit} (good : β → Prop) : ∀ (items : List α) {start : Nat}
    {earlier calls : List LinkTarget} {bytes : List UInt8},
    (∀ item ∈ items, ∀ {start earlier bytes calls},
      write item start earlier = ⟨bytes, calls, .ok ()⟩ →
        Yields context (remember item) (aims item) earlier (earlier ++ calls) fun made =>
          good made ∧ Encoder.Writes (again made) start bytes) →
    items.forM write start earlier = ⟨bytes, calls, .ok ()⟩ →
    Yields context (items.mapM remember) (items.flatMap aims) earlier (earlier ++ calls) fun mades =>
      mades.length = items.length ∧ (∀ made ∈ mades, good made) ∧
        Encoder.Writes (mades.forM again) start bytes := by
  intro items
  induction items with
  | nil =>
    intro start earlier calls bytes _ run
    cases run
    rw [List.append_nil]
    exact pure (a := ([] : List β)) ⟨rfl, fun made there => (by cases there), fun _ => rfl⟩
  | cons item rest ih =>
    intro start earlier calls bytes each run
    rw [Encoder.forM_cons] at run
    obtain ⟨_, bytes₁, calls₁, bytes₂, calls₂, first, later, rfl, rfl⟩ := Encoder.bind_eq_ok.mp run
    -- the first thing, then the rest behind what it wrote and asked for
    rw [List.mapM_cons, List.flatMap_cons, ← List.append_assoc]
    refine (each item List.mem_cons_self first).bind fun made _ fact => ?_
    refine (ih (fun other there => each other (List.mem_cons_of_mem _ there)) later).map ?_
    rintro mades ⟨same, all, written⟩
    refine ⟨congrArg (· + 1) same, ?_, fact.2.cons written⟩
    intro other there
    rcases List.mem_cons.mp there with rfl | inside
    · exact fact.1
    · exact all other inside

end Yields

/-! ## Links -/

namespace Yields

variable {context : Context} {start : Nat} {earlier calls : List LinkTarget} {bytes : List UInt8}

/-- What is recalled of a link is the identity that was written. -/
theorem link {target : LinkTarget}
    (run : Link.write context target start earlier = ⟨bytes, calls, .ok ()⟩) :
    Yields context (Recalling.asking (target.stored context)) [target] earlier (earlier ++ calls)
      fun rid => Link.isPending rid = false ∧ bytes = Link.idBytes rid := by
  intro made recalled asked run' settles
  obtain ⟨rid, rfl, stored⟩ := Link.write_eq_ok run
  obtain ⟨rid', mid, stored', settled, rest⟩ := settles.cons
  have asked := rest.nil
  subst asked
  cases stored.symm.trans stored'
  cases (congrArg some stored).symm.trans run'
  exact ⟨rfl, rfl, settled, rfl⟩

/-- An element of a collection of links; the identity set aside for an absent one is read as one and
written as it. -/
theorem linkElement {item : Option LinkTarget}
    (run : Link.writeElement context item start earlier = ⟨bytes, calls, .ok ()⟩) :
    Yields context (Recalling.asking (normalLink context item)) item.toList earlier
      (earlier ++ calls) fun made => Encoder.Writes (Link.writeElement context made) start bytes := by
  cases item with
  | none =>
    rw [Link.writeElement, Link.writeId_eq] at run
    cases run
    rw [List.append_nil]
    exact pure (a := none) fun _ => rfl
  | some target =>
    show Yields context (Recalling.asking (target.stored context) >>= fun rid =>
      Pure.pure (if rid.isNullLink then none else some (LinkTarget.identity rid))) [target] _ _ _
    refine (link run).map ?_
    rintro rid ⟨settled, rfl⟩
    -- an identity that stands for no link is read as none, and none is written as that identity
    by_cases null : rid.isNullLink = true
    · have same : rid = .nullLink := eq_of_beq null
      subst same
      exact fun _ => rfl
    · rw [if_neg null]
      exact Link.writes_identity settled

/-- A list of links is written again as it was: each link that was stored is stored again as it is,
and none of the empty ones has become one. -/
theorem links {items : List (Option LinkTarget)}
    (run : Encoding.writeLinks context items start earlier = ⟨bytes, calls, .ok ()⟩) :
    Yields context (Recall.links context items) (items.flatMap (·.toList)) earlier (earlier ++ calls)
      fun made => Encoder.Writes (Encoding.writeLinks context made) start bytes := by
  obtain ⟨rest, written, rfl⟩ := Encoder.emit_bind_eq_ok run
  have all : Yields context (items.mapM fun item => Recalling.asking (normalLink context item))
      (items.flatMap (·.toList)) _ _ _ :=
    forM (fun _ => True) items (fun item _ _ _ _ _ one =>
      (linkElement one).mono fun made written => ⟨trivial, written⟩) written
  rw [Recalling.mapM_asking] at all
  refine length (all.mono ?_)
  rintro made ⟨same, -, written⟩
  rw [Encoding.writeLinks, same]
  exact (Encoder.Writes.emit _).bind written

/-- An entry of a map of links is written again behind the same key. -/
theorem linkEntry {entry : String × Option LinkTarget}
    (run : (Encoder.emit (Encoding.keyBytes entry.1) >>= fun _ =>
      Link.writeElement context entry.2) start earlier = ⟨bytes, calls, .ok ()⟩) :
    Yields context (Recall.linkEntry context entry) entry.2.toList earlier (earlier ++ calls)
      fun made => Encoder.Writes (Encoder.emit (Encoding.keyBytes made.1) >>= fun _ =>
        Link.writeElement context made.2) start bytes := by
  obtain ⟨rest, written, rfl⟩ := Encoder.emit_bind_eq_ok run
  rw [Recall.linkEntry]
  refine string ((linkElement written).map ?_)
  intro made written
  exact (Encoder.Writes.emit _).bind written

/-- So is a map of links; the keys are those that were read. -/
theorem linkMap {entries : List (String × Option LinkTarget)}
    (run : Encoding.writeLinkMap context entries start earlier = ⟨bytes, calls, .ok ()⟩) :
    Yields context (Recall.linkMap context entries) (entries.flatMap (·.2.toList)) earlier
      (earlier ++ calls) fun made =>
        Encoder.Writes (Encoding.writeLinkMap context made) start bytes := by
  obtain ⟨rest, written, rfl⟩ := Encoder.emit_bind_eq_ok run
  have all : Yields context (entries.mapM (Recall.linkEntry context))
      (entries.flatMap (·.2.toList)) _ _ _ :=
    forM (fun _ => True) entries (fun entry _ _ _ _ _ one =>
      (linkEntry one).mono fun made written => ⟨trivial, written⟩) written
  refine length (all.mono ?_)
  rintro made ⟨same, -, written⟩
  rw [Encoding.writeLinkMap, same]
  exact (Encoder.Writes.emit _).bind written

end Yields

/-! ## Objects that factories make -/

namespace Registry

/-- Factories that make an object only to be what was stored; they may refuse to. -/
structure IsHonest (registry : Registry) : Prop where
  customs : ∀ typeName factory, OrderedMap.find? typeName registry.customs = some factory →
    ∀ stream object, factory stream = .ok object → object = ⟨typeName, stream⟩
  serializables : ∀ className factory,
    OrderedMap.find? className registry.serializables = some factory →
    ∀ record object, factory record = .ok object → object = ⟨className, record⟩

variable {registry : Registry} {name : String}

/-- What an honest factory makes is the object whose name and stream it was given. -/
theorem IsHonest.makeCustom (honest : registry.IsHonest) {stream : List UInt8}
    {object : CustomObject} (made : (registry.makeCustom name stream).toOption = some object) :
    object = ⟨name, stream⟩ := by
  have made := eq_ok_of_toOption made
  rw [Registry.makeCustom] at made
  split at made
  · cases made
  · next factory found => exact honest.customs name factory found stream object made

/-- What an honest factory makes of a record is the object of its name that stores that record. -/
theorem IsHonest.makeSerializable (honest : registry.IsHonest) {record : Record}
    {object : SerializableObject}
    (made : (registry.makeSerializable name record).toOption = some object) :
    object = ⟨name, record⟩ := by
  have made := eq_ok_of_toOption made
  rw [Registry.makeSerializable] at made
  split at made
  · cases made
  · next factory found => exact honest.serializables name factory found record object made

end Registry

/-! ## Every body without bodies inside

Each case is written as it was read: the number is in range again, the day is the same day, and the
link is the identity that was stored. -/

/-- What was written under a tag without bodies inside has no others written for it. -/
theorem Value.written_of_scalar {context : Context} {field : String} {tag : TypeTag}
    {linked : Option TypeTag} {value : Value} {start : Nat} {earlier calls : List LinkTarget}
    {bytes : List UInt8}
    (run : Encoding.writeScalar context field tag value start earlier = ⟨bytes, calls, .ok ()⟩) :
    value.written context tag linked = [(tag, value)] := by
  cases value with
  | embedded record =>
    cases tag with
    | link => rfl
    | _ => cases run
  | embeddedList items => cases tag <;> cases run
  | embeddedSet items => cases tag <;> cases run
  | embeddedMap members => cases tag <;> cases run
  | serializable className record => cases tag <;> cases run
  | _ => rfl

namespace Yields

variable {context : Context} {field : String} {tag : TypeTag} {value : Value} {start : Nat}
  {earlier calls : List LinkTarget} {bytes : List UInt8}

/-- Under an offset that never changes the start of a day lies on that day, so the same day number
is written again.  Elsewhere it need not. -/
theorem date (field : String) (start : Nat) {offset millis : Int64}
    (fixed : context.options.zone = Zone.fixed offset) :
    Yields context (Recall.date context millis) [] earlier earlier fun made =>
      made.naturalTag = some .date ∧ Encoder.Writes (Encoding.writeScalar context field .date made)
        start (Varint.encodeSigned (context.options.zone.dayNumber millis)) := by
  rw [Recall.date]
  refine answer fun begins found => pure ⟨rfl, fun earlier => ?_⟩
  rw [← Zone.dayNumber_startOfDay fixed found]
  rfl

/-- An object of the application's is written again as it was, as the factory made what was stored.
-/
theorem custom (honest : ∀ registry, context.registry = some registry → registry.IsHonest)
    {typeName : String} {stream : List UInt8}
    (run : Encoding.writeCustom context field typeName stream start earlier
      = ⟨bytes, calls, .ok ()⟩) :
    Yields context (Recall.custom context typeName stream) [] earlier (earlier ++ calls)
      fun made => made.naturalTag = some .custom ∧
        Encoder.Writes (Encoding.writeScalar context field .custom made) start bytes := by
  obtain ⟨registry, there, registered, rfl, rfl⟩ := Encoding.writeCustom_eq_ok run
  rw [List.append_nil]
  refine string (binary (answer fun known same => answer fun object made => pure ⟨rfl, ?_⟩))
  have object := (honest known same).makeCustom made
  subst object
  intro earlier
  show Encoding.writeCustom context field typeName stream start earlier = _
  rw [Encoding.writeCustom, there]
  show (if registry.hasCustom typeName = true then _ else _ : Encoder Unit) start earlier = _
  rw [if_pos registered]
  rfl

/-- What is recalled of a body without bodies inside is of the kind of its tag, and is written under
it as the same bytes. -/
theorem scalar {offset : Int64} (fixed : context.options.zone = Zone.fixed offset)
    (honest : ∀ registry, context.registry = some registry → registry.IsHonest)
    (run : Encoding.writeScalar context field tag value start earlier = ⟨bytes, calls, .ok ()⟩) :
    Yields context (Recall.scalar context tag value) (linkTargets (tag, value)) earlier
      (earlier ++ calls) fun made => made.naturalTag = some tag ∧
        Encoder.Writes (Encoding.writeScalar context field tag made) start bytes := by
  have kept {made : Value} {body : List UInt8} (asked : List LinkTarget)
      (same : made.naturalTag = some tag ∧
        Encoder.Writes (Encoding.writeScalar context field tag made) start body) :
      Yields context (Pure.pure made) [] asked (asked ++ []) fun made =>
        made.naturalTag = some tag ∧
          Encoder.Writes (Encoding.writeScalar context field tag made) start body := by
    rw [List.append_nil]
    exact pure same
  cases WrittenScalar.of_eq_ok run with
  | @short _ v number fits =>
    -- what fits the tag is the same number in its width, and so the same groups
    have same : v.toInt16.toInt64 = v := Signed.toInt64_toInt16 fits
    have again : (Value.short v.toInt16).int64? = some v := congrArg some same
    rw [Recall.scalar_short number]
    exact kept _ ⟨rfl, Encoding.writes_integer again (decide_eq_true fits)⟩
  | @integer _ v number fits =>
    have same : v.toInt32.toInt64 = v := Signed.toInt64_toInt32 fits
    have again : (Value.integer v.toInt32).int64? = some v := congrArg some same
    rw [Recall.scalar_integer number]
    exact kept _ ⟨rfl, Encoding.writes_integer again (decide_eq_true fits)⟩
  | long number =>
    rw [Recall.scalar_long number]
    exact kept _ ⟨rfl, fun _ => rfl⟩
  | string text => exact string (kept _ ⟨rfl, fun _ => rfl⟩)
  | binary content => exact binary (kept _ ⟨rfl, fun _ => rfl⟩)
  | linkBag content => exact binary (kept _ ⟨rfl, fun _ => rfl⟩)
  | double word => exact kept _ ⟨rfl, fun _ => rfl⟩
  | widened word => exact kept _ ⟨rfl, fun _ => rfl⟩
  | float word => exact kept _ ⟨rfl, fun _ => rfl⟩
  | byte v => exact kept _ ⟨rfl, fun _ => rfl⟩
  | boolean v => exact kept _ ⟨rfl, fun _ => rfl⟩
  | dateTime instant =>
    rw [Recall.scalar_dateTime instant]
    exact kept _ ⟨rfl, fun _ => rfl⟩
  | date instant =>
    rw [Recall.scalar_date instant, List.append_nil]
    exact date field start fixed
  | decimal written =>
    obtain ⟨scaled, long, rfl, rfl⟩ := Encoding.writeDecimal_eq_ok written
    exact kept _ ⟨rfl, Encoding.writes_decimal scaled long⟩
  | link written =>
    exact (link written).map fun rid fact => ⟨rfl, fact.2 ▸ Link.writes_identity fact.1⟩
  | linked written =>
    exact (link written).map fun rid fact => ⟨rfl, fact.2 ▸ Link.writes_identity fact.1⟩
  | linkList sort written | linkSet sort written =>
    rcases sort with rfl | rfl <;> exact (links written).map fun made written => ⟨rfl, written⟩
  | linkMap written => exact (linkMap written).map fun made written => ⟨rfl, written⟩
  | custom written => exact custom honest written

end Yields
end DocumentCodec
