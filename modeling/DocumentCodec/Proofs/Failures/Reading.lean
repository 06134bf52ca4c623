import DocumentCodec.Proofs.Factories
import DocumentCodec.Proofs.Running
/-!
# What decoding fails for

A decoding fails for one of five reasons: the bytes are no record, the header names a property that
the schema does not have, nothing is registered that makes an object, containers nest too deep, or a
registered factory refuses what it is given.  In the last case the failure is the factory's own, and
it may look like one of the others.

That the decoding called the factory is said without looking into it: had the factory refused that
one thing with another failure, the decoding would have failed with the other one, at the same place
and with as much bound.  And that a failure is no factory's is said the same way: it stays, whatever
the factories refuse with.

`Accounts` is closed under the ways in which decoders are put together, so it holds of whole
decodings by induction on the levels.
-/

namespace DocumentCodec

/-! ## Reasons

Whether a factory was called, and with what, is seen from outside: another registry that refuses the
one call with another failure would have failed with that one.  So nothing about the decoding itself
has to be recorded. -/

/-- The failures of decoding that are the codec's own. -/
inductive Failure.OfDecoding (context : Context) (registry : Option Registry) : Failure → Prop where
  | malformed (offset : Nat) (reason : Malformation) :
      OfDecoding context registry (.codec (.malformedInput offset reason))
  | unresolved {id : Int32} (offset : Nat) (unknown : Decoding.property? context id = none) :
      OfDecoding context registry (.codec (.unresolvedProperty id offset))
  | unregistered {name : String} (unknown : ∀ known, registry = some known →
      OrderedMap.find? name known.customs = none ∨
        OrderedMap.find? name known.serializables = none) :
      OfDecoding context registry (.codec (.unregisteredType name))
  | tooDeep : OfDecoding context registry (.codec context.tooDeep)

/-- The failure is what a registered factory said: it was called and refused, and whatever it
refuses with is the failure.  `runs` is how the decoding runs with other factories registered. -/
def Refusal {σ α : Type} (registry : Option Registry)
    (runs : Option Registry → EStateM.Result Failure σ α) (last : σ) (e : Failure) : Prop :=
  ∃ known call, registry = some known ∧ known.Refuses e call ∧
    ∀ e', runs (some (known.refusing e' call)) = .error e' last

/-- Why a decoding failed in some state, given how it runs with other factories registered. -/
inductive Raised {σ α : Type} (context : Context) (registry : Option Registry)
    (runs : Option Registry → EStateM.Result Failure σ α) (last : σ) (e : Failure) : Prop where
  /-- for a reason of the codec's; so it does with factories that refuse otherwise -/
  | own (reason : e.OfDecoding context registry)
      (stays : ∀ {known other : Registry}, registry = some known → known.IsKeptBy other →
        runs (some other) = .error e last) : Raised context registry runs last e
  | refused (said : Refusal registry runs last e) : Raised context registry runs last e

/-- The reason is the same where failures come out again. -/
theorem Raised.mono {σ τ α β : Type} {context : Context} {registry : Option Registry}
    {runs : Option Registry → EStateM.Result Failure σ α}
    {runs' : Option Registry → EStateM.Result Failure τ β} {last : σ} {last' : τ} {e : Failure}
    (raised : Raised context registry runs last e)
    (passes : ∀ {known other : Registry} {e' : Failure},
      registry = some known → known.IsKeptBy other →
      runs (some other) = .error e' last → runs' (some other) = .error e' last') :
    Raised context registry runs' last' e := by
  cases raised with
  | own reason stays => exact .own reason fun known kept => passes known kept (stays known kept)
  | refused said =>
    obtain ⟨known, call, registered, refuses, called⟩ := said
    exact .refused ⟨known, call, registered, refuses, fun e' =>
      passes registered refuses.isKeptBy (called e')⟩

/-- Whatever is registered, the failures of the reading have their reasons; and a reading that goes
through made no call that is refused, so it goes through alike with factories that keep to these. -/
structure Accounts {σ α : Type} (context : Context)
    (read : Option Registry → EStateM Failure σ α) : Prop where
  ok : ∀ {known other : Registry} {s s' : σ} {a : α}, known.IsKeptBy other →
    read (some known) s = .ok a s' → read (some other) s = .ok a s'
  error : ∀ {registry : Option Registry} {s s' : σ} {e : Failure},
    read registry s = .error e s' → Raised context registry (fun other => read other s) s' e

namespace Accounts

variable {σ α β : Type} {context : Context}

/-! ## Closure

Two things are said of a computation: that it goes the same way under any registry that keeps to the
first one, and that it fails for a reason of its own or for a refused call.  Both are carried
through sequences, but only together: without the first nothing could be said of the part behind. -/

/-- Sequences: what was read first made no refused call, so a refusal behind it comes to pass
whatever is refused there. -/
theorem bind {read : Option Registry → EStateM Failure σ α}
    {f : Option Registry → α → EStateM Failure σ β} (first : Accounts context read)
    (second : ∀ a, Accounts context fun registry => f registry a) :
    Accounts context fun registry => read registry >>= f registry where
  ok kept run := by
    obtain ⟨a, s₁, here, later⟩ := run_bind_eq_ok.mp run
    exact run_bind_eq_ok.mpr ⟨a, s₁, first.ok kept here, (second a).ok kept later⟩
  error run := by
    rcases run_bind_eq_error.mp run with here | ⟨a, s₁, here, later⟩
    · exact (first.error here).mono fun _ _ failed => run_bind_of_error failed
    · refine ((second a).error later).mono fun registered kept failed => ?_
      -- what went before made no refused call, so it goes before the refusal as well
      subst registered
      exact (run_bind_of_ok (first.ok kept here)).trans failed

/-- A step that always goes through. -/
theorem of_ok {x : EStateM Failure σ α} (runs : ∀ s, ∃ a s', x s = .ok a s') :
    Accounts context fun _ => x where
  ok _ run := run
  error {registry s s' e} run := by
    obtain ⟨a, s₁, same⟩ := runs s
    rw [same] at run
    cases run

theorem pure (a : α) : Accounts context fun _ => (Pure.pure a : EStateM Failure σ α) :=
  of_ok fun s => ⟨a, s, rfl⟩

/-- A failure of the codec's own, whatever is registered. -/
theorem throw {e : Failure} (reason : ∀ registry, e.OfDecoding context registry) :
    Accounts context fun _ => (MonadExcept.throw e : EStateM Failure σ α) where
  ok _ run := run
  error run := by
    cases run
    exact .own (reason _) fun _ _ => rfl

theorem congr {read read' : Option Registry → EStateM Failure σ α} (reads : Accounts context read)
    (same : ∀ registry, read registry = read' registry) : Accounts context read' :=
  funext same ▸ reads

theorem malformed (offset : Nat) (reason : Malformation) :
    Accounts context fun _ => (Decoder.malformed offset reason : Decoder α) :=
  throw fun _ => .malformed offset reason

/-- A choice that does not depend on what is registered. -/
theorem ite {c : Prop} [Decidable c] {x y : Option Registry → EStateM Failure σ α}
    (yes : Accounts context x) (no : Accounts context y) :
    Accounts context fun registry => if c then x registry else y registry := by
  split
  · exact yes
  · exact no

/-- A step that always goes through, and what follows it. -/
theorem after {x : EStateM Failure σ α} {f : Option Registry → α → EStateM Failure σ β}
    (runs : ∀ s, ∃ a s', x s = .ok a s')
    (second : ∀ a, Accounts context fun registry => f registry a) :
    Accounts context fun registry => x >>= f registry :=
  (of_ok runs).bind second

/-- What is made of an answer without reading on. -/
theorem map {read : Option Registry → EStateM Failure σ α} (first : Accounts context read)
    (f : α → β) : Accounts context fun registry => read registry >>= fun a => Pure.pure (f a) :=
  first.bind fun a => pure (f a)

/-- Reading several times. -/
theorem times {read : Option Registry → Decoder α} (one : Accounts context read) (count : Nat) :
    Accounts context fun registry => Decoding.times (read registry) count := by
  induction count with
  | zero => exact pure []
  | succ count ih => exact one.bind fun first => ih.map fun rest => first :: rest

/-- Reading into a target. -/
theorem lift {read : Option Registry → Decoder α} (reads : Accounts context read) :
    Accounts context fun registry => Binder.lift (read registry) where
  ok {known other s s' a} kept run := by
    rw [Binder.lift] at run ⊢
    cases here : read (some known) s.cursor with
    | ok b there =>
      rw [here] at run
      rw [reads.ok kept here]
      exact run
    | error e there =>
      rw [here] at run
      cases run
  error {registry s s' e} run := by
    rw [Binder.lift] at run
    cases here : read registry s.cursor with
    | ok b there =>
      rw [here] at run
      cases run
    | error e' there =>
      rw [here] at run
      cases run
      refine (reads.error here).mono fun _ _ failed => ?_
      rw [Binder.lift, failed]

/-- Reading a record of its own. -/
theorem onNew {bind : Option Registry → Binder Unit} (binds : Accounts context bind) :
    Accounts context fun registry => Binder.onNew (bind registry) where
  ok {known other s s' a} kept run := by
    rw [Binder.onNew] at run ⊢
    cases here : bind (some known) ⟨s, Record.new⟩ with
    | ok b there =>
      rw [here] at run
      rw [binds.ok kept here]
      exact run
    | error e there =>
      rw [here] at run
      cases run
  error {registry s s' e} run := by
    rw [Binder.onNew] at run
    cases here : bind registry ⟨s, Record.new⟩ with
    | ok b there =>
      rw [here] at run
      cases run
    | error e' there =>
      rw [here] at run
      cases run
      refine (binds.error here).mono fun _ _ failed => ?_
      rw [Binder.onNew, failed]

/-! ## Bytes

None of the readings of bytes calls a factory. -/

section Bytes

variable (input : List UInt8)

theorem offset_bind {f : Option Registry → Nat → Decoder β}
    (second : ∀ start, Accounts context fun registry => f registry start) :
    Accounts context fun registry => Cursor.offset >>= f registry :=
  after (fun s => ⟨s.position, s, rfl⟩) second

theorem take (count : Nat) : Accounts context fun _ => Cursor.take input count :=
  after (fun s => ⟨s, s, rfl⟩) fun _ => ite (malformed _ _) (ite (malformed _ _)
    (after (fun _ => ⟨_, _, rfl⟩) fun _ => pure _))

theorem seek (target : Nat) : Accounts context fun _ => Cursor.seek input target :=
  after (fun s => ⟨s, s, rfl⟩) fun _ => ite (malformed _ _) (of_ok fun _ => ⟨_, _, rfl⟩)

theorem skip (count : Nat) : Accounts context fun _ => Cursor.skip input count :=
  (take input count).map _

theorem byte : Accounts context fun _ => Cursor.byte input := (take input 1).map _

/-- A varint calls no factory, and neither do the other primitives. -/
theorem varint : Accounts context fun _ => Cursor.varint input := by
  refine after (fun s => ⟨s, s, rfl⟩) fun here => ?_
  cases Varint.decode (input.drop here.position) with
  | error cause => exact malformed _ _
  | ok read => exact (skip input read.2).map _

theorem signedVarint : Accounts context fun _ => Cursor.signedVarint input := (varint input).map _

theorem varint32 : Accounts context fun _ => Cursor.varint32 input :=
  offset_bind fun _ => (signedVarint input).bind fun _ => ite (pure _) (malformed _ _)

theorem varint16 : Accounts context fun _ => Cursor.varint16 input :=
  offset_bind fun _ => (signedVarint input).bind fun _ => ite (pure _) (malformed _ _)

theorem length : Accounts context fun _ => Cursor.length input :=
  offset_bind fun _ => (varint32 input).bind fun _ => ite (pure _) (malformed _ _)

theorem word32 : Accounts context fun _ => Cursor.word32 input := (take input 4).map _

theorem word64 : Accounts context fun _ => Cursor.word64 input := (take input 8).map _

theorem binary : Accounts context fun _ => Cursor.binary input :=
  (length input).bind fun _ => take input _

/-- Text calls none. -/
theorem string : Accounts context fun _ => Cursor.string input := by
  refine offset_bind fun start => (binary input).bind fun bytes => ?_
  cases Utf8.decode bytes with
  | error cause => exact malformed _ _
  | ok text => exact pure _

/-- A tag calls none. -/
theorem tag : Accounts context fun _ => Cursor.tag input := by
  refine offset_bind fun start => (byte input).bind fun id => ?_
  cases TypeTag.ofId? id with
  | none => exact malformed _ _
  | some tag => exact pure _

end Bytes

/-! ## Bodies without bodies inside

Of these only an object of the application's is made by a factory. -/

section Scalars

variable (input : List UInt8)

/-- Reading a day asks nothing of what is registered. -/
theorem date : Accounts context fun registry =>
    Decoding.readDate (context.registering registry) input := by
  -- the zone does not depend on the registry
  show Accounts context fun _ => Decoding.readDate context input
  refine offset_bind fun start => (signedVarint input).bind fun day => ?_
  cases context.options.zone.startOfDay? day with
  | none => exact malformed _ _
  | some millis => exact pure _

theorem decimal : Accounts context fun _ => Decoding.readDecimal input :=
  (word32 input).bind fun _ => offset_bind fun _ => (word32 input).bind fun _ =>
    ite (malformed _ _) ((take input _).map _)

theorem id : Accounts context fun _ => Decoding.readId input :=
  (varint32 input).bind fun _ => (signedVarint input).map _

theorem linkElement : Accounts context fun _ => Decoding.readLinkElement input := (id input).map _

theorem links : Accounts context fun _ => Decoding.readLinks input :=
  (length input).bind fun count => (linkElement input).times count

theorem mapKey : Accounts context fun _ => Decoding.readMapKey input :=
  offset_bind fun _ => (tag input).bind fun _ => ite (string input) (malformed _ _)

theorem linkMap : Accounts context fun _ => Decoding.readLinkMap input :=
  (length input).bind fun count =>
    (((mapKey input).bind fun _ => (linkElement input).map _).times count).map _

/-- An object that is made by what is registered.  A name that is unknown stays so, and a refusal is
the factory's. -/
theorem made {make : Registry → Except Failure α} {name : String}
    (makes : ∀ {known other a}, known.IsKeptBy other → make known = .ok a → make other = .ok a)
    (failed : ∀ {known e}, make known = .error e →
      (e = .codec (.unregisteredType name) ∧ (OrderedMap.find? name known.customs = none ∨
        OrderedMap.find? name known.serializables = none) ∧
        ∀ {other}, known.IsKeptBy other → make other = .error e) ∨
      ∃ call, known.Refuses e call ∧ ∀ e', make (known.refusing e' call) = .error e') :
    Accounts context fun registry => (match registry with
      | none => MonadExcept.throw (.codec (.unregisteredType name))
      | some known => Decoding.orThrow (make known) : Decoder α) where
  ok {known other s s' a} kept run := by
    dsimp only at run ⊢
    cases outcome : make known with
    | ok a =>
      rw [outcome] at run
      rw [makes kept outcome]
      exact run
    | error e =>
      rw [outcome] at run
      cases run
  error {registry s s' e} run := by
    cases registry with
    | none =>
      cases run
      exact .own (.unregistered fun known none => by cases none) fun none => by cases none
    | some known =>
      dsimp only at run ⊢
      cases outcome : make known with
      | ok a =>
        rw [outcome] at run
        cases run
      | error e' =>
        rw [outcome] at run
        cases run
        -- either the name was unknown, or the factory refused and its failure came through
        rcases failed outcome with ⟨rfl, unknown, stays⟩ | ⟨call, refuses, again⟩
        · refine .own (.unregistered fun known' same => ?_) fun {known' other} same kept => ?_
          · cases same
            exact unknown
          · cases same
            dsimp only
            rw [stays kept]
            rfl
        · refine .refused ⟨known, call, rfl, refuses, fun e' => ?_⟩
          dsimp only
          rw [again e']
          rfl

/-- An object is refused because nothing is registered for its type, or by the factory that is
called; with another failure of that factory it is refused with that one. -/
theorem makeCustom (name : String) (stream : List UInt8) :
    Accounts context fun registry => (match registry with
      | none => MonadExcept.throw (.codec (.unregisteredType name))
      | some known => Decoding.orThrow (known.makeCustom name stream) : Decoder CustomObject) := by
  refine made (fun kept => kept.makeCustom) fun failed => ?_
  rcases Registry.of_makeCustom_error failed with ⟨unknown, rfl⟩ | refused
  · refine Or.inl ⟨rfl, Or.inl unknown, fun kept => ?_⟩
    rw [Registry.makeCustom_eq]
    exact Registry.makeFrom_of_unknown ((kept.customs.unknown name).mpr unknown)
  · exact Or.inr refused

/-- The same for serializable objects. -/
theorem makeSerializable (name : String) (record : Record) :
    Accounts context fun registry => (match registry with
      | none => MonadExcept.throw (.codec (.unregisteredType name))
      | some known => Decoding.orThrow (known.makeSerializable name record)
        : Decoder SerializableObject) := by
  refine made (fun kept => kept.makeSerializable) fun failed => ?_
  rcases Registry.of_makeSerializable_error failed with ⟨unknown, rfl⟩ | refused
  · refine Or.inl ⟨rfl, Or.inr unknown, fun kept => ?_⟩
    rw [Registry.makeSerializable_eq]
    exact Registry.makeFrom_of_unknown ((kept.serializables.unknown name).mpr unknown)
  · exact Or.inr refused

/-- An object of the application's: its type and its stream are read before the factory is called.
-/
theorem custom : Accounts context fun registry =>
    Decoding.readCustom (context.registering registry) input := by
  refine (string input).bind fun name => (binary input).bind fun stream => ?_
  refine ((makeCustom name stream).map fun object =>
    Value.custom object.typeName object.stream).congr fun registry => ?_
  cases registry <;> rfl

/-- Of the bodies that hold no others only that of an object calls a factory. -/
theorem scalar (tag : TypeTag) : Accounts context fun registry =>
    Decoding.readScalar (context.registering registry) input tag := by
  cases tag with
  | integer => exact (varint32 input).map _
  | long => exact (signedVarint input).map _
  | short => exact (varint16 input).map _
  | string => exact (string input).map _
  | double => exact (word64 input).map _
  | float => exact (word32 input).map _
  | byte => exact (byte input).map _
  | boolean => exact (byte input).map _
  | dateTime => exact (signedVarint input).map _
  | date => exact date input
  | decimal => exact (decimal input).map _
  | binary => exact (binary input).map _
  | linkBag => exact (binary input).map _
  | link => exact (id input).map _
  | linkList => exact (links input).map _
  | linkSet => exact (links input).map _
  | linkMap => exact (linkMap input).map _
  | custom => exact custom input
  | _ => exact pure _

end Scalars

/-! ## Bodies with bodies inside

An embedded record may be an object too, and it is made of what was read of it. -/

section Containers

variable (input : List UInt8) {inner : Option Registry → BodyReader}
  (inside : ∀ tag, Accounts context fun registry => inner registry tag)

/-- The tag of a slot calls none. -/
theorem slotTag (pinned : Option TypeTag) :
    Accounts context fun _ => Decoding.readSlotTag input pinned := by
  cases pinned with
  | some tag => exact pure tag
  | none => exact tag input

theorem finish (last : Nat) : Accounts context fun _ => Decoding.finish input last :=
  offset_bind fun _ => ite (seek input last) (pure _)

include inside

theorem readAt (tag : TypeTag) (target : Nat) : Accounts context fun registry =>
    Decoding.readAt input (inner registry) tag target :=
  offset_bind fun resume => (seek input target).bind fun _ => (inside tag).bind fun _ =>
    offset_bind fun _ => (seek input resume).map _

theorem slot (pinned : Option TypeTag) : Accounts context fun registry =>
    Decoding.readSlot input (inner registry) pinned :=
  offset_bind fun _ => (word32 input).bind fun _ => (slotTag input pinned).bind fun tag =>
    ite (pure _) (ite (malformed _ _) ((readAt input inside tag _).map _))

/-- An element, behind its tag or under that of the list. -/
theorem item (declared : TypeTag) : Accounts context fun registry =>
    Decoding.readItem input (inner registry) declared := by
  have own : Accounts context fun _ => Decoding.readItemTag input declared :=
    ite (tag input) (pure _)
  exact own.bind fun tag => ite (pure _) (inside tag)

theorem items : Accounts context fun registry => Decoding.readItems input (inner registry) :=
  (length input).bind fun count => offset_bind fun _ => (tag input).bind fun declared =>
    ite (malformed _ _) ((item input inside declared).times count)

theorem member : Accounts context fun registry => Decoding.readMember input (inner registry) :=
  (mapKey input).bind fun _ => (slot input inside none).map _

theorem members : Accounts context fun registry => Decoding.readMap input (inner registry) :=
  (length input).bind fun count => ((member input inside).times count).bind fun _ =>
    (finish input _).map _

/-! ## Records

What is in the target does not depend on the registry, and what is bound on the way does not either.
-/

omit inside in
/-- The heading of a field; a property that the schema does not have is a reason of its own. -/
theorem heading : Accounts context fun registry =>
    Decoding.readHeading (context.registering registry) input := by
  -- nor do the properties of the schema
  show Accounts context fun _ => Decoding.readHeading context input
  refine offset_bind fun start => (varint32 input).bind fun lead => ?_
  refine ite (pure _) (ite ((take input _).bind fun bytes => ?_) ?_)
  · cases Utf8.decode bytes with
    | error cause => exact malformed _ _
    | ok name => exact pure _
  · dsimp only
    cases unknown : Decoding.property? context (Int32.ofInt (-lead.toInt - 1)) with
    | some property => exact pure _
    | none => exact throw fun _ => .unresolved start unknown

/-- A walk over a header, with so many entries to go. -/
theorem fields (projection : Option (List String)) : ∀ room last bound : Nat,
    Accounts context fun registry => Decoding.readFields (context.registering registry) input
      (inner registry) projection room last bound := by
  intro room
  induction room with
  | zero =>
    -- more entries than an input can have: no factory comes into it
    exact fun last bound =>
      after (fun s => ⟨s.cursor.position, s, rfl⟩) fun _ => (malformed _ _).lift
  | succ room ih =>
    intro last bound
    refine (heading input).lift.bind fun heading => ?_
    cases heading with
    | none => exact pure last
    | some heading =>
      -- what is bound already decides whether the body is read, and that is the same under any
      -- registry
      refine after (fun s => ⟨s, s, rfl⟩) fun state => ite ?_ ?_
      · exact (skip input _).lift.bind fun _ => ih last bound
      · refine (slot input inside heading.pinned).lift.bind fun placed =>
          after (fun _ => ⟨_, _, rfl⟩) fun _ => ?_
        cases projection with
        | none => exact ih _ _
        | some wanted => exact ite (pure _) (ih _ _)

/-- A record, from the class name to the end of the last body. -/
theorem record (projection : Option (List String)) : Accounts context fun registry =>
    Decoding.readRecord (context.registering registry) input (inner registry) projection := by
  refine (string input).lift.bind fun className => after (fun s => ?_) fun _ =>
    (fields input inside projection _ 0 0).bind fun last => (finish input last).lift
  -- binding the class name never fails
  rw [Binder.bindClass]
  split
  · exact ⟨_, _, rfl⟩
  · exact ⟨_, _, rfl⟩

/-- An embedded record, and what is made of it where it bears the mark of an object. -/
theorem embedded : Accounts context fun registry =>
    Decoding.readEmbedded (context.registering registry) input (inner registry) := by
  refine (record input inside none).onNew.bind fun record => ?_
  -- whether an object is made, and of which class, is read off the record
  split
  · next className _ =>
    refine ((makeSerializable className
      (record.remove Record.serializableClassField).2).map fun object =>
        Value.serializable object.className object.record).congr fun registry => ?_
    cases registry <;> rfl
  · exact pure _

end Containers

/-! ## Level by level

At the last level nothing nests any more, whatever is registered; at every other one the bodies
inside are read alike. -/

/-- One level more of containers, or none left. -/
theorem bodyWith (input : List UInt8) {inner : Option Registry → Except CodecError BodyReader}
    (deeper : (∀ registry, inner registry = .error context.tooDeep) ∨
      ∃ read : Option Registry → BodyReader, (∀ registry, inner registry = .ok (read registry)) ∧
        ∀ tag, Accounts context fun registry => read registry tag) (tag : TypeTag) :
    Accounts context fun registry =>
      Decoding.readBodyWith (context.registering registry) input (inner registry) tag := by
  cases flat : tag.isContainer with
  | false =>
    -- what holds no others does not ask for a level
    exact (scalar input tag).congr fun registry =>
      (Decoding.readBodyWith_flat _ input flat _).symm
  | true =>
    rcases deeper with none | ⟨read, some, inside⟩
    · -- no level is left, whatever is registered
      obtain rfl : inner = fun _ => .error context.tooDeep := funext none
      cases tag with
      | embedded | embeddedList | embeddedSet | embeddedMap => exact throw fun _ => .tooDeep
      | _ => cases flat
    · obtain rfl : inner = fun registry => .ok (read registry) := funext some
      cases tag with
      | embedded => exact embedded input inside
      | embeddedList => exact (items input inside).map _
      | embeddedSet => exact (items input inside).map _
      | embeddedMap => exact (members input inside).map _
      | _ => cases flat

/-- Every body, by induction on the levels that are left. -/
theorem body (input : List UInt8) (room : Nat) : ∀ tag, Accounts context fun registry =>
    Decoding.readBody (context.registering registry) input room tag := by
  induction room with
  -- without a level left every container is refused, whatever is registered
  | zero => exact bodyWith input (.inl fun _ => rfl)
  | succ room ih => exact bodyWith input (.inr ⟨_, fun _ => rfl, ih⟩)

theorem decodeFrom (input : List UInt8) (projection : Option (List String)) :
    Accounts context fun registry =>
      Record.decodeFrom (context.registering registry) input projection :=
  after (fun _ => ⟨_, _, rfl⟩) fun _ => record input (body input context.options.maxDepth) projection

end Accounts

/-! ## Muted factories

A decoding whose failure no factory was asked for goes the same way with all of them muted. -/

/-- A decoding that fails, and not with what a factory said, fails alike with all factories
muted. -/
theorem Record.decodeFrom_muted {context : Context} {input : List UInt8}
    {projection : Option (List String)} {state last : Binding} {e : Failure}
    (failed : decodeFrom context input projection state = .error e last) :
    Refusal context.registry
        (fun other => decodeFrom (context.registering other) input projection state) last e ∨
      decodeFrom context.muted input projection state = .error e last := by
  cases known : context.registry with
  | none =>
    -- without a registry there is nothing to mute
    have same : context.muted = context := by
      rw [Context.muted, known, Option.map_none, ← known]
      rfl
    rw [same]
    exact Or.inr failed
  | some registry =>
    rw [← known]
    have accounts : Accounts context _ := .decodeFrom input projection
    -- a reason of its own stays under the muted factories, since they make what the others made
    cases accounts.error failed with
    | own _ stays =>
      refine Or.inr ?_
      rw [Context.muted, known, Option.map_some]
      exact stays known Registry.isKeptBy_muted
    | refused said => exact Or.inl said

end DocumentCodec
