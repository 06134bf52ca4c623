import DocumentCodec.Proofs.Running
/-!
# Two decodings in step

Two decodings that differ in one thing only, in what the schema knows, in how deep containers may
nest, or in where the input ends, go the same way until that thing matters; and from there the
second one fails, for a reason that names the thing.  `Follows` says so of two computations, given
the failures that excuse the second one, and is closed under sequences.

`Lockstep` lists what two decodings must have in common where they read bytes and look things up.
From these few facts it follows of every reader, and in the end of whole decodings, partial targets
included.
-/

namespace DocumentCodec

/-- The second computation does what the first one does, whatever that is, or it fails with an
excuse. -/
structure Follows {σ α : Type} (excused : Failure → Prop) (lead follow : EStateM Failure σ α) :
    Prop where
  run : ∀ s, follow s = lead s ∨ ∃ e s', follow s = .error e s' ∧ excused e

namespace Follows

variable {σ α β : Type} {excused : Failure → Prop}

/-- A computation is in step with itself. -/
theorem refl (x : EStateM Failure σ α) : Follows excused x x where
  run _ := Or.inl rfl

/-- An excused failure follows anything. -/
theorem throw {x : EStateM Failure σ α} {e : Failure} (excuse : excused e) :
    Follows excused x (MonadExcept.throw e) where
  run s := Or.inr ⟨e, s, rfl, excuse⟩

/-- Sequences: as long as the first parts agree the second ones begin in the same state, and an
excuse in the first part excuses the whole. -/
theorem bind {x x' : EStateM Failure σ α} {f f' : α → EStateM Failure σ β}
    (first : Follows excused x x') (second : ∀ a, Follows excused (f a) (f' a)) :
    Follows excused (x >>= f) (x' >>= f') where
  run s := by
    rcases first.run s with same | ⟨e, s', failed, excuse⟩
    · cases outcome : x s with
      | ok a s' =>
        rw [outcome] at same
        rw [run_bind_of_ok outcome, run_bind_of_ok same]
        exact (second a).run s'
      | error e s' =>
        rw [outcome] at same
        rw [run_bind_of_error outcome, run_bind_of_error same]
        exact Or.inl rfl
    · exact Or.inr ⟨e, s', run_bind_of_error failed, excuse⟩

/-- The sequels of one and the same computation. -/
theorem same_bind {x : EStateM Failure σ α} {f f' : α → EStateM Failure σ β}
    (second : ∀ a, Follows excused (f a) (f' a)) : Follows excused (x >>= f) (x >>= f') :=
  (refl x).bind second

/-- What is made of an answer is the same if the answer is. -/
theorem map {x x' : EStateM Failure σ α} {f : α → EStateM Failure σ β}
    (first : Follows excused x x') : Follows excused (x >>= f) (x' >>= f) :=
  first.bind fun a => refl (f a)

/-- A choice that both make alike. -/
theorem ite {c : Prop} [Decidable c] {x x' y y' : EStateM Failure σ α}
    (yes : Follows excused x x') (no : Follows excused y y') :
    Follows excused (if c then x else y) (if c then x' else y') := by
  split
  · exact yes
  · exact no

/-- Where nothing is excused, the two are the same. -/
theorem eq {x x' : EStateM Failure σ α} (follows : Follows (fun _ => False) x x') : x' = x := by
  funext s
  rcases follows.run s with same | ⟨e, s', -, excuse⟩
  · exact same
  · exact excuse.elim

/-- Reading into a target follows as the reading does, and then nothing is bound. -/
theorem lift {read read' : Decoder α} (follows : Follows excused read read') :
    Follows excused (Binder.lift read) (Binder.lift read') where
  run state := by
    rw [Binder.lift, Binder.lift]
    rcases follows.run state.cursor with same | ⟨e, there, failed, excuse⟩
    · rw [same]
      exact Or.inl rfl
    · rw [failed]
      exact Or.inr ⟨e, _, rfl, excuse⟩

/-- A target of its own is begun by both, and forgotten by both when it fails. -/
theorem onNew {bind bind' : Binder Unit} (follows : Follows excused bind bind') :
    Follows excused (Binder.onNew bind) (Binder.onNew bind') where
  run here := by
    rw [Binder.onNew, Binder.onNew]
    rcases follows.run ⟨here, Record.new⟩ with same | ⟨e, state, failed, excuse⟩
    · rw [same]
      exact Or.inl rfl
    · rw [failed]
      exact Or.inr ⟨e, _, rfl, excuse⟩

/-- Reading several times. -/
theorem times {read read' : Decoder α} (follows : Follows excused read read') (count : Nat) :
    Follows excused (Decoding.times read count) (Decoding.times read' count) := by
  induction count with
  | zero => exact refl _
  | succ count ih => exact follows.bind fun _ => ih.map

end Follows

/-- What two decodings have in common: where the second one can take bytes, jump or read a varint,
it does as the first one; what it knows of a property the first one knows too; and it makes the same
objects and days.  An input that is shorter leaves less room for the entries of a header. -/
structure Lockstep (excused : Failure → Prop) (lead follow : Context) (whole part : List UInt8) :
    Prop where
  take : ∀ count, Follows excused (Cursor.take whole count) (Cursor.take part count)
  seek : ∀ target, Follows excused (Cursor.seek whole target) (Cursor.seek part target)
  varint : Follows excused (Cursor.varint whole) (Cursor.varint part)
  shorter : part.length ≤ whole.length
  exhausted : part.length < whole.length → ∀ start,
    excused (.codec (.malformedInput start (.overlap part.length)))
  property : ∀ id, Decoding.property? follow id = Decoding.property? lead id ∨
    Decoding.property? follow id = none ∧ ∀ start, excused (.codec (.unresolvedProperty id start))
  registry : follow.registry = lead.registry
  zone : follow.options.zone = lead.options.zone

namespace Lockstep

variable {excused : Failure → Prop} {lead follow : Context} {whole part : List UInt8}

/-- One input is read in step with itself, whatever the contexts know. -/
theorem of_context (input : List UInt8)
    (property : ∀ id, Decoding.property? follow id = Decoding.property? lead id ∨
      Decoding.property? follow id = none ∧ ∀ start, excused (.codec (.unresolvedProperty id start)))
    (registry : follow.registry = lead.registry)
    (zone : follow.options.zone = lead.options.zone) :
    Lockstep excused lead follow input input where
  take _ := .refl _
  seek _ := .refl _
  varint := .refl _
  shorter := Nat.le_refl _
  exhausted less := absurd less (Nat.lt_irrefl _)
  property := property
  registry := registry
  zone := zone

variable (lock : Lockstep excused lead follow whole part)
include lock

/-! ## Words, lengths and byte strings

The two inputs hand out the same bytes as far as both have them, and whatever is read from these
bytes is read alike. -/

theorem skip (count : Nat) : Follows excused (Cursor.skip whole count) (Cursor.skip part count) :=
  (lock.take count).map

theorem byte : Follows excused (Cursor.byte whole) (Cursor.byte part) := (lock.take 1).map

theorem signedVarint : Follows excused (Cursor.signedVarint whole) (Cursor.signedVarint part) :=
  lock.varint.map

theorem varint32 : Follows excused (Cursor.varint32 whole) (Cursor.varint32 part) :=
  .same_bind fun _ => lock.signedVarint.map

theorem varint16 : Follows excused (Cursor.varint16 whole) (Cursor.varint16 part) :=
  .same_bind fun _ => lock.signedVarint.map

theorem length : Follows excused (Cursor.length whole) (Cursor.length part) :=
  .same_bind fun _ => lock.varint32.map

theorem word32 : Follows excused (Cursor.word32 whole) (Cursor.word32 part) := (lock.take 4).map

theorem word64 : Follows excused (Cursor.word64 whole) (Cursor.word64 part) := (lock.take 8).map

theorem binary : Follows excused (Cursor.binary whole) (Cursor.binary part) :=
  lock.length.bind lock.take

theorem string : Follows excused (Cursor.string whole) (Cursor.string part) :=
  .same_bind fun _ => lock.binary.map

theorem tag : Follows excused (Cursor.tag whole) (Cursor.tag part) :=
  .same_bind fun _ => lock.byte.map

/-! ## Bodies without bodies inside

What is read of the zone, of the registry and of the schema is the same in both. -/

theorem date : Follows excused (Decoding.readDate lead whole) (Decoding.readDate follow part) := by
  unfold Decoding.readDate
  rw [lock.zone]
  exact .same_bind fun _ => lock.signedVarint.map

theorem decimal : Follows excused (Decoding.readDecimal whole) (Decoding.readDecimal part) :=
  lock.word32.bind fun _ => .same_bind fun _ => lock.word32.bind fun _ =>
    .ite (.refl _) (lock.take _).map

theorem id : Follows excused (Decoding.readId whole) (Decoding.readId part) :=
  lock.varint32.bind fun _ => lock.signedVarint.map

theorem linkElement :
    Follows excused (Decoding.readLinkElement whole) (Decoding.readLinkElement part) :=
  lock.id.map

theorem links : Follows excused (Decoding.readLinks whole) (Decoding.readLinks part) :=
  lock.length.bind lock.linkElement.times

theorem mapKey : Follows excused (Decoding.readMapKey whole) (Decoding.readMapKey part) :=
  .same_bind fun _ => lock.tag.bind fun _ => .ite lock.string (.refl _)

theorem linkMap : Follows excused (Decoding.readLinkMap whole) (Decoding.readLinkMap part) :=
  lock.length.bind fun count =>
    ((lock.mapKey.bind fun _ => lock.linkElement.map).times count).map

/-- An object of the application's: both decodings have the same registry. -/
theorem custom :
    Follows excused (Decoding.readCustom lead whole) (Decoding.readCustom follow part) := by
  unfold Decoding.readCustom
  rw [lock.registry]
  exact lock.string.bind fun _ => lock.binary.map

/-- Every body that holds no others, tag by tag. -/
theorem scalar (tag : TypeTag) :
    Follows excused (Decoding.readScalar lead whole tag) (Decoding.readScalar follow part tag) := by
  cases tag with
  | integer => exact lock.varint32.map
  | long => exact lock.signedVarint.map
  | short => exact lock.varint16.map
  | string => exact lock.string.map
  | double => exact lock.word64.map
  | float => exact lock.word32.map
  | byte => exact lock.byte.map
  | boolean => exact lock.byte.map
  | dateTime => exact lock.signedVarint.map
  | date => exact lock.date
  | decimal => exact lock.decimal.map
  | binary => exact lock.binary.map
  | linkBag => exact lock.binary.map
  | link => exact lock.id.map
  | linkList => exact lock.links.map
  | linkSet => exact lock.links.map
  | linkMap => exact lock.linkMap.map
  | custom => exact lock.custom
  | _ => exact .refl _

/-! ## Slots, lists, sets and maps

Both decodings look for bodies at the same places, for the pointers were read alike. -/

section Containers

variable {inner inner' : BodyReader} (inside : ∀ tag, Follows excused (inner tag) (inner' tag))

/-- The tag of a body is pinned for both or read by both. -/
theorem slotTag (pinned : Option TypeTag) :
    Follows excused (Decoding.readSlotTag whole pinned) (Decoding.readSlotTag part pinned) := by
  cases pinned with
  | some tag => exact .refl _
  | none => exact lock.tag

theorem finish (last : Nat) :
    Follows excused (Decoding.finish whole last) (Decoding.finish part last) :=
  .same_bind fun _ => .ite (lock.seek last) (.refl _)

include inside

/-- A body somewhere else: both jump there, read it, and come back. -/
theorem readAt (tag : TypeTag) (target : Nat) :
    Follows excused (Decoding.readAt whole inner tag target)
      (Decoding.readAt part inner' tag target) :=
  .same_bind fun resume => (lock.seek target).bind fun _ => (inside tag).bind fun _ =>
    .same_bind fun _ => (lock.seek resume).map

theorem slot (pinned : Option TypeTag) :
    Follows excused (Decoding.readSlot whole inner pinned) (Decoding.readSlot part inner' pinned) :=
  .same_bind fun _ => lock.word32.bind fun _ => (lock.slotTag pinned).bind fun tag =>
    .ite (.refl _) (.ite (.refl _) (lock.readAt inside tag _).map)

/-- An element, under its own tag or under that of the list. -/
theorem item (declared : TypeTag) :
    Follows excused (Decoding.readItem whole inner declared)
      (Decoding.readItem part inner' declared) := by
  have own : Follows excused (Decoding.readItemTag whole declared)
      (Decoding.readItemTag part declared) := .ite lock.tag (.refl _)
  exact own.bind fun tag => .ite (.refl _) (inside tag)

theorem items :
    Follows excused (Decoding.readItems whole inner) (Decoding.readItems part inner') :=
  lock.length.bind fun count => .same_bind fun _ => lock.tag.bind fun declared =>
    .ite (.refl _) ((lock.item inside declared).times count)

theorem member :
    Follows excused (Decoding.readMember whole inner) (Decoding.readMember part inner') :=
  lock.mapKey.bind fun _ => (lock.slot inside none).map

theorem map : Follows excused (Decoding.readMap whole inner) (Decoding.readMap part inner') :=
  lock.length.bind fun count => ((lock.member inside).times count).bind fun _ =>
    (lock.finish _).map

/-! ## Records

Where the header tells of a property, and where it has more entries than the input allows, the two
may part. -/

omit inside in
/-- The heading of a field.  This is where a schema is asked for a property, so here the second
decoding may meet one that it does not know. -/
theorem heading :
    Follows excused (Decoding.readHeading lead whole) (Decoding.readHeading follow part) := by
  refine .same_bind fun start => lock.varint32.bind fun lead' => ?_
  dsimp only
  refine .ite (.refl _) (.ite (lock.take _).map ?_)
  rcases lock.property (Int32.ofInt (-lead'.toInt - 1)) with same | ⟨unknown, excuse⟩
  · rw [same]
    exact .refl _
  · rw [unknown]
    exact .throw (excuse start)

/-- A walk over a header, where the second one has less room by what its input is shorter. -/
theorem fields (projection : Option (List String)) : ∀ entries last bound : Nat,
    Follows excused
      (Decoding.readFields lead whole inner projection (entries + (whole.length - part.length)) last
        bound)
      (Decoding.readFields follow part inner' projection entries last bound) := by
  have shorter := lock.shorter
  intro entries
  -- the induction is on the entries that the second walk may still read
  induction entries with
  | zero =>
    intro last bound
    -- it may read no more: its input is shorter, which excuses it, or the first has none left either
    rcases Nat.lt_or_eq_of_le shorter with less | same
    · exact ⟨fun state => Or.inr ⟨_, state, rfl, lock.exhausted less _⟩⟩
    · rw [Nat.zero_add, ← same, Nat.sub_self, Decoding.readFields, Decoding.readFields, same]
      exact .refl _
  | succ entries ih =>
    intro last bound
    rw [Nat.add_right_comm, Decoding.readFields, Decoding.readFields]
    refine lock.heading.lift.bind fun heading => ?_
    cases heading with
    | none => exact .refl _
    | some heading =>
      refine .same_bind fun state => .ite ?_ ?_
      · -- stepped over, or read; both bind alike what both have read alike
        exact (lock.skip _).lift.bind fun _ => ih last bound
      · refine (lock.slot inside heading.pinned).lift.bind fun placed => .same_bind fun _ => ?_
        cases projection with
        | none => exact ih _ _
        | some wanted => exact .ite (.refl _) (ih _ _)

/-- A record.  Each input allows for as many entries as it has bytes, so those that the longer one
allows for are counted as those of the shorter one and some more. -/
theorem record (projection : Option (List String)) :
    Follows excused (Decoding.readRecord lead whole inner projection)
      (Decoding.readRecord follow part inner' projection) := by
  have walk := lock.fields inside projection (part.length + 1) 0 0
  have shorter := lock.shorter
  rw [show part.length + 1 + (whole.length - part.length) = whole.length + 1 by omega] at walk
  exact lock.string.lift.bind fun _ => .same_bind fun _ => walk.bind fun last =>
    (lock.finish last).lift

/-- An embedded record, in a target of its own. -/
theorem embedded :
    Follows excused (Decoding.readEmbedded lead whole inner)
      (Decoding.readEmbedded follow part inner') := by
  unfold Decoding.readEmbedded
  rw [lock.registry]
  exact (lock.record inside none).onNew.map

end Containers

/-! ## Level by level -/

/-- One level more of containers.  The second decoding may have no level where the first one has
one, if that excuses it. -/
theorem bodyWith {inner inner' : Except CodecError BodyReader}
    (deeper : ∀ read', inner' = .ok read' →
      ∃ read, inner = .ok read ∧ ∀ tag, Follows excused (read tag) (read' tag))
    (limited : ∀ e, inner' = .error e → inner = .error e ∨ excused (.codec e)) (tag : TypeTag) :
    Follows excused (Decoding.readBodyWith lead whole inner tag)
      (Decoding.readBodyWith follow part inner' tag) := by
  cases flat : tag.isContainer with
  | false =>
    rw [Decoding.readBodyWith_flat lead whole flat, Decoding.readBodyWith_flat follow part flat]
    exact lock.scalar tag
  | true =>
    cases inner' with
    | error e =>
      rcases limited e rfl with rfl | excuse
      · cases tag with
        | embedded | embeddedList | embeddedSet | embeddedMap => exact .refl _
        | _ => cases flat
      · cases tag with
        | embedded | embeddedList | embeddedSet | embeddedMap => exact .throw excuse
        | _ => cases flat
    | ok read' =>
      obtain ⟨read, rfl, inside⟩ := deeper read' rfl
      cases tag with
      | embedded => exact lock.embedded inside
      | embeddedList => exact (lock.items inside).map
      | embeddedSet => exact (lock.items inside).map
      | embeddedMap => exact (lock.map inside).map
      | _ => cases flat

/-- Bodies with some room against bodies with `more` room, where running out of the lesser room is
an excuse. -/
theorem body (more : Nat) (same : more = 0 → follow.tooDeep = lead.tooDeep)
    (limited : 0 < more → excused (.codec follow.tooDeep)) (room : Nat) : ∀ tag,
    Follows excused (Decoding.readBody lead whole (room + more) tag)
      (Decoding.readBody follow part room tag) := by
  induction room with
  | zero =>
    rw [Nat.zero_add, Decoding.readBody]
    -- the second has no level left, and the first has none either or that is the excuse
    cases more with
    | zero =>
      rw [Decoding.readBody, same rfl]
      exact lock.bodyWith (fun read' none => by cases none) fun e _ => Or.inl (by assumption)
    | succ more =>
      refine lock.bodyWith (fun read' none => by cases none) fun e there => ?_
      cases there
      exact Or.inr (limited (Nat.succ_pos _))
  | succ room ih =>
    rw [Nat.add_right_comm]
    refine lock.bodyWith (fun read' there => ?_) fun e none => by cases none
    cases there
    exact ⟨_, rfl, ih⟩

/-- Whole decodings, from wherever the cursor stands and into whatever target, partial targets
included. -/
theorem decodeFrom (less : follow.options.maxDepth ≤ lead.options.maxDepth)
    (limited : follow.options.maxDepth < lead.options.maxDepth → excused (.codec follow.tooDeep))
    (projection : Option (List String)) :
    Follows excused (Record.decodeFrom lead whole projection)
      (Record.decodeFrom follow part projection) := by
  have inside := lock.body (lead.options.maxDepth - follow.options.maxDepth)
    (fun none => by rw [Context.tooDeep, Context.tooDeep, Nat.le_antisymm less (by omega)])
    (fun some => limited (by omega)) follow.options.maxDepth
  rw [Nat.add_sub_cancel' less] at inside
  exact .same_bind fun _ => lock.record inside projection

end Lockstep
end DocumentCodec
