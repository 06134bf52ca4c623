import DocumentCodec.Proofs.LeftOut.Walk
/-!
# Tables that are read alike

Records, maps, lists and sets are read alike in two inputs of the same length that agree on them, if
the bodies inside them are; a record into any target, and with a projection already where the inputs
agree on its header and on the bodies of the fields that are asked for.  The fields that are not
asked for are stepped over: their slots are handed out and their bodies are not looked into.

The induction over a header is on the members that were written.  Each step rests on the cursor
being where the next label begins, which holds in either input, for a slot is left behind it
whatever is found in its body.
-/

namespace DocumentCodec

namespace Decoding

variable {input : List UInt8}

/-- Jumping looks at nothing but the length of the input. -/
theorem seek_eq {other : List UInt8} (same : other.length = input.length) :
    Cursor.seek other = Cursor.seek input := by
  funext target
  rw [Cursor.seek, Cursor.seek, same]

theorem finish_eq {other : List UInt8} (same : other.length = input.length) :
    finish other = finish input := by
  funext last
  rw [finish, finish, seek_eq same]

end Decoding

/-! ## One level

Each of these reads through its bytes and calls the reader of one level deeper on stretches that lie
within them. -/

/-- What is known of the bodies one level deeper: they are laid out, they go back, and they are read
alike where the inputs agree on them. -/
structure Repeating (context : Context) (input other : List UInt8) (write : BodyWriter)
    (read : List UInt8 → BodyReader) (remember : BodyRecall) : Prop where
  lays : Lays context input write
  restores : Restores context False input write (read input) remember
  repeats : ∀ {field : String} {tag : TypeTag} {linked : Option TypeTag} {value : Value} {start : Nat}
    {earlier calls : List LinkTarget} {bytes : List UInt8},
    write field tag linked value start earlier = ⟨bytes, calls, .ok ()⟩ →
    (∀ w ∈ value.written context tag linked, Readable w) →
    Repeats input other (fun i => read i tag) start bytes

namespace Repeating

variable {context : Context} {input other : List UInt8} {write : BodyWriter}
  {read : List UInt8 → BodyReader} {remember : BodyRecall}
  (level : Repeating context input other write read remember) (same : other.length = input.length)
include level same

/-- A body is read alike from wherever the cursor is. -/
theorem readAt {field : String} {tag : TypeTag} {linked : Option TypeTag} {value : Value}
    {place : Nat} {earlier calls : List LinkTarget} {bytes : List UInt8}
    (run : write field tag linked value place earlier = ⟨bytes, calls, .ok ()⟩)
    (readable : ∀ w ∈ value.written context tag linked, Readable w)
    (there : Holds input place bytes) (agree : AgreeOn input other place (place + bytes.length))
    (resume : Nat) {visited : Nat} (room : visited + bytes.length ≤ input.length) :
    Decoding.readAt other (read other) tag place ⟨resume, visited⟩
      = Decoding.readAt input (read input) tag place ⟨resume, visited⟩ := by
  have reached := there.bound
  rw [Decoding.readAt, Decoding.readAt, Decoding.seek_eq same,
    run_bind_of_ok (Cursor.run_offset _), run_bind_of_ok (Cursor.run_offset _),
    run_bind_of_ok (Cursor.run_seek input (by omega)),
    run_bind_of_ok (Cursor.run_seek input (by omega))]
  exact run_bind_congr (level.repeats run readable there agree visited room) fun _ _ _ => rfl

/-- The slot that a walk comes to is read alike if its body is needed, and the cursor ends behind
it. -/
theorem slot {needed : Seat → Prop} {slotsEnd last spare : Nat} {seat : Seat} {seats : List Seat}
    {here place visited : Nat}
    (walk : Walk write input other needed slotsEnd last spare (seat :: seats) here place visited)
    (needs : needed seat) (pinned : Option TypeTag) (pins : pinned.isSome = seat.member.pinned)
    (typed : ∀ chosen, seat.member.tag = .ok chosen → pinned = none ∨ pinned = some chosen)
    (readable : ∀ w ∈ inSlot seat.member.value seat.member.tag []
      (fun tag => seat.member.value.written context tag seat.member.linked), Readable w) :
    Decoding.readSlot other (read other) pinned
        ⟨here + seat.member.label.length, visited + seat.member.label.length⟩
      = Decoding.readSlot input (read input) pinned
        ⟨here + seat.member.label.length, visited + seat.member.label.length⟩ ∧
      ∀ placed there, Decoding.readSlot input (read input) pinned
          ⟨here + seat.member.label.length, visited + seat.member.label.length⟩ = .ok placed there →
        there = ⟨here + seat.member.label.length + Slot.size seat.member.pinned,
          visited + seat.member.label.length + Slot.size seat.member.pinned + seat.extent⟩ := by
  have written := walk.written seat List.mem_cons_self
  have inside := written.inside
  have agree := walk.agree seat List.mem_cons_self needs
  obtain ⟨slot, headed, room⟩ := walk.slot
  rw [← slot]
  -- from here on only the place and the budget of the slot matter, not the walk that led there
  generalize visited + seat.member.label.length = spent at room ⊢
  clear walk slot
  cases written with
  | @written member slot place earlier calls filling bytes body positive filled there =>
    dsimp only at pins typed readable inside headed agree room ⊢
    rw [← pins] at filled inside headed room ⊢
    have filled' : Holds other slot _ := filled.of_agreeOn (by rwa [Slot.length_encode]) same
    have few : spent + Slot.size pinned.isSome ≤ input.length := by omega
    cases body with
    | null isNull =>
      have run : Decoding.readSlot input (read input) pinned ⟨slot, spent⟩ = _ :=
        Decoding.run_slot_null filled few
      rw [run, Decoding.run_slot_null filled' (by omega)]
      refine ⟨rfl, fun placed there run => ?_⟩
      cases run
      rfl
    | @body chosen bytes calls notNull choice written reached =>
      have fits : place < 2 ^ 31 := by
        rw [Slot.maxPointer] at reached
        omega
      rw [inSlot_of_ok notNull choice] at readable
      have typed := typed chosen choice
      have extent : Seat.extent ⟨member, slot, some ⟨chosen, place, place + bytes.length⟩⟩
          = bytes.length := Nat.add_sub_cancel_left _ _
      rw [Option.map_some, extent] at room ⊢
      rw [Decoding.run_slot_body typed positive fits filled few,
        Decoding.run_slot_body typed positive fits filled' (by omega)]
      have again := level.readAt same written readable there (agree _ rfl)
        (slot + Slot.size pinned.isSome) room
      -- the body is read alike, and what it cost is its length, so the two budgets stay the same
      refine ⟨run_bind_congr again fun _ _ _ => rfl, fun placed after run => ?_⟩
      obtain ⟨_, _, run, last⟩ := run_bind_eq_ok.mp run
      have back : ReadsBack False context.RefusesWith input (read input chosen) place bytes _ :=
        level.restores.back written readable False.elim
      have ends : Ends False _ _ _ (Decoding.readAt input (read input) chosen place _) :=
        Ends.readAt back there inside room
      rw [run] at ends
      cases last
      exact ends.1

/-! ### Lists and sets -/

/-- An element is read alike behind its tag. -/
theorem item {field : String} {linked : Option TypeTag} {item : Value} {start : Nat}
    {earlier calls : List LinkTarget} {bytes : List UInt8}
    (readable : ∀ w ∈ writtenItem context linked item, Readable w)
    (run : Encoding.writeItem write field (linked.filter (·.isConcrete)) item start earlier
      = ⟨bytes, calls, .ok ()⟩) :
    Repeats input other (fun i => Decoding.readItem i (read i) .any) start bytes := by
  rw [writtenItem] at readable
  cases WrittenItem.of_eq_ok run with
  | null isNull =>
    have both : Repeats input other (fun i => Decoding.readItem i (read i) .any) start
        ([TypeTag.any.id] ++ []) :=
      .known_bind same (fun _ _ => .tag .any) fun _ _ _ _ => rfl
    exact both
  | body notNull typed written =>
    have choice := itemTag_eq_ok typed
    rw [inSlot_of_ok notNull choice] at readable
    refine .known_bind same (fun _ _ => .tag _) ?_
    simp only [if_neg (Recalls.itemTag_ne_any choice)]
    exact level.repeats written readable

/-- Elements are repeated by any input that agrees on their bytes. -/
theorem items (small : input.length < 2 ^ 31) {field : String} {linked : Option TypeTag}
    {items : List Value} {start : Nat} {earlier calls : List LinkTarget} {bytes : List UInt8}
    (readable : ∀ w ∈ writtenItems context linked items, Readable w)
    (run : Encoding.writeItems write field linked items start earlier = ⟨bytes, calls, .ok ()⟩) :
    Repeats input other (fun i => Decoding.readItems i (read i)) start bytes := by
  obtain ⟨elements, each, rfl⟩ := Encoding.writeItems_eq_ok run
  rw [writtenItems_eq] at readable
  generalize items.filter (!·.isTransient) = kept at each readable ⊢
  have readable (element : Value) (there : element ∈ kept) :
      ∀ w ∈ writtenItem context linked element, Readable w :=
    fun w inside => readable w (List.mem_flatMap.mpr ⟨element, there, inside⟩)
  have back (element : Value) (there : element ∈ kept) {start : Nat} {earlier calls : List LinkTarget}
      {bytes : List UInt8} (run : Encoding.writeItem write field (linked.filter (·.isConcrete)) element
        start earlier = ⟨bytes, calls, .ok ()⟩) :=
    Recalls.item level.restores (readable element there) run
  -- each element has a byte at least, so their number is one that a reader accepts
  have fewer := (Recalls.times kept (fun element there _ _ _ _ => back element there) each).1
  refine .of_holds fun holds => ?_
  have inside := holds.right.right.bound
  refine .known_bind same (fun _ _ => .length (by omega)) (.offset_bind ?_)
  refine .known_bind same (fun _ _ => .tag .any) ?_
  -- a repeated element ends where it did, so the next one is met where it was
  exact .times kept (fun element there _ _ _ _ run =>
    ⟨level.item same (readable element there) run,
      ((back element there run).2 False.elim).mono fun _ _ => trivial⟩) each

/-! ### Maps -/

/-- The members of a map are read alike.  The induction is on the members. -/
theorem members (small : input.length < 2 ^ 31) {field : String} {slotsEnd last spare : Nat} :
    ∀ (kept : List (String × Value)) (seats : List Seat) {here place visited : Nat},
    seats.map (·.member) = kept.map (Member.ofPair field) →
    (∀ pair ∈ kept, ∀ w ∈ writtenMember context pair, Readable w) →
    Walk write input other (fun _ => True) slotsEnd last spare seats here place visited →
    Decoding.times (Decoding.readMember other (read other)) kept.length ⟨here, visited⟩
      = Decoding.times (Decoding.readMember input (read input)) kept.length ⟨here, visited⟩ := by
  intro kept
  induction kept with
  | nil =>
    intro _ _ _ _ _ _ _
    rw [List.length_nil, Decoding.times, Decoding.times]
  | cons pair rest ih =>
    intro seats here place visited members readable walk
    -- every member is needed, as a map is read as a whole
    obtain ⟨seat, seats, rfl, member, members⟩ := List.map_eq_cons_iff.mp members
    obtain ⟨label, agree, room⟩ := walk.label
    have key (i : List UInt8) (long : i.length = input.length) :
        ReadsBack True Failure.Unsaid i (Decoding.readMapKey i) here seat.member.label
          (· = pair.1) := by
      rw [member]
      exact .mapKey (by omega) pair.1
    obtain ⟨run, run'⟩ := Repeats.runs same key label agree visited room
    obtain ⟨placed, behind⟩ := level.slot same walk trivial none (by rw [member]; rfl)
      (fun _ _ => Or.inl rfl) (by rw [member]; exact readable pair List.mem_cons_self)
    have one : Decoding.readMember other (read other) ⟨here, visited⟩
        = Decoding.readMember input (read input) ⟨here, visited⟩ := by
      rw [Decoding.readMember, Decoding.readMember, run_bind_of_ok run, run_bind_of_ok run']
      exact run_bind_congr placed fun _ _ _ => rfl
    refine run_bind_congr one fun made there ran => ?_
    rw [Decoding.readMember, run_bind_of_ok run] at ran
    obtain ⟨_, _, later, last⟩ := run_bind_eq_ok.mp ran
    obtain rfl := behind _ _ later
    cases last
    exact run_bind_congr (ih seats members
      (fun other there => readable other (List.mem_cons_of_mem _ there))
      (walk.rest (Nat.le_refl _))) fun _ _ _ => rfl

/-- **A map is repeated by any input that agrees on its slots and its bodies.**  Its bodies lie
elsewhere than its slots do, so this goes over the regions and not over the bytes in order. -/
theorem map (small : input.length < 2 ^ 31) {field : String} {pairs : List (String × Value)}
    {start : Nat} {earlier calls : List LinkTarget} {bytes : List UInt8}
    (readable : ∀ w ∈ writtenMembers context pairs, Readable w)
    (run : Encoding.writeMap write field pairs start earlier = ⟨bytes, calls, .ok ()⟩) :
    Repeats input other (fun i => Decoding.readMap i (read i)) start bytes := by
  rw [Encoding.writeMap_eq] at run
  rw [writtenMembers_eq] at readable
  intro holds agree visited room
  have inside := holds.bound
  obtain ⟨region, inner, written, rfl, head, members, tail, last, -, laid⟩ :=
    level.lays.region (Varint.length_encode_pos _) run holds
  have laid := laid region List.mem_cons_self
  rw [← last] at agree
  have walk := region.walk_whole (fun _ => True) visited written laid agree
    (by omega)
  -- each member takes bytes, so their number is one that a reader accepts
  have fewer : (pairs.filter (!·.2.isTransient)).length ≤ bytes.length := by
    obtain ⟨fillings, bodies, -, rfl⟩ := writeTable_eq_ok run
    have entries := Entry.length_le_encodeAll
      ((Encoding.mapMembers field pairs).map (Member.entry write)) fillings
    rw [List.length_map, Encoding.mapMembers, List.length_map] at entries
    simp only [List.length_append, Encoding.mapMembers]
    omega
  have header := laid.seats.le
  have rest := laid.bodies.le
  have ends : region.headerEnd = region.slotsEnd + region.tail.length := rfl
  have counted (i : List UInt8) (long : i.length = input.length) : ReadsBack True Failure.Unsaid i
      (Cursor.length i) region.start region.head (· = (pairs.filter (!·.2.isTransient)).length) := by
    rw [head]
    exact .length (by omega)
  obtain ⟨run, run'⟩ := Repeats.runs same counted laid.head (agree.mono (Nat.le_refl _) (by omega))
    visited (by omega)
  refine (run_bind_of_ok run').trans (Eq.trans ?_ (run_bind_of_ok run).symm)
  refine run_bind_congr (level.members same small _ region.seats members
    (fun pair there w inside => readable w (List.mem_flatMap.mpr ⟨pair, there, inside⟩)) walk) ?_
  intro _ _ _
  rw [Decoding.finish_eq same]

/-! ### Records -/

/-- An entry of a header is read alike, if what is behind its slot is, whether the body that the
slot leads to was read or not. -/
theorem entry (small : input.length < 2 ^ 31)
    (coherent : ∀ schema, context.schema = some schema → schema.IsCoherent)
    {className : Option String} {projection : Option (List String)}
    {slotsEnd last spare entries : Nat} {field : Field} {seat : Seat} {seats : List Seat}
    {here place visited : Nat}
    (walk : Walk write input other (fun seat => Decoding.isWanted projection seat.member.field = true)
      slotsEnd last spare (seat :: seats) here place visited)
    (member : seat.member = Member.ofField context className field) (named : field.name ≠ "")
    (readable : ∀ w ∈ writtenField context className field, Readable w)
    (later : ∀ (far bound spent : Nat) (target : Record), spent ≤ seat.extent →
      Decoding.readFields context other (read other) projection entries far bound
          ⟨⟨here + seat.member.label.length + Slot.size seat.member.pinned,
            visited + seat.member.label.length + Slot.size seat.member.pinned + spent⟩, target⟩
        = Decoding.readFields context input (read input) projection entries far bound
          ⟨⟨here + seat.member.label.length + Slot.size seat.member.pinned,
            visited + seat.member.label.length + Slot.size seat.member.pinned + spent⟩, target⟩)
    (far bound : Nat) (target : Record) :
    Decoding.readFields context other (read other) projection (entries + 1) far bound
        ⟨⟨here, visited⟩, target⟩
      = Decoding.readFields context input (read input) projection (entries + 1) far bound
        ⟨⟨here, visited⟩, target⟩ := by
  obtain ⟨label, agree, room⟩ := walk.label
  have pins : (pinnedTag context className field.name).isSome = seat.member.pinned := by
    rw [member, ← Encoding.pinned_fieldEntry context write, Encoding.fieldEntry_eq, Member.entry]
  have heading (i : List UInt8) (long : i.length = input.length) :
      ReadsBack True Failure.Unsaid i (Decoding.readHeading context i) here seat.member.label
        (· = some ⟨field.name, pinnedTag context className field.name⟩) := by
    rw [member]
    exact .heading (by omega) coherent named
  obtain ⟨run, run'⟩ := Repeats.runs same heading label agree visited room
  refine Binder.lift_bind_of_ok run run' ?_
  refine run_bind_congr rfl fun state state' here' => ?_
  cases here'
  dsimp only
  rw [pins]
  split
  · -- the slot is stepped over, and its body plays no part
    have inside := (walk.written seat List.mem_cons_self).inside
    obtain ⟨slot, -, room⟩ := walk.slot
    have skipped (i : List UInt8) (long : i.length = input.length) :
        Cursor.skip i (Slot.size seat.member.pinned)
          ⟨here + seat.member.label.length, visited + seat.member.label.length⟩ = _ :=
      Cursor.run_skip i (by dsimp only; omega) (by dsimp only; omega)
    refine Binder.lift_bind_of_ok (skipped input rfl) (skipped other same) ?_
    exact later far bound 0 target (Nat.zero_le _)
  · next kept =>
    rw [Bool.or_eq_true, not_or, Bool.not_eq_true', Bool.not_eq_false] at kept
    -- a field that is bound is one that was asked for, and the inputs agree on its body
    have needs : Decoding.isWanted projection seat.member.field = true := by
      rw [member, Member.field_ofField]
      exact kept.1
    obtain ⟨placed, behind⟩ := level.slot same walk needs _ pins
      (fun chosen choice => by
        rw [member, Member.tag_ofField] at choice
        exact Encoding.fieldTag_pinned field choice)
      (by
        rw [member, Member.value_ofField, Member.tag_ofField, Member.linked_ofField]
        exact readable)
    refine Binder.lift_bind_congr placed fun made there ran => ?_
    obtain rfl := behind _ _ ran
    refine run_bind_congr rfl fun _ _ bound' => ?_
    cases bound'
    cases projection with
    | none => exact later _ _ _ _ (Nat.le_refl _)
    | some wanted =>
      dsimp only
      split
      · rfl
      · exact later _ _ _ _ (Nat.le_refl _)

/-- The fields of a record are read alike into any target, where the inputs agree on the header and
on the bodies of the fields that are asked for.  The induction is on the fields that were
written. -/
theorem fields (small : input.length < 2 ^ 31)
    (coherent : ∀ schema, context.schema = some schema → schema.IsCoherent)
    {className : Option String} {projection : Option (List String)} {slotsEnd last : Nat}
    (ended : Holds input slotsEnd (Varint.encode Encoding.headerEnd))
    (agreed : AgreeOn input other slotsEnd (slotsEnd + (Varint.encode Encoding.headerEnd).length)) :
    ∀ (kept : List Field) (seats : List Seat) (entries far bound : Nat) (target : Record)
      {here place visited : Nat},
    seats.map (·.member) = kept.map (Member.ofField context className) →
    (∀ field ∈ kept, field.name ≠ "") →
    (∀ field ∈ kept, ∀ w ∈ writtenField context className field, Readable w) →
    Walk write input other (fun seat => Decoding.isWanted projection seat.member.field = true)
      slotsEnd last (Varint.encode Encoding.headerEnd).length seats here place visited →
    Decoding.readFields context other (read other) projection entries far bound
        ⟨⟨here, visited⟩, target⟩
      = Decoding.readFields context input (read input) projection entries far bound
        ⟨⟨here, visited⟩, target⟩ := by
  intro kept
  induction kept with
  | nil =>
    -- behind the last slot stands the end of the header, alike in both inputs
    intro seats entries far bound target here place visited members _ _ walk
    obtain rfl := List.map_eq_nil_iff.mp members
    cases entries with
    | zero => rw [Decoding.readFields, Decoding.readFields, same]
    | succ entries =>
      obtain rfl : here = slotsEnd := walk.seated
      have room := walk.room
      have heading (i : List UInt8) (_ : i.length = input.length) :
          ReadsBack True Failure.Unsaid i (Decoding.readHeading context i) here _ (· = none) :=
        ReadsBack.headerEnd
      obtain ⟨run, run'⟩ := Repeats.runs same heading ended agreed visited (by omega)
      exact Binder.lift_bind_of_ok run run' rfl
  | cons field rest ih =>
    intro seats entries far bound target here place visited members named readable walk
    -- each slot is walked with the field it was written for
    obtain ⟨seat, seats, rfl, member, members⟩ := List.map_eq_cons_iff.mp members
    cases entries with
    | zero => rw [Decoding.readFields, Decoding.readFields, same]
    | succ entries =>
      refine level.entry same small coherent walk member (named field List.mem_cons_self)
        (readable field List.mem_cons_self) (fun far bound spent target few => ?_) far bound target
      exact ih seats entries far bound target members
        (fun other there => named other (List.mem_cons_of_mem _ there))
        (fun other there => readable other (List.mem_cons_of_mem _ there)) (walk.rest few)

/-- A record is read alike into any target, where the inputs agree on its header and on the bodies
of the fields that are asked for. -/
theorem record (small : input.length < 2 ^ 31)
    (coherent : ∀ schema, context.schema = some schema → schema.IsCoherent)
    {projection : Option (List String)} {record : Record} {region : Region} {visited : Nat}
    (readable : ∀ w ∈ record.written context, Readable w)
    (named : ∀ field ∈ record.fields, field.name ≠ "")
    (head : region.head = Encoding.recordHead record)
    (members : region.seats.map (·.member) = Encoding.recordMembers context record)
    (tail : region.tail = Varint.encode Encoding.headerEnd) (laid : region.IsLaidOut input)
    (walk : Walk write input other (fun seat => Decoding.isWanted projection seat.member.field = true)
      region.slotsEnd region.last region.tail.length region.seats
      (region.start + region.head.length) region.headerEnd (visited + region.head.length))
    (headed : AgreeOn input other region.start region.headerEnd) (target : Record) :
    Decoding.readRecord context other (read other) projection ⟨⟨region.start, visited⟩, target⟩
      = Decoding.readRecord context input (read input) projection
        ⟨⟨region.start, visited⟩, target⟩ := by
  rw [record.written_eq, writtenFields_eq] at readable
  have seated := laid.seats.le
  have ends : region.headerEnd = region.slotsEnd + region.tail.length := rfl
  have room := walk.room
  have className (i : List UInt8) (long : i.length = input.length) : ReadsBack True Failure.Unsaid i
      (Cursor.string i) region.start region.head (· = record.className.getD "") := by
    rw [head]
    exact .string (by omega) _
  have agree : AgreeOn input other region.start (region.start + region.head.length) :=
    headed.mono (Nat.le_refl _) (by omega)
  obtain ⟨run, run'⟩ := Repeats.runs same className laid.head agree visited (by omega)
  -- the class name is read alike and bound to the same target
  refine Binder.lift_bind_of_ok run run' ?_
  rw [run_bind_of_ok (Binder.run_bindClass _ _ _), run_bind_of_ok (Binder.run_bindClass _ _ _)]
  have ended := laid.tail
  rw [tail] at ended walk
  refine run_bind_congr ?_ fun last _ _ => by rw [Decoding.finish_eq same]
  rw [same]
  exact level.fields same small coherent ended (headed.mono (by omega) (by rw [ends, tail])) _
    region.seats _ _ _ _ members
    (fun field there => named field (List.mem_filter.mp there).1)
    (fun field there w inside => readable w (List.mem_flatMap.mpr ⟨field, there, inside⟩)) walk

/-- An embedded record is read alike, and so is what it is taken for. -/
theorem embedded (small : input.length < 2 ^ 31)
    (coherent : ∀ schema, context.schema = some schema → schema.IsCoherent) {record : Record}
    {start : Nat} {earlier calls : List LinkTarget} {bytes : List UInt8}
    (readable : ∀ w ∈ record.written context, Readable w)
    (named : ∀ field ∈ record.fields, field.name ≠ "")
    (run : Encoding.writeRecord context write record start earlier = ⟨bytes, calls, .ok ()⟩) :
    Repeats input other (fun i => Decoding.readEmbedded context i (read i)) start bytes := by
  rw [Encoding.writeRecord_eq] at run
  intro holds agree visited room
  obtain ⟨region, inner, written, rfl, head, members, tail, last, -, laid⟩ :=
    level.lays.region (Encoding.length_pos_prefixed _) run holds
  have laid := laid region List.mem_cons_self
  rw [← last] at agree
  -- without a projection every body is asked for, and the inputs agree on all of them
  have walk := region.walk_whole (fun seat => Decoding.isWanted none seat.member.field = true) visited
    written laid agree (by omega)
  have same := level.record same small coherent readable named head members tail laid walk
    (agree.mono (Nat.le_refl _) laid.bodies.le) Record.new
  refine run_bind_congr ?_ fun _ _ _ => rfl
  rw [Binder.onNew, Binder.onNew, same]

end Repeating
end DocumentCodec
