import DocumentCodec.Proofs.InPlace
import DocumentCodec.Proofs.Layout
/-!
# What a failed encoding leaves behind

An encoding that fails does not take back what it wrote.  What it leaves is a table that can be told
apart into what is finished and what is not: the header is whole, the members before the one that
failed have their bodies and say where these are, and the slots of that one and of all behind it are
still empty.  Behind the bodies that were finished stands what the failing one emitted.

The failure may come from any depth, or from the very end, when a body was written whole and turns
out to stand where no slot can point; that makes no difference to the table outside.
-/

namespace DocumentCodec

/-! ## Bodies up to a failure

The bodies before the failing one are all there, and the place where it failed is behind them. -/

/-- Where writing bodies failed, there is a member whose body failed, and those before it were
written. -/
theorem Bodies.write_eq_error {write : BodyWriter} {e : CodecError} :
    ∀ {members : List Member} {start : Nat} {earlier calls : List LinkTarget}
      {fillings : List (Option Filling)} {bytes : List UInt8},
    Bodies.write ((members.map (Member.entry write)).map (·.body)) start earlier
      = ⟨fillings, bytes, calls, .error e⟩ →
    ∃ before refused after body bytes₁ bytes₂ calls₁ calls₂,
      members = before ++ refused :: after ∧ fillings.length = before.length ∧
      Bodies.write ((before.map (Member.entry write)).map (·.body)) start earlier
        = ⟨fillings, bytes₁, calls₁, .ok ()⟩ ∧
      (refused.entry write).body = some body ∧
      body (start + bytes₁.length) (earlier ++ calls₁) = ⟨bytes₂, calls₂, .error e⟩ ∧
      bytes = bytes₁ ++ bytes₂ ∧ calls = calls₁ ++ calls₂ := by
  intro members
  induction members with
  | nil =>
    intro start earlier calls fillings bytes run
    cases run
  | cons member rest ih =>
    intro start earlier calls fillings bytes run
    rw [List.map_cons, List.map_cons] at run
    cases there : (member.entry write).body with
    | none =>
      -- a null member has no body, so the failure is further on
      rw [there, Bodies.write] at run
      rcases later : Bodies.write _ start earlier with ⟨fillings₂, bytes₂, calls₂, result⟩
      rw [later] at run
      cases run
      obtain ⟨before, refused, after, body, bytes₁, bytes₂, calls₁, calls₂, rfl, same, written, some,
        failed, rfl, rfl⟩ := ih later
      refine ⟨member :: before, refused, after, body, bytes₁, bytes₂, calls₁, calls₂, rfl,
        congrArg Nat.succ same, ?_, some, failed, rfl, rfl⟩
      rw [List.map_cons, List.map_cons, there, Bodies.write, written]
    | some body =>
      rw [there, Bodies.write] at run
      rcases here : body start earlier with ⟨bytes₁, calls₁, result⟩
      rw [here] at run
      cases result with
      | error e' =>
        cases run
        refine ⟨[], member, rest, body, [], bytes₁, [], calls₁, rfl, rfl, rfl, there, ?_, rfl, rfl⟩
        rw [List.length_nil, Nat.add_zero, List.append_nil]
        exact here
      | ok tag =>
        dsimp only at run
        rcases later : Bodies.write _ (start + bytes₁.length) (earlier ++ calls₁)
          with ⟨fillings₂, bytes₂, calls₂, result⟩
        rw [later] at run
        cases run
        obtain ⟨before, refused, after, last, done, left, made, asked, rfl, same, written, some,
          failed, rfl, rfl⟩ := ih later
        refine ⟨member :: before, refused, after, last, bytes₁ ++ done, left, calls₁ ++ made, asked,
          rfl, congrArg Nat.succ same, ?_, some, ?_, (List.append_assoc _ _ _).symm,
          (List.append_assoc _ _ _).symm⟩
        · rw [List.map_cons, List.map_cons, there, Bodies.write, here]
          dsimp only
          rw [written]
        · rw [List.length_append, ← Nat.add_assoc, ← List.append_assoc]
          exact failed

/-- A table that could not be written is its header, filled in as far as it was, and the bodies up
to the failure. -/
theorem writeTable_eq_error {head tail : List UInt8} {entries : List Entry} {start : Nat}
    {earlier calls : List LinkTarget} {bytes : List UInt8} {e : CodecError}
    (run : writeTable head entries tail start earlier = ⟨bytes, calls, .error e⟩) :
    ∃ fillings bodies,
      Bodies.write (entries.map (·.body))
        (start + (head.length + (Entry.encodeAll entries fillings).length + tail.length)) earlier
        = ⟨fillings, bodies, calls, .error e⟩ ∧
      bytes = head ++ Entry.encodeAll entries fillings ++ tail ++ bodies := by
  rw [writeTable] at run
  rcases all : Bodies.write _ _ earlier with ⟨fillings, bodies, calls', result⟩
  rw [all] at run
  cases run
  exact ⟨fillings, bodies, by rw [Entry.length_encodeAll]; exact all, rfl⟩

/-- The entries of members with no filling left are empty. -/
theorem Entry.encodeAll_append {front : List Entry} (back : List Entry)
    {fillings : List (Option Filling)} (same : fillings.length = front.length) :
    Entry.encodeAll (front ++ back) fillings
      = Entry.encodeAll front fillings ++ Entry.encodeAll back [] := by
  induction front generalizing fillings with
  | nil =>
    cases List.eq_nil_of_length_eq_zero same
    rfl
  | cons entry rest ih =>
    cases fillings with
    | nil => cases same
    | cons filling fillings =>
      rw [List.cons_append, encodeAll, encodeAll, List.tail_cons, ih (Nat.succ.inj same)]
      simp only [List.append_assoc]

/-! ## Seats with nothing in them -/

namespace Seated

variable {buffer : List UInt8} {here mid there : Nat} {seats more : List Seat}

/-- Slots that are seated behind one another are seated. -/
theorem append (front : Seated buffer here seats mid) (back : Seated buffer mid more there) :
    Seated buffer here (seats ++ more) there := by
  induction seats generalizing here with
  | nil =>
    have same : here = mid := front
    rw [same]
    exact back
  | cons seat rest ih => exact ⟨front.1, front.2.1, ih front.2.2⟩

end Seated

/-- The seat holds nothing: no body, and all zeros in the slot. -/
structure Seat.IsEmpty (buffer : List UInt8) (seat : Seat) : Prop where
  bodiless : seat.body = none
  zeros : Holds buffer seat.slot (List.replicate (Slot.size seat.member.pinned) 0)

/-- Members whose slots were never filled in are seated all the same. -/
theorem Seated.empty {buffer : List UInt8} (write : BodyWriter) :
    ∀ (members : List Member) {here : Nat},
    Holds buffer here (Entry.encodeAll (members.map (Member.entry write)) []) →
    ∃ seats, seats.map (·.member) = members ∧
      Seated buffer here seats
        (here + (Entry.encodeAll (members.map (Member.entry write)) []).length) ∧
      ∀ seat ∈ seats, seat.IsEmpty buffer := by
  intro members
  induction members with
  | nil =>
    intro here _
    exact ⟨[], rfl, rfl, fun seat none => by cases none⟩
  | cons member rest ih =>
    intro here holds
    rw [Member.encodeAll_cons, List.head?_nil, Option.join_none, List.tail_nil] at holds ⊢
    have others := holds.right
    rw [List.length_append, Slot.length_encode, ← Nat.add_assoc] at others
    obtain ⟨seats, same, seated, empty⟩ := ih others
    refine ⟨⟨member, here + member.label.length, none⟩ :: seats, by rw [List.map_cons, same],
      ⟨holds.left.left, rfl, ?_⟩, fun seat among => ?_⟩
    · rw [List.length_append, List.length_append, Slot.length_encode, ← Nat.add_assoc,
        ← Nat.add_assoc]
      exact seated
    · rcases List.mem_cons.mp among with rfl | deeper
      · exact ⟨rfl, holds.left.right⟩
      · exact empty seat deeper

/-! ## Tables that were not finished

A table stands as a finished one does, up to the slot whose body failed: from there on the slots are
empty and behind the last body stands what was emitted of the failing one. -/

/-- A table whose writing failed at one of its members.  The header stands in the buffer from its
start to its tail; the members before the failed one have their bodies behind the header, one behind
the other and whole, and their slots say where; the slots of the failed one and of all behind it are
empty.  The body that failed began where the finished ones end, and what it emitted is the rest of
the buffer. -/
structure Unfinished (context : Context) (write : BodyWriter) (buffer : List UInt8)
    (e : CodecError) (head : List UInt8) (members : List Member) (tail : List UInt8) (start : Nat)
    (before : List Seat) (refused : Seat) (after : List Seat) (slotsEnd place : Nat) : Prop where
  members : (before ++ refused :: after).map (·.member) = members
  headed : Holds buffer start head
  seated : Seated buffer (start + head.length) (before ++ refused :: after) slotsEnd
  ended : Holds buffer slotsEnd tail
  filled : ∀ seat ∈ before, seat.IsFilled buffer
  bodies : Consecutive (slotsEnd + tail.length) (before.filterMap (·.body)) place
  laid : ∃ regions, LaidSeats context buffer before regions ∧
    ∀ region ∈ regions, region.IsLaidOut buffer
  empty : ∀ seat ∈ refused :: after, seat.IsEmpty buffer
  notNull : refused.member.value.isNull = false
  failed : ∃ body asked calls, (refused.member.entry write).body = some body ∧
    body place asked = ⟨buffer.drop place, calls, .error e⟩

/-- Whatever table fails to be written at the end of a buffer is left unfinished like that. -/
theorem Lays.unfinished {context : Context} {write : BodyWriter} {front head tail bytes : List UInt8}
    {members : List Member} {earlier calls : List LinkTarget} {e : CodecError}
    (lays : Lays context (front ++ bytes) write) (someHead : 0 < head.length)
    (run : writeTable head (members.map (Member.entry write)) tail front.length earlier
      = ⟨bytes, calls, .error e⟩) :
    ∃ before refused after slotsEnd place, Unfinished context write (front ++ bytes) e head members
      tail front.length before refused after slotsEnd place := by
  have holds : Holds (front ++ bytes) front.length bytes :=
    ⟨front, [], (List.append_nil _).symm, rfl⟩
  generalize whole : front ++ bytes = buffer at lays holds ⊢
  obtain ⟨fillings, bodies, all, rfl⟩ := writeTable_eq_error run
  obtain ⟨done, refused, after, body, bytes₁, bytes₂, calls₁, calls₂, rfl, same, written, there,
    failed, rfl, rfl⟩ := Bodies.write_eq_error all
  rw [List.map_append, Entry.encodeAll_append _ (same.trans (List.length_map _).symm)]
    at holds written failed whole
  have header := holds.left.left.right
  have ended := holds.left.right
  have placed := holds.right.left
  simp only [List.length_append, ← Nat.add_assoc] at header ended placed written failed
  obtain ⟨seats, regions, rfl, seated, allWritten, consecutive, laid, inner⟩ :=
    lays.seats done written (by omega) header.left placed
  -- the slot of the body that failed and those behind it were reserved, and nothing more
  obtain ⟨others, same', seated', empty⟩ := Seated.empty write (refused :: after) header.right
  cases others with
  | nil => cases same'
  | cons seat others =>
    obtain ⟨rfl, rfl⟩ := List.cons.inj same'
    refine ⟨seats, seat, others, _, _, by rw [List.map_append, List.map_cons], holds.left.left.left,
      seated.append seated', ended, fun seat there => (allWritten seat there).isFilled, consecutive,
      ⟨regions, laid, inner⟩, empty,
      Member.notNull_of_body there, body, earlier ++ calls₁, calls₂, there, failed.trans ?_⟩
    -- what is left of the buffer is what the failing body emitted
    refine congrArg (Emission.mk · calls₂ (.error e)) (Eq.symm ?_)
    rw [← whole, ← List.append_assoc _ bytes₁, ← List.append_assoc front]
    refine List.drop_left' ?_
    simp only [List.length_append]
    omega

namespace Record

/-- **A failed encoding leaves a well-formed beginning.**  However the encoding of a record into an
arena ends, the arena is as if everything had been written in place, what it held before is still
there, and it has not shrunk.  If it failed, then at one of the record's members: the header is
there, whole, the members before that one are laid out as in a finished record, and the slots of
that one and of all behind it are zero. -/
theorem encodeInto_leaves {context : Context} {record : Record} {arena final : Arena}
    {earlier calls : List LinkTarget} {result : Except CodecError Nat}
    (run : record.encodeInto context arena earlier = (result, final, calls)) :
    record.writeInPlace context ⟨arena, earlier⟩ = Writer.outcome result ⟨final, earlier ++ calls⟩ ∧
      arena.toList <+: final.toList ∧ arena.size ≤ final.size ∧
      ∀ e, result = .error e → ∃ before refused after slotsEnd place,
        Unfinished context (Encoding.writeBody context context.options.maxDepth) final.toList e
          (Encoding.recordHead record) (Encoding.recordMembers context record)
          (Varint.encode Encoding.headerEnd) arena.size before refused after slotsEnd place := by
  have inPlace := writeInPlace_eq context record arena earlier
  rw [run] at inPlace
  rw [encodeInto] at run
  rcases emitted : record.emission context arena.size earlier with ⟨bytes, calls', outcome⟩
  rw [emitted] at run
  cases run
  -- what is written is written behind what was there, whether it is all or not
  have whole : (arena.append bytes).2.toList = arena.toList ++ bytes := arena.toList_append bytes
  have grown : arena.size ≤ (arena.append bytes).2.size := by
    rw [← Arena.length_toList, ← Arena.length_toList, whole, List.length_append]
    omega
  refine ⟨inPlace, ⟨bytes, whole.symm⟩, grown, fun e failed => ?_⟩
  cases outcome with
  | ok _ => cases failed
  | error e' =>
    cases failed
    -- the record is a table that was not finished
    rw [emission, Encoding.writeRecord_eq, ← Arena.length_toList] at emitted
    rw [whole, ← Arena.length_toList]
    exact (lays_body context.options.maxDepth).unfinished (Encoding.length_pos_prefixed _) emitted

/-- Behind two bytes of something else the second of three fields cannot be written. -/
theorem encodeInto_leaves_second_of_three :
    let record : Record := ⟨none, RecordId.empty,
      [⟨"a", .integer 7, none⟩, ⟨"b", .custom "point" [1, 2], none⟩, ⟨"c", .byte 3, none⟩], false⟩
    let arena : Arena := ⟨#[9, 9]⟩
    let final : Arena := ⟨#[9, 9, 0, 1, 97, 0, 0, 0, 25, 1, 1, 98, 0, 0, 0, 0, 0, 1, 99, 0, 0, 0, 0, 0,
      0, 7]⟩
    let e : CodecError := .unsupportedValue "b" "Custom" (.unregisteredCustom "point")
    record.encodeInto {} arena [] = (.error e, final, []) ∧
      record.writeInPlace {} ⟨arena, []⟩ = .error (.codec e) ⟨final, []⟩ ∧
      ∃ before refused after slotsEnd place,
        Unfinished {} (Encoding.writeBody {} 32) final.toList e
          (Encoding.recordHead record) (Encoding.recordMembers {} record)
          (Varint.encode Encoding.headerEnd) 2 before refused after slotsEnd place := by
  intro record arena final e
  have run : record.encodeInto {} arena [] = (.error e, final, []) := by
    refine Prod.ext rfl (Prod.ext (by decide +kernel) ?_)
    exact List.eq_nil_of_length_eq_zero (by decide +kernel)
  obtain ⟨inPlace, -, -, left⟩ := encodeInto_leaves run
  exact ⟨run, inPlace, left e rfl⟩

end Record
end DocumentCodec
