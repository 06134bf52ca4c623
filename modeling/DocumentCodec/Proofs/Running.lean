import DocumentCodec.Decoding
/-!
# Running a decoder

How a sequence of readings runs: what the first one answers and where it leaves the cursor is what
the rest begins with.  The two primitives that every reading comes down to, taking bytes and
jumping, are given by the exact condition under which they go through.

Reading a record binds fields to a target on the way.  `Binder.into` turns such a computation into
a plain decoder that answers with the record it made, so that everything below is about decoders
only.
-/

namespace DocumentCodec

/-! ## Sequences -/

section Sequence

variable {ε σ α β : Type} {x : EStateM ε σ α} {f : α → EStateM ε σ β} {s s' s'' : σ}

theorem run_bind_of_ok {a : α} (h : x s = .ok a s') : (x >>= f) s = f a s' := by
  show EStateM.bind x f s = f a s'
  rw [EStateM.bind, h]

theorem run_bind_of_error {e : ε} (h : x s = .error e s') : (x >>= f) s = .error e s' := by
  show EStateM.bind x f s = .error e s'
  rw [EStateM.bind, h]

/-- A sequence succeeds by both parts succeeding one behind the other. -/
theorem run_bind_eq_ok {b : β} :
    (x >>= f) s = .ok b s'' ↔ ∃ a s', x s = .ok a s' ∧ f a s' = .ok b s'' := by
  cases h : x s with
  | ok a s' =>
    rw [run_bind_of_ok h]
    constructor
    · exact fun run => ⟨a, s', rfl, run⟩
    · rintro ⟨a', s1, same, run⟩
      cases same
      exact run
  | error e s' =>
    rw [run_bind_of_error h]
    constructor
    · intro run
      cases run
    · rintro ⟨a', s1, same, -⟩
      cases same

/-- A sequence fails in its first part, or in its second behind a first that succeeds. -/
theorem run_bind_eq_error {e : ε} :
    (x >>= f) s = .error e s'' ↔
      x s = .error e s'' ∨ ∃ a s', x s = .ok a s' ∧ f a s' = .error e s'' := by
  cases h : x s with
  | ok a s' =>
    rw [run_bind_of_ok h]
    constructor
    · exact fun run => Or.inr ⟨a, s', rfl, run⟩
    · rintro (same | ⟨a', s1, same, run⟩)
      · cases same
      · cases same
        exact run
  | error e' s' =>
    rw [run_bind_of_error h]
    constructor
    · intro run
      cases run
      exact Or.inl rfl
    · rintro (same | ⟨a', s1, same, -⟩)
      · cases same
        rfl
      · cases same

/-- Sequences run alike if their first parts do, and then their second parts behind them. -/
theorem run_bind_congr {x' : EStateM ε σ α} {f' : α → EStateM ε σ β} (first : x' s = x s)
    (second : ∀ a s', x s = .ok a s' → f' a s' = f a s') : (x' >>= f') s = (x >>= f) s := by
  cases run : x s with
  | ok a s' =>
    rw [run_bind_of_ok run, run_bind_of_ok (first.trans run)]
    exact second a s' run
  | error e s' => rw [run_bind_of_error run, run_bind_of_error (first.trans run)]

end Sequence

/-- What a run leaves behind, whether it goes through or not. -/
def leftBy {ε σ α : Type} : EStateM.Result ε σ α → σ
  | .ok _ last | .error _ last => last

/-! ## Taking bytes and jumping

The two primitives have exact conditions, so any reading that went through, or did not, can be taken
back to them. -/

namespace Cursor

variable (input : List UInt8)

theorem run_offset (here : Cursor) : offset here = .ok here.position here := rfl

/-- Bytes are handed out when the input has them and the budget still allows them. -/
theorem run_take {count : Nat} {here : Cursor} (left : here.position + count ≤ input.length)
    (allowed : here.visited + count ≤ input.length) :
    take input count here = .ok ((input.drop here.position).take count)
      ⟨here.position + count, here.visited + count⟩ := by
  show (if input.length < here.position + count then _ else
    if input.length < here.visited + count then _ else _ : Decoder (List UInt8)) here = _
  rw [if_neg (by omega), if_neg (by omega)]
  rfl

theorem run_skip {count : Nat} {here : Cursor} (left : here.position + count ≤ input.length)
    (allowed : here.visited + count ≤ input.length) :
    skip input count here = .ok () ⟨here.position + count, here.visited + count⟩ :=
  run_bind_of_ok (run_take input left allowed)

/-- Either bytes are handed out, or the request is refused: then the cursor stays where it is, and
the error names the place. -/
theorem take_cases (count : Nat) (here : Cursor) :
    (here.position + count ≤ input.length ∧ here.visited + count ≤ input.length ∧
      take input count here = .ok ((input.drop here.position).take count)
        ⟨here.position + count, here.visited + count⟩) ∨
    ∃ reason, take input count here
      = .error (.codec (.malformedInput here.position reason)) here := by
  have same : take input count here = (if input.length < here.position + count then _ else
    if input.length < here.visited + count then _ else _ : Decoder (List UInt8)) here := rfl
  rw [same]
  split
  · exact Or.inr ⟨_, rfl⟩
  · split
    · exact Or.inr ⟨_, rfl⟩
    · next left allowed =>
      exact Or.inl ⟨Nat.le_of_not_lt left, Nat.le_of_not_lt allowed, rfl⟩

/-- Bytes that were handed out were there, and the budget allowed them. -/
theorem of_take_ok {count : Nat} {here there : Cursor} {bytes : List UInt8}
    (run : take input count here = .ok bytes there) :
    here.position + count ≤ input.length ∧ here.visited + count ≤ input.length ∧
      bytes = (input.drop here.position).take count ∧
      there = ⟨here.position + count, here.visited + count⟩ := by
  rcases take_cases input count here with ⟨left, allowed, taken⟩ | ⟨reason, refused⟩
  · rw [taken] at run
    cases run
    exact ⟨left, allowed, rfl, rfl⟩
  · rw [refused] at run
    cases run

/-- As many bytes are taken as were asked for. -/
theorem length_of_take_ok {count : Nat} {here there : Cursor} {bytes : List UInt8}
    (run : take input count here = .ok bytes there) : bytes.length = count := by
  obtain ⟨left, -, rfl, -⟩ := of_take_ok input run
  rw [List.length_take, List.length_drop]
  omega

/-- A refused request leaves the cursor as it was, and names the place where it stands. -/
theorem of_take_error {count : Nat} {here there : Cursor} {e : Failure}
    (run : take input count here = .error e there) :
    there = here ∧ ∃ reason, e = .codec (.malformedInput here.position reason) := by
  rcases take_cases input count here with ⟨-, -, taken⟩ | ⟨reason, refused⟩
  · rw [taken] at run
    cases run
  · rw [refused] at run
    cases run
    exact ⟨rfl, reason, rfl⟩

/-- A jump may go as far as the end of the input. -/
theorem run_seek {target : Nat} {here : Cursor} (inside : target ≤ input.length) :
    seek input target here = .ok () ⟨target, here.visited⟩ := by
  show (if input.length < target then _ else _ : Decoder Unit) here = _
  rw [if_neg (by omega)]
  rfl

/-- A jump that goes through ends at its target, within the input, and costs nothing. -/
theorem of_seek_ok {target : Nat} {here there : Cursor}
    (run : seek input target here = .ok () there) :
    target ≤ input.length ∧ there = ⟨target, here.visited⟩ := by
  have same : seek input target here
    = (if input.length < target then _ else _ : Decoder Unit) here := rfl
  rw [same] at run
  split at run
  · cases run
  · next inside =>
    cases run
    exact ⟨Nat.le_of_not_lt inside, rfl⟩

/-- A jump that is refused leaves the cursor where it was, and says so of this place. -/
theorem of_seek_error {target : Nat} {here there : Cursor} {e : Failure}
    (run : seek input target here = .error e there) :
    there = here ∧ ∃ reason, e = .codec (.malformedInput here.position reason) := by
  have same : seek input target here
    = (if input.length < target then _ else _ : Decoder Unit) here := rfl
  rw [same] at run
  split at run
  · cases run
    exact ⟨rfl, _, rfl⟩
  · cases run

/-- A varint is decoded where the cursor stands, and then its bytes are handed out. -/
theorem varint_eq : varint input = offset >>= fun start =>
    match Varint.decode (input.drop start) with
    | .error cause => Decoder.malformed start (.varint cause)
    | .ok (v, count) => skip input count >>= fun _ => pure v := rfl

end Cursor

/-! ## Records as answers

A computation that binds into a target is a decoder that answers with the target, and a failing one
loses it.  So what is read is one plain function of the input, and the fields it added are read off
from its answer. -/

namespace Binder

variable {α β : Type}

/-- Runs a binder on a target and answers with the target as well. -/
def into (target : Record) (bind : Binder α) : Decoder (α × Record) := fun cursor =>
  match bind ⟨cursor, target⟩ with
  | .ok a state => .ok (a, state.target) state.cursor
  | .error e state => .error e state.cursor

/-- A sequence of binders hands the target on. -/
theorem into_bind (target : Record) (x : Binder α) (f : α → Binder β) :
    into target (x >>= f) = into target x >>= fun made => into made.2 (f made.1) := by
  funext cursor
  cases h : x ⟨cursor, target⟩ with
  | ok a state =>
    have first : into target x cursor = .ok (a, state.target) state.cursor := by rw [into, h]
    rw [run_bind_of_ok first, into, run_bind_of_ok h]
    rfl
  | error e state =>
    have first : into target x cursor = .error e state.cursor := by rw [into, h]
    rw [run_bind_of_error first, into, run_bind_of_error h]

/-- What only moves the cursor leaves the target as it is. -/
theorem into_lift (target : Record) (read : Decoder α) :
    into target (lift read) = read >>= fun a => pure (a, target) := by
  funext cursor
  cases h : read cursor with
  | ok a cursor' =>
    rw [run_bind_of_ok h, into, lift, h]
    rfl
  | error e cursor' =>
    rw [run_bind_of_error h, into, lift, h]

theorem into_lift_bind (target : Record) (read : Decoder α) (f : α → Binder β) :
    into target (lift read >>= f) = read >>= fun a => into target (f a) := by
  rw [into_bind, into_lift, bind_assoc]
  rfl

theorem into_get_bind (target : Record) (f : Binding → Binder β) (cursor : Cursor) :
    into target (get >>= f) cursor = into target (f ⟨cursor, target⟩) cursor := rfl

theorem into_bindField_bind (target : Record) (name : String) (value : Value)
    (pinned : Option TypeTag) (f : Unit → Binder β) :
    into target (bindField name value pinned >>= f)
      = into (target.bind name value pinned) (f ()) := rfl

/-- The target with the class name that was read for it. -/
def named (className : String) (target : Record) : Record :=
  if className.isEmpty then target else { target with className := some className }

theorem named_fields (className : String) (target : Record) :
    (named className target).fields = target.fields := by
  rw [named]
  split <;> rfl

/-- Where decoders give the same answer, what follows is what matters. -/
theorem lift_bind_of_ok {α β : Type} {read read' : Decoder α} {f f' : α → Binder β} {a : α}
    {cursor there : Cursor} {target : Record} (first : read cursor = .ok a there)
    (first' : read' cursor = .ok a there) (second : f' a ⟨there, target⟩ = f a ⟨there, target⟩) :
    (lift read' >>= f') ⟨cursor, target⟩ = (lift read >>= f) ⟨cursor, target⟩ := by
  rw [run_bind_of_ok (by rw [lift, first']), run_bind_of_ok (by rw [lift, first]), second]

/-- Where decoders run alike, so does what is read by them into a target, and what follows. -/
theorem lift_bind_congr {α β : Type} {read read' : Decoder α} {f f' : α → Binder β}
    {cursor : Cursor} {target : Record} (first : read' cursor = read cursor)
    (second : ∀ a there, read cursor = .ok a there → f' a ⟨there, target⟩ = f a ⟨there, target⟩) :
    (lift read' >>= f') ⟨cursor, target⟩ = (lift read >>= f) ⟨cursor, target⟩ := by
  refine run_bind_congr (by rw [lift, lift, first]) fun a state run => ?_
  rw [lift] at run
  cases here : read cursor with
  | ok b there =>
    rw [here] at run
    cases run
    exact second a there here
  | error e there =>
    rw [here] at run
    cases run

theorem run_bindClass (className : String) (cursor : Cursor) (target : Record) :
    bindClass className ⟨cursor, target⟩ = .ok () ⟨cursor, named className target⟩ := by
  rw [bindClass, named]
  split <;> rfl

/-- Binding a class name puts it into the target, unless it is empty. -/
theorem into_bindClass (target : Record) (className : String) :
    into target (bindClass className) = pure ((), named className target) := by
  rw [bindClass, named]
  split
  · rfl
  · rfl

/-- A run on a target goes through as its decoder does. -/
theorem run_ok_iff {target made : Record} {bind : Binder α} {cursor cursor' : Cursor} {a : α} :
    bind ⟨cursor, target⟩ = .ok a ⟨cursor', made⟩
      ↔ into target bind cursor = .ok (a, made) cursor' := by
  rw [into]
  cases bind ⟨cursor, target⟩ with
  | ok a' state =>
    constructor
    · intro same
      cases same
      rfl
    · intro same
      cases same
      rfl
  | error e state =>
    constructor
    · intro same
      cases same
    · intro same
      cases same

/-- A run on a target fails as its decoder does, whatever was bound before. -/
theorem run_error_iff {target : Record} {bind : Binder α} {cursor cursor' : Cursor}
    {e : Failure} : (∃ made, bind ⟨cursor, target⟩ = .error e ⟨cursor', made⟩)
      ↔ into target bind cursor = .error e cursor' := by
  rw [into]
  cases bind ⟨cursor, target⟩ with
  | ok a state =>
    constructor
    · rintro ⟨made, same⟩
      cases same
    · intro same
      cases same
  | error e' state =>
    constructor
    · rintro ⟨made, same⟩
      cases same
      rfl
    · intro same
      cases same
      exact ⟨state.target, rfl⟩

/-- A run on a new record, as a decoder. -/
theorem onNew_eq (bind : Binder Unit) :
    onNew bind = into Record.new bind >>= fun made => pure made.2 := by
  funext cursor
  cases h : bind ⟨cursor, Record.new⟩ with
  | ok a state =>
    rw [onNew, run_bind_of_ok (run_ok_iff.mp h), h]
    rfl
  | error e state =>
    rw [onNew, run_bind_of_error (run_error_iff.mp ⟨_, h⟩), h]

end Binder

namespace Decoding

variable (context : Context) (input : List UInt8)

/-- The record is the target with fields added behind its own. -/
def Grown (target made : Record) (added : List Field) : Prop :=
  made = { target with fields := target.fields ++ added }

theorem Grown.refl (target : Record) : Grown target target [] := by
  cases target
  rw [Grown, List.append_nil]

/-- A field that is bound stands before those that are bound later. -/
theorem Grown.bind {target made : Record} {name : String} {value : Value}
    {pinned : Option TypeTag} {added : List Field}
    (later : Grown (target.bind name value pinned) made added) :
    Grown target made (⟨name, value, pinned⟩ :: added) := by
  rw [Grown, Record.bind, Record.append] at later
  rw [Grown, later, List.append_assoc, List.singleton_append]

/-- Reading the entries of a header, as a decoder. -/
def readFieldsInto (inner : BodyReader) (projection : Option (List String))
    (room last bound : Nat) (target : Record) : Decoder (Nat × Record) :=
  (readFields context input inner projection room last bound).into target

/-- With no entries left to it the walk refuses to go on; it has one more than the input has bytes.
-/
theorem readFieldsInto_zero (inner : BodyReader) (projection : Option (List String))
    (last bound : Nat) (target : Record) :
    readFieldsInto context input inner projection 0 last bound target
      = Cursor.offset >>= fun start => Decoder.malformed start (.overlap input.length) := by
  funext cursor
  rfl

/-- One entry of a header. -/
theorem readFieldsInto_succ (inner : BodyReader) (projection : Option (List String))
    (room last bound : Nat) (target : Record) :
    readFieldsInto context input inner projection (room + 1) last bound target = (do
      match ← readHeading context input with
      | none => return (last, target)
      | some heading =>
        if !isWanted projection heading.name || target.contains heading.name then
          Cursor.skip input (Slot.size heading.pinned.isSome)
          readFieldsInto context input inner projection room last bound target
        else
          let placed ← readSlot input inner heading.pinned
          let bound' := target.bind heading.name (Placed.valueOf placed) (placed.map (·.tag))
          let last' := max last (Placed.endOf placed)
          match projection with
          | none => readFieldsInto context input inner projection room last' (bound + 1) bound'
          | some wanted =>
            if wanted.length ≤ bound + 1 then return (last', bound')
            else readFieldsInto context input inner projection room last' (bound + 1) bound') := by
  rw [readFieldsInto, readFields]
  show Binder.into target (Binder.lift (readHeading context input) >>= _) = _
  rw [Binder.into_lift_bind]
  congr 1
  funext heading
  cases heading with
  | none => rfl
  | some heading =>
    funext cursor
    -- the target is looked at before anything is read, so it is the one the entry began with
    refine (Binder.into_get_bind target _ cursor).trans (congrFun ?_ cursor)
    by_cases skipped : (!isWanted projection heading.name || target.contains heading.name) = true
    · simp only [skipped, if_true]
      exact Binder.into_lift_bind target _ _
    · simp only [skipped]
      refine (Binder.into_lift_bind target _ _).trans ?_
      congr 1
      funext placed
      refine (Binder.into_bindField_bind target _ _ _ _).trans ?_
      cases projection with
      | none => rfl
      | some wanted =>
        by_cases enough : wanted.length ≤ bound + 1
        · simp only [enough, if_true]
          rfl
        · simp only [enough, if_false]
          rfl

/-- What a walk over a header that goes through does at an entry, if everything is asked for: the
header ends, or the field is there already and its slot is stepped over, or the field is bound to
what its slot holds.  The walk then goes on with one entry less of room. -/
inductive EntryRead (inner : BodyReader) (room last bound : Nat) (target : Record) (here : Cursor)
    (outcome : Nat × Record) (there : Cursor) : Prop
  | ended (read : readHeading context input here = .ok none there)
      (done : outcome = (last, target))
  | known {heading : Heading} {headed next : Cursor}
      (read : readHeading context input here = .ok (some heading) headed)
      (known : target.contains heading.name = true)
      (skip : Cursor.skip input (Slot.size heading.pinned.isSome) headed = .ok () next)
      (rest : readFieldsInto context input inner none room last bound target next
        = .ok outcome there)
  | fresh {heading : Heading} {headed next : Cursor} {placed : Option Placed}
      (read : readHeading context input here = .ok (some heading) headed)
      (fresh : target.contains heading.name = false)
      (slot : readSlot input inner heading.pinned headed = .ok placed next)
      (rest : readFieldsInto context input inner none room (max last (Placed.endOf placed))
        (bound + 1) (target.bind heading.name (Placed.valueOf placed) (placed.map (·.tag))) next
          = .ok outcome there)

/-- One step of a walk that went through: the header ends, or a field is gone past that is bound
already, or a new one is bound. -/
theorem readFieldsInto_cases {inner : BodyReader} {room last bound : Nat} {target : Record}
    {here there : Cursor} {outcome : Nat × Record}
    (run : readFieldsInto context input inner none (room + 1) last bound target here
      = .ok outcome there) :
    EntryRead context input inner room last bound target here outcome there := by
  rw [readFieldsInto_succ] at run
  obtain ⟨heading, headed, read, run⟩ := run_bind_eq_ok.mp run
  cases heading with
  | none =>
    -- the zero that ends the header
    cases run
    exact .ended read rfl
  | some heading =>
    simp only [isWanted, Option.all_none, Bool.not_true, Bool.false_or] at run
    cases there : target.contains heading.name with
    | true =>
      rw [there, if_pos rfl] at run
      obtain ⟨_, next, skip, run⟩ := run_bind_eq_ok.mp run
      exact .known read there skip run
    | false =>
      rw [there, if_neg Bool.false_ne_true] at run
      obtain ⟨placed, next, slot, run⟩ := run_bind_eq_ok.mp run
      exact .fresh read there slot run

/-! The other way round, whatever is asked for: what a walk does at an entry that it can read. -/

section EntryReads

variable {inner : BodyReader} {projection : Option (List String)} {room last bound : Nat}
  {target : Record} {here headed next : Cursor} {heading : Heading}

/-- The end of the header ends the walk. -/
theorem readFieldsInto_ended (read : readHeading context input here = .ok none headed) :
    readFieldsInto context input inner projection (room + 1) last bound target here
      = .ok (last, target) headed := by
  rw [readFieldsInto_succ, run_bind_of_ok read]
  rfl

/-- A field that is not wanted or is bound already is gone past, slot and all. -/
theorem readFieldsInto_over (read : readHeading context input here = .ok (some heading) headed)
    (skipped : (!isWanted projection heading.name || target.contains heading.name) = true)
    (skip : Cursor.skip input (Slot.size heading.pinned.isSome) headed = .ok () next) :
    readFieldsInto context input inner projection (room + 1) last bound target here
      = readFieldsInto context input inner projection room last bound target next := by
  rw [readFieldsInto_succ, run_bind_of_ok read]
  dsimp only
  rw [if_pos skipped, run_bind_of_ok skip]

/-- A new field is read and bound, and the walk goes on, unless as many are bound now as are wanted.
-/
theorem readFieldsInto_binds {placed : Option Placed}
    (read : readHeading context input here = .ok (some heading) headed)
    (wanted : (!isWanted projection heading.name || target.contains heading.name) = false)
    (slot : readSlot input inner heading.pinned headed = .ok placed next) :
    readFieldsInto context input inner projection (room + 1) last bound target here
      = (let bound' := target.bind heading.name (Placed.valueOf placed) (placed.map Placed.tag)
        let last' := max last (Placed.endOf placed)
        match projection with
        | none => readFieldsInto context input inner projection room last' (bound + 1) bound'
        | some wanted =>
          if wanted.length ≤ bound + 1 then return (last', bound')
          else readFieldsInto context input inner projection room last' (bound + 1) bound') next := by
  rw [readFieldsInto_succ, run_bind_of_ok read]
  dsimp only
  rw [wanted, if_neg Bool.false_ne_true, run_bind_of_ok slot]

end EntryReads

/-- Reading a record, as a decoder. -/
def readRecordInto (inner : BodyReader) (projection : Option (List String)) (target : Record) :
    Decoder Record := do
  let className ← Cursor.string input
  let (last, made) ←
    readFieldsInto context input inner projection (input.length + 1) 0 0
      (Binder.named className target)
  finish input last
  return made

/-- Reading a record into a target is reading it with the target as an argument that is handed on.
-/
theorem into_readRecord (inner : BodyReader) (projection : Option (List String))
    (target : Record) : (readRecord context input inner projection).into target
      = readRecordInto context input inner projection target >>= fun made => pure ((), made) := by
  rw [readRecord, readRecordInto, bind_assoc]
  refine (Binder.into_lift_bind target _ _).trans ?_
  -- the class name is read alike, and bound before the fields
  congr 1
  funext className
  rw [bind_assoc, Binder.into_bind, Binder.into_bindClass, pure_bind, Binder.into_bind]
  congr 1
  funext (last, made)
  rw [bind_assoc]
  exact Binder.into_lift made (finish input last)

/-- An embedded record is read into a new one. -/
theorem onNew_readRecord (inner : BodyReader) (projection : Option (List String)) :
    (readRecord context input inner projection).onNew
      = readRecordInto context input inner projection Record.new := by
  rw [Binder.onNew_eq, into_readRecord, bind_assoc]
  exact bind_pure _

/-- Bodies that hold no others are read alike at every level. -/
theorem readBodyWith_flat {tag : TypeTag} (flat : tag.isContainer = false)
    (inner : Except CodecError BodyReader) :
    readBodyWith context input inner tag = readScalar context input tag := by
  cases tag with
  | embedded => cases flat
  | embeddedList => cases flat
  | embeddedSet => cases flat
  | embeddedMap => cases flat
  | _ => rfl

/-- Bodies that hold no others are read alike at every level. -/
theorem readBody_flat {tag : TypeTag} (flat : tag.isContainer = false) (room : Nat) :
    readBody context input room tag = readScalar context input tag := by
  cases room with
  | zero => exact readBodyWith_flat context input flat _
  | succ room => exact readBodyWith_flat context input flat _

end Decoding

/-! ## A whole decoding -/

namespace Record

variable (context : Context) (input : List UInt8) (projection : Option (List String))
  {target made : Record} {here there : Cursor}

/-- The decoder behind a whole decoding: it begins with the whole budget, wherever it begins. -/
def readingInto (target : Record) : Decoder Record := fun here =>
  Decoding.readRecordInto context input
    (Decoding.readBody context input context.options.maxDepth) projection target
    ⟨here.position, 0⟩

/-- So a whole decoding is one that hands its target on. -/
theorem into_decodeFrom (target : Record) :
    (decodeFrom context input projection).into target
      = readingInto context input projection target >>= fun made => pure ((), made) := by
  funext here
  exact congrFun (Decoding.into_readRecord context input _ projection target) ⟨here.position, 0⟩

/-- A decoding goes through just as the one that hands its target on does. -/
theorem decodeFrom_ok_iff :
    decodeFrom context input projection ⟨here, target⟩ = .ok () ⟨there, made⟩
      ↔ readingInto context input projection target here = .ok made there := by
  rw [Binder.run_ok_iff, into_decodeFrom, run_bind_eq_ok]
  constructor
  · rintro ⟨made', there', run, same⟩
    cases same
    exact run
  · exact fun run => ⟨made, there, run, rfl⟩

/-- It fails just as that one does, with something bound in its target that the other one forgets.
-/
theorem decodeFrom_error_iff {e : Failure} :
    (∃ made, decodeFrom context input projection ⟨here, target⟩ = .error e ⟨there, made⟩)
      ↔ readingInto context input projection target here = .error e there := by
  rw [Binder.run_error_iff, into_decodeFrom, run_bind_eq_error]
  constructor
  · rintro (run | ⟨made', there', -, same⟩)
    · exact run
    · cases same
  · exact fun run => Or.inl run

end Record
end DocumentCodec
