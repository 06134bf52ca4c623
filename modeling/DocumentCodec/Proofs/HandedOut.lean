import DocumentCodec.Proofs.Running
/-!
# What a cursor hands out

A cursor counts the bytes that it hands out where they are taken, and nowhere else.  Most readings
take bytes several times, and what they took last tells them whether they go on: a length may be too
wide or negative, fewer bytes may be left than it says, the budget may be spent although they are
left, and what was taken may be no text.  So the count is compared here with the bytes themselves.

A `Script` is what a reading asks of the cursor, request by request.  It can be run, and it can be
followed for the list of the bytes that it is given.  One induction over scripts shows that the
cursor and its count go on by just these bytes (`Script.moves`); a reading has only to be the run of
a script, which `Scripted` keeps together with the script.  A `Session` then takes any number of
steps, goes on behind a failing one where that left the cursor, and keeps the list beside the
cursor.

A failing reading puts nothing back.  So a reading that looks at what it took, or goes on taking,
may fail behind bytes that it was given; one that asks for bytes once and takes them as they are is
all or nothing (`AllOrNothing`).
-/

namespace DocumentCodec

/-! ## Scripts

A script says what comes next by what it was given so far, as a reading does.  Running it and
listing what it is handed are two ways through the same tree. -/

/-- What is asked of a cursor, one request behind the other: where it stands, and bytes, as many as
what was seen before tells.  How much of the budget is left cannot be asked. -/
inductive Script (α : Type) where
  | done (a : α)
  | fail (e : Failure)
  | place (next : Nat → Script α)
  | take (count : Nat) (next : List UInt8 → Script α)

namespace Script

variable {α β : Type} (input : List UInt8)

/-- Makes the requests. -/
def run : Script α → Decoder α
  | done a => pure a
  | fail e => throw e
  | place next => Cursor.offset >>= fun start => (next start).run
  | take count next => Cursor.take input count >>= fun bytes => (next bytes).run

/-- The bytes that are handed out in turn, up to the answer or the failure. -/
def handed : Script α → Cursor → List UInt8
  | done _, _ => []
  | fail _, _ => []
  | place next, here => (next here.position).handed here
  | take count next, here =>
    match Cursor.take input count here with
    | .ok bytes there => bytes ++ (next bytes).handed there
    | .error _ _ => []

/-- The requests of one script, and then those of another that knows the answer to the first. -/
def bind : Script α → (α → Script β) → Script β
  | done a, f => f a
  | fail e, _ => fail e
  | place next, f => place fun start => (next start).bind f
  | take count next, f => take count fun bytes => (next bytes).bind f

/-- Scripts one behind the other are run one behind the other. -/
theorem run_bind (script : Script α) (f : α → Script β) :
    (script.bind f).run input = script.run input >>= fun a => (f a).run input := by
  induction script with
  | done a => rfl
  | fail e => rfl
  | place next ih =>
    -- looking where the cursor stands, and taking bytes, both go on with a script that depends on
    -- the answer
    have rest : (fun start => ((next start).bind f).run input)
        = fun start => (next start).run input >>= fun a => (f a).run input := funext ih
    rw [bind, run, run, rest, bind_assoc]
  | take count next ih =>
    have rest : (fun bytes => ((next bytes).bind f).run input)
        = fun bytes => (next bytes).run input >>= fun a => (f a).run input := funext ih
    rw [bind, run, run, rest, bind_assoc]

end Script

/-! ## Moving over the bytes that are handed out

The position and the count go on together, by as many bytes as are handed out; and those are the
bytes of the input that stand there. -/

/-- The cursor moved over these bytes of the input and counted them, and it stayed within bounds. -/
structure Moves (input : List UInt8) (here there : Cursor) (bytes : List UInt8) : Prop where
  position : there.position = here.position + bytes.length
  visited : there.visited = here.visited + bytes.length
  passed : bytes = (input.drop here.position).take bytes.length
  inside : here.position ≤ input.length → there.position ≤ input.length
  allowed : here.visited ≤ input.length → there.visited ≤ input.length

namespace Moves

variable {input bytes more : List UInt8} {here mid there : Cursor}

/-- Standing still hands out nothing. -/
theorem nowhere : Moves input here here [] where
  position := rfl
  visited := rfl
  passed := rfl
  inside := id
  allowed := id

/-- Two moves are one move, which hands out the bytes of the one and then those of the other. -/
theorem andThen (first : Moves input here mid bytes) (second : Moves input mid there more) :
    Moves input here there (bytes ++ more) where
  position := by
    rw [second.position, first.position, List.length_append, Nat.add_assoc]
  visited := by
    rw [second.visited, first.visited, List.length_append, Nat.add_assoc]
  passed := by
    -- the second move begins where the first one ended
    have behind := second.passed
    rw [first.position, ← List.drop_drop] at behind
    rw [List.length_append, List.take_add, ← first.passed, ← behind]
  inside h := second.inside (first.inside h)
  allowed h := second.allowed (first.allowed h)

/-- Taking bytes hands out those that stand behind the cursor. -/
theorem take {count : Nat} (run : Cursor.take input count here = .ok bytes there) :
    Moves input here there bytes := by
  have whole := Cursor.length_of_take_ok input run
  obtain ⟨left, allowed, rfl, rfl⟩ := Cursor.of_take_ok input run
  constructor
  · rw [whole]
  · rw [whole]
  · rw [whole]
  · exact fun _ => left
  · exact fun _ => allowed

end Moves

/-- **The cursor moves over what is handed out.**  However a script ends, the bytes that it was
given are those between the places where the cursor stood and where it was left, and they were all
counted. -/
theorem Script.moves {α : Type} (input : List UInt8) (script : Script α) : ∀ here : Cursor,
    Moves input here (leftBy (script.run input here)) (script.handed input here) := by
  induction script with
  | done a => exact fun here => .nowhere
  | fail e => exact fun here => .nowhere
  | place next ih => exact fun here => ih here.position here
  | take count next ih =>
    intro here
    cases taken : Cursor.take input count here with
    | ok bytes mid =>
      rw [Script.run, run_bind_of_ok taken, Script.handed, taken]
      exact (Moves.take taken).andThen (ih bytes mid)
    | error e there =>
      -- nothing is handed out by a request that is refused, and the script ends there
      obtain rfl : there = here := (Cursor.of_take_error input taken).1
      rw [Script.run, run_bind_of_error taken, Script.handed, taken]
      exact .nowhere

/-! ## Readings as scripts

Nothing is said of a reading here but the script that it runs.  What follows from there being one is
said once, of scripts. -/

/-- A reading with the script whose run it is. -/
structure Scripted {α : Type} (input : List UInt8) (read : Decoder α) where
  script : Script α
  run_script : script.run input = read

namespace Scripted

variable {α β : Type} {input : List UInt8}

def pure (a : α) : Scripted input (Pure.pure a : Decoder α) := ⟨.done a, rfl⟩

def malformed (offset : Nat) (reason : Malformation) :
    Scripted input (Decoder.malformed offset reason : Decoder α) := ⟨.fail _, rfl⟩

def offset : Scripted input Cursor.offset := ⟨.place .done, rfl⟩

def take (count : Nat) : Scripted input (Cursor.take input count) :=
  ⟨.take count .done, bind_pure (Cursor.take input count)⟩

/-- A sequence of scripted readings is scripted. -/
def bind {read : Decoder α} {f : α → Decoder β} (first : Scripted input read)
    (second : ∀ a, Scripted input (f a)) : Scripted input (read >>= f) where
  script := first.script.bind fun a => (second a).script
  run_script := by
    rw [Script.run_bind, first.run_script]
    exact congrArg (read >>= ·) (funext fun a => (second a).run_script)

/-- What is made of an answer asks for nothing. -/
def map {read : Decoder α} {f : α → β} (first : Scripted input read) :
    Scripted input (read >>= fun a => Pure.pure (f a)) := first.bind fun a => pure (f a)

/-- So is a choice between two. -/
def ite {condition : Prop} [Decidable condition] {yes no : Decoder α}
    (whenTrue : Scripted input yes) (whenFalse : Scripted input no) :
    Scripted input (if condition then yes else no) where
  script := if condition then whenTrue.script else whenFalse.script
  run_script := by
    split
    · exact whenTrue.run_script
    · exact whenFalse.run_script

/-- Readings that do the same have the same scripts. -/
def congr {read other : Decoder α} (same : read = other) (scripted : Scripted input other) :
    Scripted input read := ⟨scripted.script, scripted.run_script.trans same.symm⟩

/-! The readings are sequences of requests as they stand. -/

def skip (count : Nat) : Scripted input (Cursor.skip input count) := (take count).map

def byte : Scripted input (Cursor.byte input) := (take 1).map

/-- A varint looks ahead for its length and then skips as many bytes. -/
def varint : Scripted input (Cursor.varint input) :=
  congr (Cursor.varint_eq input) <| offset.bind fun start =>
    match Varint.decode (input.drop start) with
    | .error cause => malformed start (.varint cause)
    | .ok (_, count) => (skip count).map

def signedVarint : Scripted input (Cursor.signedVarint input) := varint.map

def varint32 : Scripted input (Cursor.varint32 input) :=
  offset.bind fun start => signedVarint.bind fun _ => ite (pure _) (malformed start _)

def varint16 : Scripted input (Cursor.varint16 input) :=
  offset.bind fun start => signedVarint.bind fun _ => ite (pure _) (malformed start _)

def length : Scripted input (Cursor.length input) :=
  offset.bind fun start => varint32.bind fun _ => ite (pure _) (malformed start _)

def word32 : Scripted input (Cursor.word32 input) := (take 4).map

def word64 : Scripted input (Cursor.word64 input) := (take 8).map

def binary : Scripted input (Cursor.binary input) := length.bind take

/-- Text is its bytes, unless they spell none. -/
def string : Scripted input (Cursor.string input) :=
  offset.bind fun start => binary.bind fun bytes =>
    match Utf8.decode bytes with
    | .ok text => pure text
    | .error cause => malformed start (.invalidString cause)

/-- A tag is one byte, unless it is none's. -/
def tag : Scripted input (Cursor.tag input) :=
  offset.bind fun start => byte.bind fun id =>
    match TypeTag.ofId? id with
    | some tag => pure tag
    | none => malformed start (.unknownTag id)

end Scripted

/-- The readings that a cursor offers.  Integers of a fixed width and floating-point numbers are
words taken for what they stand for. -/
inductive Reading where
  | skip (count : Nat)
  | take (count : Nat)
  | byte
  | varint
  | signedVarint
  | varint32
  | varint16
  | length
  | literal32
  | literal64
  | single
  | double
  | binary
  | string
  | tag
deriving DecidableEq, Repr

namespace Reading

/-- What is read. -/
abbrev Answer : Reading → Type
  | skip _ => Unit
  | take _ | binary => List UInt8
  | byte => UInt8
  | varint => UInt64
  | signedVarint => Int64
  | varint32 | literal32 => Int32
  | varint16 => Int16
  | length => Nat
  | literal64 => Int64
  | single => UInt32
  | double => UInt64
  | string => String
  | tag => TypeTag

variable (input : List UInt8)

/-- What a step reads. -/
def run : (reading : Reading) → Decoder reading.Answer
  | skip count => Cursor.skip input count
  | take count => Cursor.take input count
  | byte => Cursor.byte input
  | varint => Cursor.varint input
  | signedVarint => Cursor.signedVarint input
  | varint32 => Cursor.varint32 input
  | varint16 => Cursor.varint16 input
  | length => Cursor.length input
  | literal32 => return (← Cursor.word32 input).toInt32
  | literal64 => return (← Cursor.word64 input).toInt64
  | single => Cursor.word32 input
  | double => Cursor.word64 input
  | binary => Cursor.binary input
  | string => Cursor.string input
  | tag => Cursor.tag input

/-- Each of them is scripted. -/
def scripted : (reading : Reading) → Scripted input (reading.run input)
  | skip count => Scripted.skip count
  | take count => Scripted.take count
  | byte => Scripted.byte
  | varint => Scripted.varint
  | signedVarint => Scripted.signedVarint
  | varint32 => Scripted.varint32
  | varint16 => Scripted.varint16
  | length => Scripted.length
  | literal32 => Scripted.word32.map
  | literal64 => Scripted.word64.map
  | single => Scripted.word32
  | double => Scripted.word64
  | binary => Scripted.binary
  | string => Scripted.string
  | tag => Scripted.tag

/-- The bytes that a reading is given, up to its answer or its failure. -/
def handed (reading : Reading) (here : Cursor) : List UInt8 :=
  (reading.scripted input).script.handed input here

/-- So each moves the cursor by what it hands out, whether it goes through or fails. -/
theorem moves (reading : Reading) (here : Cursor) :
    Moves input here (leftBy (reading.run input here)) (reading.handed input here) := by
  -- every script moves so, and the reading is the run of one
  have moved := (reading.scripted input).script.moves input here
  rw [(reading.scripted input).run_script] at moved
  exact moved

/-- The readings that ask for bytes once, and take what they are given as it is. -/
def isWhole : Reading → Bool
  | skip _ | take _ | byte | varint | signedVarint => true
  | literal32 | literal64 | single | double => true
  | varint32 | varint16 | length | binary | string | tag => false

end Reading

/-! ## All or nothing

A reading that asks once, and takes what it gets as it is, leaves the cursor where it was if it
fails.  So does a jump, which asks for nothing. -/

/-- A reading that fails only where nothing was taken: it leaves the cursor as it was. -/
structure AllOrNothing {α : Type} (read : Decoder α) : Prop where
  unmoved : ∀ {here there e}, read here = .error e there → there = here

namespace AllOrNothing

variable {α β : Type} {input : List UInt8}

theorem take (count : Nat) : AllOrNothing (Cursor.take input count) :=
  ⟨fun run => (Cursor.of_take_error input run).1⟩

theorem seek (target : Nat) : AllOrNothing (Cursor.seek input target) :=
  ⟨fun run => (Cursor.of_seek_error input run).1⟩

/-- An answer made of another one changes nothing in that. -/
theorem map {read : Decoder α} {f : α → β} (whole : AllOrNothing read) :
    AllOrNothing (read >>= fun a => pure (f a)) := by
  refine ⟨fun run => ?_⟩
  rcases run_bind_eq_error.mp run with failed | ⟨a, mid, -, made⟩
  · exact whole.unmoved failed
  · cases made

theorem skip (count : Nat) : AllOrNothing (Cursor.skip input count) := (take count).map

/-- What a varint is can be seen before its bytes are asked for. -/
theorem varint : AllOrNothing (Cursor.varint input) := by
  refine ⟨fun {here there e} run => ?_⟩
  rw [Cursor.varint_eq, run_bind_of_ok (Cursor.run_offset here)] at run
  cases spelled : Varint.decode (input.drop here.position) with
  | error cause =>
    rw [spelled] at run
    cases run
    rfl
  | ok word =>
    rw [spelled] at run
    exact (skip word.2).map.unmoved run

end AllOrNothing

/-- The readings of one piece fail, if they do, before they move. -/
theorem Reading.allOrNothing {reading : Reading} (whole : reading.isWhole = true)
    (input : List UInt8) : AllOrNothing (reading.run input) := by
  cases reading with
  | skip count => exact .skip count
  | take count => exact .take count
  | byte => exact (AllOrNothing.take 1).map
  | varint => exact .varint
  | signedVarint => exact AllOrNothing.varint.map
  | literal32 => exact (AllOrNothing.take 4).map.map
  | literal64 => exact (AllOrNothing.take 8).map.map
  | single => exact (AllOrNothing.take 4).map
  | double => exact (AllOrNothing.take 8).map
  | varint32 | varint16 | length | binary | string | tag => cases whole

/-! ## Sessions

A session goes on behind a failing step from wherever that left the cursor, so what holds of every
step holds of the whole. -/

/-- A step of a run: a jump, a new budget, or a reading. -/
inductive Step where
  | seek (target : Nat)
  | resetBudget
  | read (reading : Reading)
deriving DecidableEq, Repr

namespace Step

variable (input : List UInt8)

/-- Takes the step, and lets the answer go. -/
def run : Step → Decoder Unit
  | seek target => Cursor.seek input target
  | resetBudget => Cursor.resetBudget
  | read reading => do
    let _ ← reading.run input

/-- The bytes handed out since the budget was last reset, if those before the step are given. -/
def enter (handed : List UInt8) (here : Cursor) : Step → List UInt8
  | seek _ => handed
  | resetBudget => []
  | read reading => handed ++ reading.handed input here

/-- Jumps and resets ask for no bytes. -/
def isWhole : Step → Bool
  | seek _ | resetBudget => true
  | read reading => reading.isWhole

/-- The answer that is let go makes no difference to the cursor. -/
theorem leftBy_run_read (reading : Reading) (here : Cursor) :
    leftBy ((read reading).run input here) = leftBy (reading.run input here) := by
  cases ran : reading.run input here with
  | ok a there =>
    have ends : (read reading).run input here = .ok () there := run_bind_of_ok ran
    rw [ends]
    rfl
  | error e there =>
    have ends : (read reading).run input here = .error e there := run_bind_of_error ran
    rw [ends]
    rfl

/-- So do the steps; a jump is refused before it is made, and to begin the budget anew never fails.
-/
theorem allOrNothing {step : Step} (whole : step.isWhole = true) :
    AllOrNothing (step.run input) := by
  cases step with
  | seek target => exact .seek target
  | resetBudget => exact ⟨fun run => nomatch run⟩
  | read reading => exact (reading.allOrNothing whole input).map

/-- A failing step never moves the cursor back. -/
theorem position_le_of_error {step : Step} {here there : Cursor} {e : Failure}
    (failed : step.run input here = .error e there) : here.position ≤ there.position := by
  cases step with
  | seek target => exact Nat.le_of_eq (by rw [(AllOrNothing.seek target).unmoved failed])
  | resetBudget => cases failed
  | read reading =>
    have moved := reading.moves input here
    rw [← leftBy_run_read, failed] at moved
    have on : there.position = here.position + _ := moved.position
    exact on ▸ Nat.le_add_right _ _

end Step

/-- A cursor with the bytes that it handed out since its budget was last reset. -/
structure Session where
  cursor : Cursor
  handed : List UInt8

namespace Session

variable (input : List UInt8)

def start : Session := ⟨Cursor.start, []⟩

/-- Takes one step more, from wherever the last one left the cursor. -/
def go (session : Session) (step : Step) : Session where
  cursor := leftBy (step.run input session.cursor)
  handed := step.enter input session.handed session.cursor

/-- Takes the steps one after the other, failing ones, too. -/
def after (steps : List Step) : Session := steps.foldl (go input) start

/-- The cursor and its count are within bounds, and the count is right. -/
structure Sound (session : Session) : Prop where
  inside : session.cursor.position ≤ input.length
  allowed : session.cursor.visited ≤ input.length
  counted : session.cursor.visited = session.handed.length

variable {input}

/-- Every step preserves it. -/
theorem Sound.go {session : Session} (sound : Sound input session) (step : Step) :
    Sound input (session.go input step) := by
  obtain ⟨inside, allowed, counted⟩ := sound
  cases step with
  | seek target =>
    have goes : (session.go input (.seek target)).cursor
        = leftBy (Cursor.seek input target session.cursor) := rfl
    cases jumped : Cursor.seek input target session.cursor with
    | ok _ there =>
      -- a jump hands nothing out
      obtain ⟨reached, rfl⟩ := Cursor.of_seek_ok input jumped
      rw [jumped] at goes
      exact ⟨goes ▸ reached, goes ▸ allowed, goes ▸ counted⟩
    | error e there =>
      -- a refused one does not even move
      obtain rfl : there = session.cursor := (AllOrNothing.seek target).unmoved jumped
      rw [jumped] at goes
      exact ⟨goes ▸ inside, goes ▸ allowed, goes ▸ counted⟩
  | resetBudget => exact ⟨inside, Nat.zero_le _, rfl⟩
  | read reading =>
    have moved := reading.moves input session.cursor
    rw [← Step.leftBy_run_read] at moved
    exact ⟨moved.inside inside, moved.allowed allowed,
      by rw [Session.go, moved.visited, counted, Step.enter, List.length_append]⟩

/-- And so does every sequence of steps. -/
theorem Sound.foldl {session : Session} (sound : Sound input session) (steps : List Step) :
    Sound input (steps.foldl (Session.go input) session) := by
  induction steps generalizing session with
  | nil => exact sound
  | cons step steps ih => exact ih (sound.go step)

theorem sound_after (input : List UInt8) (steps : List Step) : Sound input (after input steps) :=
  Sound.foldl ⟨Nat.zero_le _, Nat.zero_le _, rfl⟩ steps

/-! ## The headline -/

/-- **A cursor keeps its count, whatever is done with it.**  After any steps, failing ones among
them, it stands within the input, and it has counted the bytes that it handed out since its budget
was last reset, of which there are no more than the input has.  The next reading is given just the
bytes between the place where the cursor stands and the one where it leaves it.  If the next step
fails, the cursor is not moved back; and it is as it was, with its count, if the step was a jump, or
asked for bytes once and would have taken them as they are. -/
theorem after_counts (input : List UInt8) (steps : List Step) (next : Step) :
    let session := after input steps
    session.cursor.position ≤ input.length ∧ session.cursor.visited ≤ input.length ∧
    session.cursor.visited = session.handed.length ∧
    (∀ reading : Reading, reading.handed input session.cursor
      = (input.drop session.cursor.position).take
        ((leftBy (reading.run input session.cursor)).position - session.cursor.position)) ∧
    (match next.run input session.cursor with
      | .ok _ _ => True
      | .error _ there => session.cursor.position ≤ there.position ∧
        (next.isWhole = true → there = session.cursor)) := by
  intro session
  obtain ⟨inside, allowed, counted⟩ := sound_after input steps
  refine ⟨inside, allowed, counted, fun reading => ?_, ?_⟩
  · have moved := reading.moves input session.cursor
    rw [moved.position, Nat.add_sub_cancel_left]
    exact moved.passed
  · cases ran : next.run input session.cursor with
    | ok _ there => trivial
    | error e there =>
      exact ⟨next.position_le_of_error input ran,
        fun whole => (next.allOrNothing input whole).unmoved ran⟩

/-- A byte is taken again after a jump back: the byte string that it begins then is refused for want
of its five bytes, behind the length; the same five asked for at once move nothing. -/
theorem after_counts_rewound :
    let input : List UInt8 := [5, 97]
    let session := after input [.read .byte, .seek 0]
    let binary := Step.read .binary
    let five := Step.read (.take 5)
    let here : Cursor := ⟨0, 1⟩
    session.cursor = here ∧ session.handed = [5] ∧ here.visited = session.handed.length ∧
      binary.run input here = .error (.codec (.malformedInput 1 (.tooFewBytes 5 1))) ⟨1, 2⟩ ∧
      here.position ≤ (⟨1, 2⟩ : Cursor).position ∧
      five.run input here = .error (.codec (.malformedInput 0 (.tooFewBytes 5 2))) here ∧
      here = session.cursor :=
  let halfway := after_counts [5, 97] [.read .byte, .seek 0] (.read .binary)
  let whole := after_counts [5, 97] [.read .byte, .seek 0] (.read (.take 5))
  ⟨rfl, rfl, halfway.2.2.1, rfl, halfway.2.2.2.2.1, rfl, whole.2.2.2.2.2 rfl⟩

end Session
end DocumentCodec
