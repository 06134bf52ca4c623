import DocumentCodec.Proofs.Members
import DocumentCodec.Proofs.Numbers
import DocumentCodec.Proofs.Running
/-!
# Writing in place

An encoder says what its bytes are, every slot filled in.  An arena gets them in another order: the
labels of a table's members with a slot of zeros behind each, then the first body, then the first
slot is overwritten with the offset at which that body began, and so on; and a write in place is
refused where it would end past the arena.

Here the encoding is written down once more in that order, refusals and all, and it is the same
encoding: what stands in the arena when it ends, well or badly, is what the encoder emits.  So no
write in place is ever refused.  A slot is filled in only if its body begins below 2 ^ 31, and it
was handed out before that body.
-/

namespace DocumentCodec

/-- What is written into: the arena, and the targets that the resolver was asked for so far. -/
structure Workspace where
  arena : Arena
  asked : List LinkTarget

/-- Why writing in place stops. -/
inductive Fault where
  | codec (cause : CodecError)
  /-- a write in place was refused -/
  | arena (cause : ArenaError)

/-- A step of writing in place.  What it did before it failed stays done. -/
abbrev Writer := EStateM Fault Workspace

/-! ## Arenas by their bytes

An arena is its bytes; appending and overwriting are said of the list of them. -/

namespace Arena

/-- The arena that holds just these bytes. -/
def ofList (bytes : List UInt8) : Arena := ⟨bytes.toArray⟩

variable {a b old new : List UInt8} {arena : Arena}

theorem ofList_toList (arena : Arena) : ofList arena.toList = arena := rfl

@[simp] theorem size_ofList (bytes : List UInt8) : (ofList bytes).size = bytes.length := rfl

@[simp] theorem append_ofList (bytes data : List UInt8) :
    (ofList bytes).append data = (bytes.length, ofList (bytes ++ data)) := by
  simp [append, ofList, size]

/-- A write over bytes that were handed out goes through, as long as it ends at an offset. -/
theorem writeAt_ofList (size : new.length = old.length)
    (low : a.length + old.length < UInt64.size) :
    (ofList (a ++ old ++ b)).writeAt a.length new = .ok (ofList (a ++ new ++ b)) := by
  -- the new bytes are as many as the old ones, so they end within the arena
  have inside : ¬(ofList (a ++ old ++ b)).size < a.length + new.length := by
    rw [size_ofList, List.length_append, List.length_append]
    omega
  rw [writeAt, if_neg (by omega), if_neg inside]
  have fits : a.length + new.length ≤ (ofList (a ++ old ++ b)).bytes.size := Nat.le_of_not_lt inside
  have written := toList_overwrite new (ofList (a ++ old ++ b)).bytes a.length fits
  have whole : (ofList (a ++ old ++ b)).bytes.toList = a ++ old ++ b := rfl
  have before : (a ++ old ++ b).take a.length = a := by rw [List.append_assoc, List.take_left]
  have after : (a ++ old ++ b).drop (a.length + new.length) = b := by
    rw [size, ← List.length_append, List.drop_left]
  rw [whole, before, after] at written
  exact congrArg Except.ok (congrArg Arena.mk (Array.toList_inj.mp written))

end Arena

/-! ## Steps -/

namespace Writer

variable {α β : Type}

/-- An answer or a failure of the codec, with what was written until then. -/
def outcome (result : Except CodecError α) (space : Workspace) :
    EStateM.Result Fault Workspace α :=
  match result with
  | .ok a => .ok a space
  | .error e => .error (.codec e) space

/-- Adds what an encoder emits to the end of the arena. -/
def of (x : Encoder α) : Writer α := fun space =>
  let emitted := x space.arena.size space.asked
  outcome emitted.result
    ⟨(space.arena.append emitted.bytes).2, space.asked ++ emitted.calls⟩

/-- Where the next byte will stand. -/
def here : Writer Nat := fun space => .ok space.arena.size space

/-- Adds bytes and answers with where they begin. -/
def append (data : List UInt8) : Writer Nat := fun space =>
  .ok (space.arena.append data).1 { space with arena := (space.arena.append data).2 }

/-- Adds zero bytes and answers with where they begin. -/
def allocate (n : Nat) : Writer Nat := fun space =>
  .ok (space.arena.allocate n).1 { space with arena := (space.arena.allocate n).2 }

/-- Writes in place, which the arena may refuse. -/
def overwrite (write : Arena → Except ArenaError Arena) : Writer Unit := fun space =>
  match write space.arena with
  | .ok changed => .ok () { space with arena := changed }
  | .error cause => .error (.arena cause) space

/-! ## What encoders emit one behind the other

An encoder becomes a step of the arena by what it emits and what it asks.  That it may be taken
apart into such steps is what is shown here. -/

theorem of_ofList (x : Encoder α) (bytes : List UInt8) (asked : List LinkTarget) :
    of x ⟨.ofList bytes, asked⟩ = outcome (x bytes.length asked).result
      ⟨.ofList (bytes ++ (x bytes.length asked).bytes), asked ++ (x bytes.length asked).calls⟩ := by
  simp [of]

/-- To do nothing leaves the arena as it is. -/
theorem of_pure (a : α) : of (pure a : Encoder α) = pure a := by
  funext ⟨arena, asked⟩
  rw [← arena.ofList_toList, of_ofList]
  show EStateM.Result.ok a _ = EStateM.Result.ok a _
  rw [show (pure a : Encoder α) arena.toList.length asked = ⟨[], [], .ok a⟩ from rfl]
  simp

/-- A sequence of encoders is written by writing one behind the other. -/
theorem of_bind (x : Encoder α) (f : α → Encoder β) :
    of (x >>= f) = of x >>= fun a => of (f a) := by
  funext ⟨arena, asked⟩
  rw [← arena.ofList_toList, of_ofList]
  show _ = EStateM.bind (of x) (fun a => of (f a)) ⟨.ofList arena.toList, asked⟩
  rw [EStateM.bind, of_ofList]
  -- the second part is an encoder at the place where the arena ends now
  rcases emitted : x arena.toList.length asked with ⟨bytes, calls, result⟩
  cases result with
  | error e =>
    rw [Encoder.bind_of_error emitted]
    rfl
  | ok a =>
    rw [Encoder.bind_of_ok emitted]
    show _ = of (f a) ⟨.ofList (arena.toList ++ bytes), asked ++ calls⟩
    rw [of_ofList]
    simp only [List.length_append, List.append_assoc]

theorem of_position : of Encoder.position = here := by
  funext ⟨arena, asked⟩
  rw [← arena.ofList_toList, of_ofList]
  simp [Encoder.position, outcome, here]

/-- Encoders one after the other are written in place one after the other. -/
theorem of_forM (f : α → Encoder Unit) (items : List α) :
    of (items.forM f) = items.forM fun item => of (f item) := by
  induction items with
  | nil => exact of_pure ()
  | cons item rest ih =>
    rw [Encoder.forM_cons, of_bind, ih]
    rfl

end Writer

/-! ## The encoding in place -/

/-- Writes the value of a field under a tag, in place. -/
abbrev PlaceWriter :=
  (field : String) → (tag : TypeTag) → (linked : Option TypeTag) → (value : Value) → Writer Unit

/-- What a writer of bodies emits, added to the end of the arena. -/
def BodyWriter.placed (write : BodyWriter) : PlaceWriter :=
  fun field tag linked value => Writer.of (write field tag linked value)

namespace InPlace

open Writer

/-! ### Lists and sets -/

/-- Writes an element behind its tag. -/
def writeItem (inner : PlaceWriter) (field : String) (linked : Option TypeTag) (item : Value) :
    Writer Unit :=
  if item.isNull then of (Encoder.byte TypeTag.any.id)
  else
    match linked <|> item.naturalTag with
    | none => of (Encoding.refuse field item .untypedElement)
    | some tag => do
      of (Encoder.byte tag.id)
      inner field tag none item

/-- Writes the elements behind their number and the tag that says each has its own. -/
def writeItems (inner : PlaceWriter) (field : String) (linked : Option TypeTag)
    (items : List Value) : Writer Unit := do
  let kept := items.filter (!·.isTransient)
  of (Encoder.varint kept.length)
  of (Encoder.byte TypeTag.any.id)
  kept.forM (writeItem inner field (linked.filter (·.isConcrete)))

/-! ### Tables -/

/-- Puts the members into the header, each with a slot of zeros, and answers with where the slots
are. -/
def reserve : List Member → Writer (List (Member × Nat))
  | [] => return []
  | member :: rest => do
    let _ ← append member.label
    let slot ← allocate (Slot.size member.pinned)
    let slots ← reserve rest
    return (member, slot) :: slots

/-- Puts the offset of a body into its slot and, unless the type is pinned, the tag behind it. -/
def patch (pinned : Bool) (slot start : Nat) (tag : TypeTag) : Writer Unit := do
  overwrite (·.patch32 slot (Int32.ofNat start))
  if pinned then return ()
  else overwrite (·.writeAt (slot + Slot.pointerSize) [tag.id])

/-- Writes the body of a member to the end of the arena and then fills its slot in. -/
def fill (inner : PlaceWriter) (member : Member) (slot : Nat) : Writer Unit :=
  if member.value.isNull then return ()
  else
    match member.tag with
    | .error reason => of (Encoding.refuse member.field member.value reason)
    | .ok tag => do
      let start ← here
      inner member.field tag member.linked member.value
      of (Encoding.checkPointer member.field member.value start)
      patch member.pinned slot start tag

/-- Writes the bodies of members one behind the other and fills in their slots. -/
def fillAll (inner : PlaceWriter) (slots : List (Member × Nat)) : Writer Unit :=
  slots.forM fun (member, slot) => fill inner member slot

/-- Writes a table: the header with its slots empty, then each body and its slot. -/
def writeTable (inner : PlaceWriter) (head : List UInt8) (members : List Member)
    (tail : List UInt8) : Writer Unit := do
  let _ ← append head
  let slots ← reserve members
  let _ ← append tail
  fillAll inner slots

/-- Writes a record. -/
def writeRecord (context : Context) (inner : PlaceWriter) (record : Record) : Writer Unit :=
  writeTable inner (Encoding.recordHead record) (Encoding.recordMembers context record)
    (Varint.encode Encoding.headerEnd)

/-- Writes a map. -/
def writeMap (inner : PlaceWriter) (field : String) (members : List (String × Value)) :
    Writer Unit :=
  writeTable inner (Encoding.mapHead members) (Encoding.mapMembers field members) []

/-! ### Level by level -/

/-- Writes a value under a tag, given the writer for one level deeper, or the reason why there is
none. -/
def writeBodyWith (context : Context) (inner : Except CodecError PlaceWriter) : PlaceWriter :=
  fun field tag linked value =>
    let deeper (write : PlaceWriter → Writer Unit) : Writer Unit :=
      match inner with
      | .error e => of (Encoder.fail e)
      | .ok inner => write inner
    match tag, value with
    | .embedded, .embedded record => deeper fun inner => writeRecord context inner record
    | .embedded, .serializable className record =>
      deeper fun inner => writeRecord context inner (Encoding.markedRecord className record)
    | .embeddedList, .embeddedList items | .embeddedList, .embeddedSet items
    | .embeddedSet, .embeddedList items | .embeddedSet, .embeddedSet items =>
      deeper fun inner => writeItems inner field linked items
    | .embeddedMap, .embeddedMap members => deeper fun inner => writeMap inner field members
    | _, _ => of (Encoding.writeScalar context field tag value)

/-- Writes a value under a tag, with `room` levels left for containers. -/
def writeBody (context : Context) : (room : Nat) → PlaceWriter
  | 0 => writeBodyWith context (.error context.tooDeep)
  | room + 1 => writeBodyWith context (.ok (writeBody context room))

end InPlace

/-- Writes a record to the end of the arena, in place, and answers with where it begins. -/
def Record.writeInPlace (context : Context) (record : Record) : Writer Nat := do
  let start ← Writer.here
  InPlace.writeRecord context (InPlace.writeBody context context.options.maxDepth) record
  return start

/-! ## It is the same encoding

Slots are filled in after their bodies were written.  So the arena holds, at any moment, the header
with the slots filled so far, and behind it the bodies so far; and where a slot is filled in nothing
else stands. -/

namespace InPlace

open Writer

variable (write : BodyWriter)

/-- An element is written in place as it is encoded. -/
theorem writeItem_placed (field : String) (linked : Option TypeTag) (item : Value) :
    writeItem write.placed field linked item = of (Encoding.writeItem write field linked item) := by
  rw [writeItem, Encoding.writeItem]
  split
  · rfl
  · cases linked <|> item.naturalTag with
    | none => rfl
    | some tag => exact (of_bind _ _).symm

/-- So are the elements of a list, behind their number. -/
theorem writeItems_placed (field : String) (linked : Option TypeTag) (items : List Value) :
    writeItems write.placed field linked items
      = of (Encoding.writeItems write field linked items) := by
  rw [writeItems, Encoding.writeItems, of_bind]
  congr 1
  funext _
  rw [of_bind]
  congr 1
  funext _
  rw [of_forM]
  congr 1
  funext item
  exact writeItem_placed write field _ item

/-! ### The header -/

/-- Where the slots of members stand whose labels and slots begin at an offset. -/
def slotsFrom : (here : Nat) → List Member → List (Member × Nat)
  | _, [] => []
  | here, member :: rest =>
    (member, here + member.label.length)
      :: slotsFrom (here + member.label.length + Slot.size member.pinned) rest

theorem append_ofList (bytes data : List UInt8) (asked : List LinkTarget) :
    append data ⟨.ofList bytes, asked⟩ = .ok bytes.length ⟨.ofList (bytes ++ data), asked⟩ := by
  simp [append]

/-- The header is there with every slot empty before the first body is. -/
theorem reserve_ofList (members : List Member) : ∀ (bytes : List UInt8) (asked : List LinkTarget),
    reserve members ⟨.ofList bytes, asked⟩ = .ok (slotsFrom bytes.length members)
      ⟨.ofList (bytes ++ Entry.encodeAll (members.map (Member.entry write)) []), asked⟩ := by
  induction members with
  | nil =>
    intro bytes asked
    rw [List.map_nil, Entry.encodeAll, List.append_nil]
    rfl
  | cons member rest ih =>
    intro bytes asked
    -- the label, the empty slot behind it, and then the rest behind both
    have slot : allocate (Slot.size member.pinned) ⟨.ofList (bytes ++ member.label), asked⟩
        = .ok (bytes ++ member.label).length
          ⟨.ofList (bytes ++ member.label ++ Slot.encode member.pinned none), asked⟩ :=
      append_ofList (bytes ++ member.label) (Slot.encode member.pinned none) asked
    rw [reserve]
    refine (run_bind_of_ok (append_ofList _ _ _)).trans ?_
    refine (run_bind_of_ok slot).trans ?_
    refine (run_bind_of_ok (ih _ _)).trans ?_
    simp only [List.map_cons, slotsFrom, Entry.encodeAll, List.append_assoc, List.length_append,
      Slot.length_encode, Nat.add_assoc]
    rfl

/-! ### One slot -/

theorem overwrite_ofList {write : Arena → Except ArenaError Arena} {bytes changed : List UInt8}
    (written : write (.ofList bytes) = .ok (.ofList changed)) (asked : List LinkTarget) :
    overwrite write ⟨.ofList bytes, asked⟩ = .ok () ⟨.ofList changed, asked⟩ := by
  rw [overwrite, written]

/-- A slot that was handed out is filled in, if what it is to point at stands behind it and within
the range of offsets. -/
theorem patch_ofList {a b : List UInt8} {start : Nat} (pinned : Bool) (tag : TypeTag)
    (asked : List LinkTarget) (reached : start ≤ Slot.maxPointer)
    (behind : a.length + Slot.size pinned ≤ start) :
    patch pinned a.length start tag ⟨.ofList (a ++ Slot.encode pinned none ++ b), asked⟩
      = .ok () ⟨.ofList (a ++ Slot.encode pinned (some ⟨start, tag⟩) ++ b), asked⟩ := by
  rw [Slot.maxPointer] at reached
  have word : BigEndian.encode32 (Int32.ofNat start).toUInt32 = BigEndian.encode 4 start :=
    (BigEndian.encode_ofNat (by omega)).symm
  -- the offset is put over the first four zeros, whatever is behind them
  have pointer (rest : List UInt8) (low : a.length + 4 ≤ start) :
      overwrite (·.patch32 a.length (Int32.ofNat start))
        ⟨.ofList (a ++ List.replicate 4 0 ++ rest), asked⟩
        = .ok () ⟨.ofList (a ++ BigEndian.encode 4 start ++ rest), asked⟩ := by
    refine overwrite_ofList ?_ asked
    rw [Arena.patch32, word]
    refine Arena.writeAt_ofList (by simp) ?_
    rw [List.length_replicate, UInt64.size]
    omega
  cases pinned with
  | true =>
    refine (run_bind_of_ok (pointer b behind)).trans ?_
    simp only [Slot.encode, Slot.pointerSize, if_true, List.append_nil]
    rfl
  | false =>
    have low : a.length + 4 + 1 ≤ start := behind
    have zeros : a ++ Slot.encode false none ++ b = a ++ List.replicate 4 0 ++ ([0] ++ b) := by
      simp [Slot.encode, Slot.size, Slot.openSize, Slot.pointerSize, Slot.tagSize]
    rw [zeros]
    refine (run_bind_of_ok (pointer ([0] ++ b) (by omega))).trans ?_
    have place : (a ++ BigEndian.encode 4 start).length = a.length + Slot.pointerSize := by
      rw [List.length_append, BigEndian.length_encode, Slot.pointerSize]
    rw [if_neg Bool.false_ne_true]
    have tagged : (Arena.ofList (a ++ BigEndian.encode 4 start ++ [0] ++ b)).writeAt _ [tag.id]
        = .ok (.ofList (a ++ BigEndian.encode 4 start ++ [tag.id] ++ b)) :=
      Arena.writeAt_ofList rfl (by
        rw [place, Slot.pointerSize, List.length_singleton, UInt64.size]
        omega)
    rw [place] at tagged
    refine overwrite_ofList ?_ asked
    rw [← List.append_assoc, tagged]
    simp [Slot.encode, Slot.pointerSize]

/-! ### The bodies -/

/-- A slot without a body stays empty. -/
theorem fill_none {member : Member} (there : (member.entry write).body = none) (slot : Nat) :
    fill write.placed member slot = pure () := by
  rw [Member.entry, Encoding.writeSlotBody] at there
  split at there
  · next isNull => exact if_pos isNull
  · cases there

/-- Filling in a slot is writing the body for it and patching the slot. -/
theorem fill_placed {member : Member} {body : Encoder TypeTag}
    (some : (member.entry write).body = some body) (slot : Nat) :
    fill write.placed member slot
      = here >>= fun start => of body >>= fun tag => patch member.pinned slot start tag := by
  rw [Member.entry, Encoding.writeSlotBody] at some
  rw [fill]
  split at some
  · cases some
  · next notNull =>
    rw [if_neg notNull]
    cases some
    rw [of_bind, of_position]
    funext space
    cases member.tag with
    | error reason => rfl
    | ok tag =>
      -- what is left is to regroup the sequence: the place, the body, the check, and then the slot
      show (write.placed _ _ _ _ >>= fun _ => _ >>= fun _ => _) space
        = (of (_ >>= fun _ => _ >>= fun _ => _) >>= _) space
      rw [of_bind, bind_assoc]
      refine congrFun (congrArg (of _ >>= ·) (funext fun _ => ?_)) space
      rw [of_bind, bind_assoc, of_pure]
      rfl

/-- Behind a body that was written the slot holds where that body began. -/
theorem fill_of_ok {member : Member} {body : Encoder TypeTag} {a b bytes : List UInt8}
    {asked calls : List LinkTarget} {tag : TypeTag}
    (there : (member.entry write).body = some body)
    (run : body (a ++ Slot.encode member.pinned none ++ b).length asked = ⟨bytes, calls, .ok tag⟩) :
    fill write.placed member a.length ⟨.ofList (a ++ Slot.encode member.pinned none ++ b), asked⟩
      = .ok () ⟨.ofList (a ++ Slot.encode member.pinned
          (some ⟨(a ++ Slot.encode member.pinned none ++ b).length, tag⟩) ++ (b ++ bytes)),
          asked ++ calls⟩ := by
  -- a body that was written whole passed the check of its place, so the slot can hold that
  have reached : (a ++ Slot.encode member.pinned none ++ b).length ≤ Slot.maxPointer := by
    cases SlotBody.of_eq_ok there run with
    | body _ _ _ reached => exact reached
  have written : of body ⟨.ofList (a ++ Slot.encode member.pinned none ++ b), asked⟩
      = .ok tag ⟨.ofList (a ++ Slot.encode member.pinned none ++ (b ++ bytes)), asked ++ calls⟩ := by
    rw [of_ofList, run, ← List.append_assoc (a ++ _)]
    rfl
  rw [fill_placed write there]
  refine (run_bind_of_ok rfl).trans ((run_bind_of_ok written).trans ?_)
  refine patch_ofList member.pinned tag (asked ++ calls) reached ?_
  rw [Arena.size_ofList, List.length_append, List.length_append, Slot.length_encode]
  omega

/-- Behind a body that could not be written the slot is still empty. -/
theorem fill_of_error {member : Member} {body : Encoder TypeTag} {before bytes : List UInt8}
    {asked calls : List LinkTarget} {e : CodecError} (there : (member.entry write).body = some body)
    (run : body before.length asked = ⟨bytes, calls, .error e⟩) (slot : Nat) :
    fill write.placed member slot ⟨.ofList before, asked⟩
      = .error (.codec e) ⟨.ofList (before ++ bytes), asked ++ calls⟩ := by
  have written : of body ⟨.ofList before, asked⟩
      = .error (.codec e) ⟨.ofList (before ++ bytes), asked ++ calls⟩ := by
    rw [of_ofList, run]
    rfl
  rw [fill_placed write there]
  exact (run_bind_of_ok rfl).trans (run_bind_of_error written)

/-- One slot after the other is filled in, and what stands in the arena is the header with the
fillings so far and the bodies so far.  The induction is on the members that are left; `front` is
what stands before their entries, and `back` the rest of the header with the bodies before
theirs. -/
theorem fillAll_placed (members : List Member) : ∀ (front back : List UInt8)
    {asked calls : List LinkTarget} {fillings : List (Option Filling)} {bytes : List UInt8}
    {result : Except CodecError Unit},
    Bodies.write ((members.map (Member.entry write)).map (·.body))
      (front ++ Entry.encodeAll (members.map (Member.entry write)) [] ++ back).length asked
      = ⟨fillings, bytes, calls, result⟩ →
    fillAll write.placed (slotsFrom front.length members)
        ⟨.ofList (front ++ Entry.encodeAll (members.map (Member.entry write)) [] ++ back), asked⟩
      = outcome result ⟨.ofList (front ++ Entry.encodeAll (members.map (Member.entry write)) fillings
          ++ back ++ bytes), asked ++ calls⟩ := by
  induction members with
  | nil =>
    intro front back asked calls fillings bytes result run
    cases run
    simp only [List.map_nil, Entry.encodeAll, List.append_nil]
    rfl
  | cons member rest ih =>
    intro front back asked calls fillings bytes result run
    have step : fillAll write.placed (slotsFrom front.length (member :: rest))
        = fill write.placed member (front.length + member.label.length) >>= fun _ =>
          fillAll write.placed
            (slotsFrom (front.length + member.label.length + Slot.size member.pinned) rest) := rfl
    have shape (fillings : List (Option Filling)) :
        front ++ Entry.encodeAll ((member :: rest).map (Member.entry write)) fillings
          = front ++ member.label ++ Slot.encode member.pinned fillings.head?.join
            ++ Entry.encodeAll (rest.map (Member.entry write)) fillings.tail := by
      rw [Member.encodeAll_cons]
      simp only [List.append_assoc]
    have next (filling : Option Filling) :
        (front ++ member.label).length + Slot.size member.pinned
          = (front ++ member.label ++ Slot.encode member.pinned filling).length := by
      rw [List.length_append, List.length_append, List.length_append, Slot.length_encode]
    rw [shape, List.append_assoc (_ ++ Slot.encode _ _)] at run
    rw [step, shape, shape, ← List.length_append, List.append_assoc (_ ++ Slot.encode _ _)]
    rw [List.map_cons, List.map_cons] at run
    -- the label is behind us, and the slot is the next thing to be filled in
    generalize front ++ member.label = a at run next ⊢
    rw [List.head?_nil, Option.join_none, List.tail_nil] at run ⊢
    cases there : (member.entry write).body with
    | none =>
      rw [there, Bodies.write] at run
      rcases later : Bodies.write _ _ _ with ⟨fillings₂, bytes₂, calls₂, result₂⟩
      rw [later] at run
      cases run
      -- a null member leaves its slot as it was
      rw [← List.append_assoc (a ++ _)] at later
      have others := ih _ back later
      rw [fill_none write there, pure_bind, next none, ← List.append_assoc (a ++ _)]
      exact others
    | some body =>
      rw [there, Bodies.write] at run
      rcases emitted : body _ _ with ⟨bytes₁, calls₁, result₁⟩
      rw [emitted] at run
      cases result₁ with
      | error e =>
        cases run
        -- the slot of a member that failed stays empty, and so do those behind it
        refine (run_bind_of_error (fill_of_error write there emitted _)).trans ?_
        rw [← List.append_assoc (a ++ _)]
        rfl
      | ok tag =>
        dsimp only at run
        rcases later : Bodies.write _ _ _ with ⟨fillings₂, bytes₂, calls₂, result₂⟩
        rw [later] at run
        cases run
        refine (run_bind_of_ok (fill_of_ok write there emitted)).trans ?_
        -- the body went behind all that stood there, and now the slot points at it
        generalize filled : some (Filling.mk _ tag) = filling
        have behind : (a ++ Slot.encode member.pinned none
            ++ (Entry.encodeAll (rest.map (Member.entry write)) [] ++ back)).length + bytes₁.length
            = (a ++ Slot.encode member.pinned filling
              ++ Entry.encodeAll (rest.map (Member.entry write)) [] ++ (back ++ bytes₁)).length := by
          simp only [List.length_append, Slot.length_encode]
          omega
        rw [behind] at later
        have others := ih _ _ later
        rw [← next filling] at others
        simp only [List.append_assoc] at others ⊢
        exact others

/-- A table that is written in place is the table that is emitted. -/
theorem writeTable_placed (head : List UInt8) (members : List Member) (tail : List UInt8) :
    writeTable write.placed head members tail
      = of (DocumentCodec.writeTable head (members.map (Member.entry write)) tail) := by
  funext ⟨arena, asked⟩
  rw [← arena.ofList_toList, of_ofList]
  generalize arena.toList = before
  -- the bodies begin where the bytes end that are there when the slots are reserved
  have size : before.length + (head.length + Entry.sizeAll (members.map (Member.entry write))
      + tail.length)
      = (before ++ head ++ Entry.encodeAll (members.map (Member.entry write)) [] ++ tail).length := by
    simp only [List.length_append, Entry.length_encodeAll]
    omega
  rw [DocumentCodec.writeTable, size]
  rcases run : Bodies.write _ _ _ with ⟨fillings, bytes, calls, result⟩
  have filled := fillAll_placed write members (before ++ head) tail run
  refine (run_bind_of_ok (append_ofList _ _ _)).trans ?_
  refine (run_bind_of_ok (reserve_ofList write members _ _)).trans ?_
  refine (run_bind_of_ok (append_ofList _ _ _)).trans (filled.trans ?_)
  simp only [List.append_assoc]

theorem writeRecord_placed (context : Context) (record : Record) :
    writeRecord context write.placed record = of (Encoding.writeRecord context write record) := by
  rw [writeRecord, writeTable_placed, Encoding.writeRecord_eq]

theorem writeMap_placed (field : String) (members : List (String × Value)) :
    writeMap write.placed field members = of (Encoding.writeMap write field members) := by
  rw [writeMap, writeTable_placed, Encoding.writeMap_eq]

/-! ### Level by level -/

/-- One level more of containers. -/
theorem writeBodyWith_placed (context : Context) (inner : Except CodecError BodyWriter) :
    writeBodyWith context (inner.map BodyWriter.placed)
      = (Encoding.writeBodyWith context inner).placed := by
  funext field tag linked value
  cases inner with
  | error e =>
    -- a container is refused for the level, and any other value is no container
    cases tag with
    | embedded | embeddedList | embeddedSet | embeddedMap => cases value <;> rfl
    | _ => rfl
  | ok write =>
    cases tag with
    | embedded =>
      cases value with
      | embedded record => exact writeRecord_placed write context record
      | serializable className record =>
        exact writeRecord_placed write context (Encoding.markedRecord className record)
      | _ => rfl
    | embeddedList | embeddedSet =>
      cases value with
      | embeddedList items | embeddedSet items => exact writeItems_placed write field linked items
      | _ => rfl
    | embeddedMap =>
      cases value with
      | embeddedMap members => exact writeMap_placed write field members
      | _ => rfl
    | _ => rfl

/-- **Every body is written in place as it is emitted**, however deep it nests. -/
theorem writeBody_placed (context : Context) (room : Nat) :
    writeBody context room = (Encoding.writeBody context room).placed := by
  induction room with
  | zero => exact writeBodyWith_placed context (.error context.tooDeep)
  | succ room ih =>
    rw [writeBody, ih]
    exact writeBodyWith_placed context (.ok (Encoding.writeBody context room))

end InPlace
namespace Record

/-- **Writing in place is encoding into the arena.**  It ends as the encoding does, with the same
answer or the same failure, the same bytes in the arena and the same calls; so it never ends because
a write in place was refused. -/
theorem writeInPlace_eq (context : Context) (record : Record) (arena : Arena)
    (earlier : List LinkTarget) :
    record.writeInPlace context ⟨arena, earlier⟩
      = let (result, final, calls) := record.encodeInto context arena earlier
        Writer.outcome result ⟨final, earlier ++ calls⟩ := by
  rw [writeInPlace, InPlace.writeBody_placed, InPlace.writeRecord_placed, encodeInto, emission]
  refine (run_bind_of_ok rfl).trans ?_
  generalize Encoding.writeRecord _ _ record = encoder
  rcases emitted : encoder arena.size earlier with ⟨bytes, calls, result⟩
  have written : Writer.of encoder ⟨arena, earlier⟩
      = Writer.outcome result ⟨(arena.append bytes).2, earlier ++ calls⟩ := by
    rw [Writer.of, emitted]
  cases result with
  | ok _ => exact run_bind_of_ok written
  | error e => exact run_bind_of_error written

end Record
end DocumentCodec
