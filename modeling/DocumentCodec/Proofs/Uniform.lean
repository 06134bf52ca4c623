import DocumentCodec.Proofs.BackToBack
import DocumentCodec.Proofs.Layout
/-!
# Lists with one tag for all elements

A list or set is read in two forms.  In the one that is written, each element stands behind a tag of
its own; in the other, which no writer makes, one tag in front is declared for them all.  Both are
read as the same list, or neither can be read.

The bytes cannot be compared: the elements stand at other offsets, and a record or a map holds
pointers, which are absolute.  Each form is read back as what is recalled of the elements, in which
neither bytes nor offsets occur.  Without a tag in front, an element has to say itself where it
ends, and none may be empty, or there could be more of them than an input has bytes.
-/

namespace DocumentCodec

/-! ## The two forms -/

namespace Encoding

/-- Writes elements one behind the other, behind their number and the tag that is declared for them
all. -/
def writeElements (declared : TypeTag) (write : Value → Encoder Unit) (items : List Value) :
    Encoder Unit := do
  Encoder.varint items.length
  Encoder.byte declared.id
  items.forM write

/-- Writes an element behind its tag. -/
def writeBehindTag (inner : BodyWriter) (field : String) (tag : TypeTag) (linked : Option TypeTag)
    (item : Value) : Encoder Unit := do
  Encoder.byte tag.id
  inner field tag linked item

/-- Writes elements under a tag that is written once. -/
def writeUniform (inner : BodyWriter) (field : String) (tag : TypeTag) (linked : Option TypeTag) :
    List Value → Encoder Unit :=
  writeElements tag (inner field tag linked)

/-- Writes elements under a tag that each of them is told again. -/
def writeTagged (inner : BodyWriter) (field : String) (tag : TypeTag) (linked : Option TypeTag) :
    List Value → Encoder Unit :=
  writeElements .any (writeBehindTag inner field tag linked)

/-- Elements are written in this form when a schema declares the tag for them. -/
theorem writeItems_declared {inner : BodyWriter} {field : String} {tag : TypeTag}
    (concrete : tag.isConcrete = true) {items : List Value}
    (kept : ∀ item ∈ items, item.isNull = false ∧ item.isTransient = false) :
    writeItems inner field (some tag) items = writeTagged inner field tag none items := by
  have all : items.filter (!·.isTransient) = items :=
    List.filter_eq_self.mpr fun item there => by rw [(kept item there).2, Bool.not_false]
  have each : items.forM (writeItem inner field ((some tag).filter (·.isConcrete)))
      = items.forM (writeBehindTag inner field tag none) := by
    rw [Option.filter_some_pos concrete]
    -- the induction is on the elements, and `all` speaks of the whole list
    clear all
    induction items with
    | nil => rfl
    | cons item rest ih =>
      have notNull := (kept item List.mem_cons_self).1
      have first : writeItem inner field (some tag) item
          = writeBehindTag inner field tag none item := by
        rw [writeItem, if_neg (Bool.eq_false_iff.mp notNull)]
        rfl
      rw [Encoder.forM_cons, Encoder.forM_cons, first,
        ih fun other there => kept other (List.mem_cons_of_mem _ there)]
  rw [writeItems, all, each]
  rfl

variable {context : Context} {start : Nat} {earlier calls : List LinkTarget} {bytes : List UInt8}

/-- Elements stand behind their number and the tag that they are declared under. -/
theorem writeElements_eq_ok {declared : TypeTag} {write : Value → Encoder Unit} {items : List Value}
    (run : writeElements declared write items start earlier = ⟨bytes, calls, .ok ()⟩) :
    ∃ elements, items.forM write (start + (Varint.encode (UInt64.ofNat items.length)).length + 1)
        earlier = ⟨elements, calls, .ok ()⟩ ∧
      bytes = Varint.encode (UInt64.ofNat items.length) ++ ([declared.id] ++ elements) := by
  obtain ⟨rest, written, rfl⟩ := Encoder.emit_bind_eq_ok run
  obtain ⟨elements, each, rfl⟩ := Encoder.emit_bind_eq_ok written
  exact ⟨elements, each, rfl⟩

/-- No body is empty, whatever its kind. -/
theorem length_pos_body {room : Nat} {field : String} {tag : TypeTag} {linked : Option TypeTag}
    {value : Value}
    (run : writeBody context room field tag linked value start earlier = ⟨bytes, calls, .ok ()⟩) :
    0 < bytes.length := by
  have holds : Holds (List.replicate start 0 ++ bytes) start bytes :=
    ⟨List.replicate start 0, [], (List.append_nil _).symm, List.length_replicate⟩
  exact ((lays_body room).laid run holds).1

end Encoding

/-! ## What is recalled of them

Either form is read back as the elements that were written, so they can be compared with each other
through those alone. -/

namespace Recall

/-- The elements of a list, all under one tag. -/
def elements (inner : BodyRecall) (tag : TypeTag) (linked : Option TypeTag) (items : List Value) :
    Recalling (List Value) := do
  let _ ← length items.length
  items.mapM (inner tag linked)

end Recall

namespace Recalls

variable {context : Context} {exact : Prop} {input : List UInt8} {room : Nat} {read : BodyReader}
  {remember : BodyRecall} {field : String} {tag : TypeTag} {linked : Option TypeTag}
  {items : List Value} {start : Nat} {earlier calls : List LinkTarget} {bytes : List UInt8}
  (restores : Restores context exact input (Encoding.writeBody context room) read remember)
  (small : input.length < 2 ^ 63) (declared : tag ≠ .any)
  (readable : ∀ item ∈ items, ∀ w ∈ item.written context tag linked, Readable w)
include restores small declared readable

/-- **The bare form comes back**: where the tag in front declares the elements, none has a tag of
its own. -/
theorem uniform (stored : tag ≠ .transient)
    (run : Encoding.writeUniform (Encoding.writeBody context room) field tag linked items start earlier
      = ⟨bytes, calls, .ok ()⟩) :
    Recalls exact context.RefusesWith input (Decoding.readItems input read) start bytes
      (Recall.elements remember tag linked items) earlier (earlier ++ calls) := by
  obtain ⟨bodies, each, rfl⟩ := Encoding.writeElements_eq_ok run
  have whole : Decoding.readItem input read tag = read tag := by
    rw [Decoding.readItem, Decoding.readItemTag, if_neg declared, pure_bind, if_neg declared]
  refine elements small stored items (fun item there _ _ _ _ written => ?_) each
  rw [whole]
  exact ⟨Encoding.length_pos_body written, restores.back written (readable item there)⟩

/-- **So does the form with a tag for each**, as the tag in front declares nothing. -/
theorem tagged
    (run : Encoding.writeTagged (Encoding.writeBody context room) field tag linked items start earlier
      = ⟨bytes, calls, .ok ()⟩) :
    Recalls exact context.RefusesWith input (Decoding.readItems input read) start bytes
      (Recall.elements remember tag linked items) earlier (earlier ++ calls) := by
  obtain ⟨bodies, each, rfl⟩ := Encoding.writeElements_eq_ok run
  refine elements small (by decide) items (fun item there _ _ _ _ written => ?_) each
  obtain ⟨body, own, rfl⟩ := Encoder.emit_bind_eq_ok written
  exact ⟨Nat.succ_pos _, behindTag declared (restores.back own (readable item there))⟩

end Recalls

/-! ## Read alike -/

/-- What is recalled is the same in two places, or is nothing in both. -/
theorem Steady.cases {α : Type} {x : Recalling α} (steady : Steady x)
    (earlier earlier' : List LinkTarget) :
    (∃ made last last', x earlier = some (made, last) ∧ x earlier' = some (made, last')) ∨
      (x earlier = none ∧ x earlier' = none) := by
  cases recalled : x earlier with
  | some answer =>
    obtain ⟨made, last⟩ := answer
    obtain ⟨last', recalled'⟩ := steady earlier earlier' made last recalled
    exact Or.inl ⟨made, last, last', rfl, recalled'⟩
  | none =>
    refine Or.inr ⟨rfl, ?_⟩
    cases recalled' : x earlier' with
    | some answer =>
      obtain ⟨last, back⟩ := steady earlier' earlier answer.1 answer.2 recalled'
      rw [recalled] at back
      cases back
    | none => rfl

/-- Where something steady is recalled of what two inputs hold, both are read as it; and where
nothing is, neither can be read. -/
theorem Recalls.agree {α : Type} {read read' : Decoder α} {x : Recalling α}
    {said : Failure → Prop} {input input' bytes bytes' : List UInt8}
    {start start' visited visited' : Nat} {earlier last earlier' last' : List LinkTarget}
    (steady : Steady x)
    (recalls : ∀ exact, Recalls exact said input read start bytes x earlier last)
    (recalls' : ∀ exact, Recalls exact said input' read' start' bytes' x earlier' last')
    (holds : Holds input start bytes) (holds' : Holds input' start' bytes')
    (budget : visited + bytes.length ≤ input.length)
    (budget' : visited' + bytes'.length ≤ input'.length) :
    (∃ made, read ⟨start, visited⟩ = .ok made ⟨start + bytes.length, visited + bytes.length⟩ ∧
      read' ⟨start', visited'⟩ = .ok made ⟨start' + bytes'.length, visited' + bytes'.length⟩) ∨
    ((∃ e there, read ⟨start, visited⟩ = .error e there) ∧
      ∃ e there, read' ⟨start', visited'⟩ = .error e there) := by
  have first := Recalls.cases recalls holds budget
  have second := Recalls.cases recalls' holds' budget'
  -- what is recalled does not hang on the links before it, so both sides recall the same or nothing
  rcases steady.cases earlier earlier' with ⟨made, mid, mid', recalled, recalled'⟩ | ⟨none, none'⟩
  · rw [recalled] at first
    rw [recalled'] at second
    rcases first with ⟨made₁, same, run⟩ | ⟨nothing, -⟩
    · rcases second with ⟨made₂, same', run'⟩ | ⟨nothing, -⟩
      · cases same
        cases same'
        exact Or.inl ⟨made, run, run'⟩
      · cases nothing
    · cases nothing
  · rw [none] at first
    rw [none'] at second
    rcases first with ⟨made₁, same, -⟩ | ⟨-, failed⟩
    · cases same
    · rcases second with ⟨made₂, same', -⟩ | ⟨-, failed'⟩
      · cases same'
      · exact Or.inr ⟨failed, failed'⟩

/-- **A list with one tag for all its elements is read as the list with a tag for each,** wherever
the two stand: both readings give the same list or set and end behind the last element with each
byte handed out once, or both fail.  The elements are any that are written under the tag, one level
below the list; what they hold is well formed, as it always is, and each field in them has a
name. -/
theorem read_uniform_tagged {context : Context} {room : Nat} {field : String} {tag kind : TypeTag}
    {linked : Option TypeTag} {items : List Value} {input input' bytes bytes' : List UInt8}
    {start start' visited visited' : Nat} {earlier earlier' calls calls' : List LinkTarget}
    (declared : tag ≠ .any) (stored : tag ≠ .transient) (sort : kind.isSequence = true)
    (formed : ∀ item ∈ items, item.isWellFormed = true)
    (named : ∀ item ∈ items, ∀ w ∈ item.written context tag linked, ∀ record,
      heldRecord w = some record → ∀ field ∈ record.fields, field.name ≠ "")
    (built : ∀ schema, context.schema = some schema → schema.IsBuilt)
    (stateless : ∀ resolve, context.resolver = some resolve → resolve.IsStateless)
    (uniform : Encoding.writeUniform (Encoding.writeBody context room) field tag linked items start
      earlier = ⟨bytes, calls, .ok ()⟩)
    (tagged : Encoding.writeTagged (Encoding.writeBody context room) field tag linked items start'
      earlier' = ⟨bytes', calls', .ok ()⟩)
    (holds : Holds input start bytes) (holds' : Holds input' start' bytes')
    (small : input.length < 2 ^ 63) (small' : input'.length < 2 ^ 63)
    (budget : visited + bytes.length ≤ input.length)
    (budget' : visited' + bytes'.length ≤ input'.length) :
    (∃ made, Decoding.readBody context input (room + 1) kind ⟨start, visited⟩
        = .ok made ⟨start + bytes.length, visited + bytes.length⟩ ∧
      Decoding.readBody context input' (room + 1) kind ⟨start', visited'⟩
        = .ok made ⟨start' + bytes'.length, visited' + bytes'.length⟩) ∨
    ((∃ e there, Decoding.readBody context input (room + 1) kind ⟨start, visited⟩ = .error e there) ∧
      ∃ e there, Decoding.readBody context input' (room + 1) kind ⟨start', visited'⟩
        = .error e there) := by
  have coherent (schema : Snapshot) (known : context.schema = some schema) : schema.IsCoherent :=
    (built schema known).isCoherent
  have readable (item : Value) (there : item ∈ items) (w : TypeTag × Value)
      (inside : w ∈ item.written context tag linked) : Readable w :=
    ⟨item.isWellFormed_written context tag linked (formed item there) w inside,
      named item there w inside⟩
  -- what is recalled does not depend on what the resolver was asked before, which is not the same
  -- for both forms
  have steady : Steady (Recall.elements (Recall.body context room) tag linked items) :=
    (Steady.length _).bind fun _ => Steady.mapM (Steady.body stateless room tag linked) items
  -- each form is read back as that, so the two agree
  have first (exact : Prop) : Recalls exact context.RefusesWith input _ start bytes _ earlier _ :=
    Recalls.uniform (restores_body coherent small room) small declared readable stored uniform
  have second (exact : Prop) :
      Recalls exact context.RefusesWith input' _ start' bytes' _ earlier' _ :=
    Recalls.tagged (restores_body coherent small' room) small' declared readable tagged
  rcases TypeTag.isSequence_iff.mp sort with rfl | rfl
  · exact Recalls.agree steady.map (fun exact => (first exact).map) (fun exact => (second exact).map)
      holds holds' budget budget'
  · exact Recalls.agree steady.map (fun exact => (first exact).map) (fun exact => (second exact).map)
      holds holds' budget budget'

/-- Two records behind two bytes of something else; their pointers differ between the forms. -/
theorem read_uniform_tagged_of_records :
    let items : List Value := [.embedded ⟨none, RecordId.empty, [⟨"a", .byte 5, none⟩], true⟩,
      .embedded ⟨none, RecordId.empty, [⟨"b", .boolean true, none⟩], true⟩]
    let bytes : List UInt8 := [2, 9, 0, 1, 97, 0, 0, 0, 13, 17, 0, 5, 0, 1, 98, 0, 0, 0, 23, 0, 0, 1]
    let bytes' : List UInt8 := [2, 23, 9, 0, 1, 97, 0, 0, 0, 14, 17, 0, 5, 9, 0, 1, 98, 0, 0, 0, 25, 0,
      0, 1]
    Encoding.writeUniform (Encoding.writeBody {} 1) "l" .embedded none items 2 []
        = ⟨bytes, [], .ok ()⟩ ∧
      Encoding.writeTagged (Encoding.writeBody {} 1) "l" .embedded none items 2 []
        = ⟨bytes', [], .ok ()⟩ ∧
      ∃ made, Decoding.readBody {} ([9, 9] ++ bytes) 2 .embeddedList ⟨2, 0⟩ = .ok made ⟨24, 22⟩ ∧
        Decoding.readBody {} ([9, 9] ++ bytes') 2 .embeddedList ⟨2, 0⟩ = .ok made ⟨26, 24⟩ := by
  intro items bytes bytes'
  have uniform : Encoding.writeUniform (Encoding.writeBody {} 1) "l" .embedded none items 2 []
      = ⟨bytes, [], .ok ()⟩ := by
    subst items bytes
    rfl
  have tagged : Encoding.writeTagged (Encoding.writeBody {} 1) "l" .embedded none items 2 []
      = ⟨bytes', [], .ok ()⟩ := by
    subst items bytes'
    rfl
  have holds : Holds ([9, 9] ++ bytes) 2 bytes := ⟨[9, 9], [], rfl, rfl⟩
  have holds' : Holds ([9, 9] ++ bytes') 2 bytes' := ⟨[9, 9], [], rfl, rfl⟩
  have sort : TypeTag.embeddedList.isSequence = true := rfl
  have budget : 0 + bytes.length ≤ ([9, 9] ++ bytes).length := by decide
  have budget' : 0 + bytes'.length ≤ ([9, 9] ++ bytes').length := by decide
  refine ⟨uniform, tagged, ?_⟩
  rcases read_uniform_tagged (by decide) (by decide) sort (by decide) (by decide)
    (fun _ none => by cases none) (fun _ none => by cases none) uniform tagged holds holds' (by decide)
    (by decide) budget budget' with both | ⟨⟨e, there, failed⟩, -⟩
  · exact both
  · let succeeds : EStateM.Result Failure Cursor Value → Bool
      | .ok _ _ => true
      | .error _ _ => false
    have read : succeeds (Decoding.readBody {} ([9, 9] ++ bytes) 2 .embeddedList ⟨2, 0⟩) = true := by
      decide +kernel
    rw [failed] at read
    cases read

end DocumentCodec
