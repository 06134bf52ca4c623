import DocumentCodec.Proofs.RoundTrip
/-!
# Readings that go alike in two inputs

A reading that goes back over what was written looks at the bytes that it was written as, and at the
length of the input.  So where another input of that length has these bytes too, the reading repeats
itself there, with the same answer or the same failure, and it leaves the same cursor; what the
inputs hold elsewhere plays no part.

`Repeats` is closed under sequences as `ReadsBack` is.  A first part that answers with what is known
to be written repeats itself in any input, so only the readings that may fail are looked into here:
those of days and of an application's own objects.
-/

namespace DocumentCodec

/-! ## Where two inputs agree

Agreement on a stretch is agreement on each part of it, and bytes that stand in one input stand in
the other. -/

/-- The inputs agree from one offset up to another. -/
def AgreeOn (input other : List UInt8) (start last : Nat) : Prop :=
  ∀ offset, start ≤ offset → offset < last → other[offset]? = input[offset]?

section Agreement

variable {input other bytes : List UInt8} {start last start' last' : Nat}

theorem AgreeOn.mono (agree : AgreeOn input other start last) (low : start ≤ start')
    (high : last' ≤ last) : AgreeOn input other start' last' :=
  fun offset above below => agree offset (by omega) (by omega)

/-- What one input holds where they agree the other one holds as well. -/
theorem Holds.of_agreeOn (holds : Holds input start bytes)
    (agree : AgreeOn input other start (start + bytes.length))
    (same : other.length = input.length) : Holds other start bytes := by
  have inside := holds.bound
  -- byte by byte, the other input has the same ones there
  have middle : (other.drop start).take bytes.length = bytes := by
    obtain ⟨before, after, rfl, rfl⟩ := holds
    refine List.ext_getElem? fun offset => ?_
    by_cases within : offset < bytes.length
    · rw [List.getElem?_take_of_lt within, List.getElem?_drop, agree _ (by omega) (by omega),
        List.append_assoc, List.getElem?_append_right (by omega), Nat.add_sub_cancel_left,
        List.getElem?_append_left within]
    · rw [List.getElem?_eq_none (by rw [List.length_take]; omega),
        List.getElem?_eq_none (by omega)]
  refine ⟨other.take start, (other.drop start).drop bytes.length, ?_, ?_⟩
  · have split := List.take_append_drop bytes.length (other.drop start)
    rw [middle] at split
    rw [List.append_assoc, split, List.take_append_drop]
  · rw [List.length_take]
    omega

end Agreement

/-! ## Readings that go alike

That a reading repeats itself is said where its bytes are, and of the length of the input, since
that is all it can see.  Bytes read on the way decide what is read next, so they are read alike as
well. -/

/-- Standing where the input holds `bytes` and the other one agrees with it, the reading goes alike
in both. -/
def Repeats {α : Type} (input other : List UInt8) (read : List UInt8 → Decoder α) (start : Nat)
    (bytes : List UInt8) : Prop :=
  Holds input start bytes → AgreeOn input other start (start + bytes.length) →
    ∀ visited, visited + bytes.length ≤ input.length →
      read other ⟨start, visited⟩ = read input ⟨start, visited⟩

/-- What is read back exactly is read back. -/
theorem ReadsBack.loosen {α : Type} {exact : Prop} {said said' : Failure → Prop}
    {input bytes : List UInt8} {read : Decoder α} {start : Nat} {p : α → Prop}
    (back : ReadsBack True said input read start bytes p) :
    ReadsBack exact said' input read start bytes p := by
  intro holds visited room
  obtain ⟨a, run, fact⟩ := (back holds visited room).of_exact
  rw [run]
  exact ⟨rfl, fact⟩

/-- What is recalled for certain is read back. -/
theorem Recalls.known {α : Type} {exact : Prop} {said : Failure → Prop}
    {input bytes : List UInt8} {read : Decoder α} {start : Nat} {last last' : List LinkTarget}
    {remember : Recalling α} {a : α} (earlier : List LinkTarget)
    (recalls : Recalls exact said input read start bytes remember earlier last)
    (recalled : remember earlier = some (a, last')) :
    ReadsBack exact said input read start bytes (· = a) := by
  refine (recalls fun _ => by rw [recalled]; rfl).mono fun made same => ?_
  rw [recalled] at same
  cases same
  rfl

namespace ReadsBack

variable {input : List UInt8} {start : Nat} (small : input.length < 2 ^ 31)
include small

/-- Text comes back as it was, whatever the factories say, since none is called. -/
theorem string (text : String) : ReadsBack True Failure.Unsaid input (Cursor.string input) start
    (Varint.encode (UInt64.ofNat (Utf8.encode text).length) ++ Utf8.encode text) (· = text) := by
  refine .of_holds fun holds => ?_
  have inside := holds.right.bound
  exact (Recalls.string (by omega) text).known [] (Recall.string_eq_some.mpr ⟨by omega, rfl, rfl⟩)

/-- So do bytes. -/
theorem binary (bytes : List UInt8) :
    ReadsBack True Failure.Unsaid input (Cursor.binary input) start
    (Varint.encode (UInt64.ofNat bytes.length) ++ bytes) (· = bytes) := by
  refine .of_holds fun holds => ?_
  have inside := holds.right.bound
  exact (Recalls.binary (by omega) bytes).known [] (Recall.binary_eq_some.mpr ⟨by omega, rfl, rfl⟩)

/-- So does the key of a map. -/
theorem mapKey (key : String) :
    ReadsBack True Failure.Unsaid input (Decoding.readMapKey input) start
    (Encoding.keyBytes key) (· = key) := by
  refine .of_holds fun holds => ?_
  have inside := holds.bound
  have longer := Encoding.length_le_keyBytes key
  exact (Recalls.mapKey (by omega) key).known [] (Recall.string_eq_some.mpr ⟨by omega, rfl, rfl⟩)

/-- The label of a field tells its name and whether the schema pins its type. -/
theorem heading {context : Context} {className : Option String} {field : Field}
    (coherent : ∀ schema, context.schema = some schema → schema.IsCoherent)
    (named : field.name ≠ "") :
    ReadsBack True Failure.Unsaid input (Decoding.readHeading context input) start
      (Member.ofField context className field).label
      (· = some ⟨field.name, pinnedTag context className field.name⟩) := by
  refine .of_holds fun holds => ?_
  have inside := holds.bound
  have label : (Member.ofField context className field).label
      = (Encoding.fieldEntry context (Encoding.writeBody context 0) className field).label := by
    rw [Encoding.fieldEntry_eq, Member.entry]
  have short : Recall.heading context className field.name [] = some ((), []) :=
    Recall.heading_of_short (by omega)
  rw [label]
  exact (Recalls.heading (by omega) coherent named).known [] (Recalling.run_pure_bind_map short)

end ReadsBack

namespace Repeats

variable {α β γ : Type} {said : Failure → Prop} {input other bytes more : List UInt8} {start : Nat}
  {read : List UInt8 → Decoder α} {f : List UInt8 → α → Decoder β} {p : α → Prop} {a : α}

theorem const (x : Decoder α) : Repeats input other (fun _ => x) start bytes := fun _ _ _ _ => rfl

/-- **Sequences.**  That the first part is repeated is not enough for the second one: it has to go
on where it did, with an answer that was written, which is what `back` says. -/
theorem bind (first : Repeats input other read start bytes)
    (back : ReadsBack False said input (read input) start bytes p)
    (second : ∀ a, p a → Repeats input other (fun i => f i a) (start + bytes.length) more) :
    Repeats input other (fun i => read i >>= f i) start (bytes ++ more) := by
  intro holds agree visited room
  rw [List.length_append] at agree room
  have here := first holds.left (agree.mono (Nat.le_refl _) (by omega)) visited (by omega)
  refine run_bind_congr here fun a there run => ?_
  have ends := back holds.left visited (by omega)
  rw [run] at ends
  obtain ⟨rfl, fact⟩ := ends
  exact second a fact holds.right (agree.mono (by omega) (by omega)) _ (by omega)

/-- What is made of an answer does not depend on the input. -/
theorem andThen (first : Repeats input other read start bytes) (g : α → Decoder β) :
    Repeats input other (fun i => read i >>= g) start bytes :=
  fun holds agree visited room =>
    run_bind_congr (first holds agree visited room) fun _ _ _ => rfl

theorem offset_bind {f : List UInt8 → Nat → Decoder β}
    (second : Repeats input other (fun i => f i start) start bytes) :
    Repeats input other (fun i => Cursor.offset >>= f i) start bytes := second

/-- What is known of the input may be used. -/
theorem of_holds (repeats : Holds input start bytes → Repeats input other read start bytes) :
    Repeats input other read start bytes := fun holds => repeats holds holds

section Known

variable (same : other.length = input.length)
  (back : ∀ i : List UInt8, i.length = input.length →
    ReadsBack True Failure.Unsaid i (read i) start bytes (· = a))
include same back

/-- What is known to be written is read in both. -/
theorem runs (holds : Holds input start bytes)
    (agree : AgreeOn input other start (start + bytes.length)) (visited : Nat)
    (room : visited + bytes.length ≤ input.length) :
    read input ⟨start, visited⟩ = .ok a ⟨start + bytes.length, visited + bytes.length⟩ ∧
      read other ⟨start, visited⟩ = .ok a ⟨start + bytes.length, visited + bytes.length⟩ := by
  obtain ⟨_, run, rfl⟩ := (back input rfl holds visited room).of_exact
  obtain ⟨_, run', rfl⟩ := (back other same (holds.of_agreeOn agree same) visited
    (by omega)).of_exact
  exact ⟨run, run'⟩

theorem known : Repeats input other read start bytes := by
  intro holds agree visited room
  obtain ⟨run, run'⟩ := runs same back holds agree visited room
  rw [run, run']

/-- A part that is known to come back leaves only the rest to be repeated. -/
theorem known_bind (second : Repeats input other (fun i => f i a) (start + bytes.length) more) :
    Repeats input other (fun i => read i >>= f i) start (bytes ++ more) := by
  have loose : ReadsBack False Failure.Unsaid input (read input) start bytes (· = a) :=
    (back input rfl).loosen
  exact (known same back).bind loose fun _ fact => fact ▸ second

end Known

/-! ## Several things -/

/-- Things that were written one behind the other are read alike, each behind the other. -/
theorem times {write : γ → Encoder Unit} : ∀ (items : List γ) {start : Nat}
    {earlier calls : List LinkTarget} {bytes : List UInt8},
    (∀ item ∈ items, ∀ {start earlier bytes calls},
      write item start earlier = ⟨bytes, calls, .ok ()⟩ →
        Repeats input other read start bytes ∧
        ReadsBack False said input (read input) start bytes fun _ => True) →
    items.forM write start earlier = ⟨bytes, calls, .ok ()⟩ →
    Repeats input other (fun i => Decoding.times (read i) items.length) start bytes := by
  intro items
  induction items with
  | nil => exact fun _ _ => const _
  | cons item rest ih =>
    intro start earlier calls bytes each run
    rw [Encoder.forM_cons] at run
    obtain ⟨_, bytes₁, calls₁, bytes₂, calls₂, first, later, rfl, rfl⟩ := Encoder.bind_eq_ok.mp run
    obtain ⟨repeats, back⟩ := each item List.mem_cons_self first
    have others := ih (fun other there => each other (List.mem_cons_of_mem _ there)) later
    exact repeats.bind back fun made _ => others.andThen fun rest => Pure.pure (made :: rest)

/-! ## Bodies without bodies inside -/

section Scalars

variable {context : Context} {field : String} {earlier calls : List LinkTarget}
  (same : other.length = input.length)
include same

/-- A day is read alike, be there a midnight at which it begins or none. -/
theorem date (day : Int64) :
    Repeats input other (Decoding.readDate context) start (Varint.encodeSigned day) := by
  have both : Repeats input other (Decoding.readDate context) start (Varint.encodeSigned day ++ []) :=
    offset_bind (known_bind same (fun _ _ => .signedVarint day) (const _))
  rwa [List.append_nil] at both

variable (small : input.length < 2 ^ 31)
include small

/-- An object is read alike, whatever a factory makes of it. -/
theorem custom {typeName : String} {stream : List UInt8}
    (run : Encoding.writeCustom context field typeName stream start earlier
      = ⟨bytes, calls, .ok ()⟩) :
    Repeats input other (Decoding.readCustom context) start bytes := by
  obtain ⟨registry, -, -, rfl, -⟩ := Encoding.writeCustom_eq_ok run
  refine known_bind same (fun i long => .string (by omega) typeName) (andThen ?_ _)
  exact known same fun i long => .binary (by omega) stream

/-- **Every body without bodies inside is read alike.** -/
theorem scalar {tag : TypeTag} {value : Value} (formed : value.isWellFormed = true)
    (run : Encoding.writeScalar context field tag value start earlier = ⟨bytes, calls, .ok ()⟩) :
    Repeats input other (fun i => Decoding.readScalar context i tag) start bytes := by
  refine of_holds fun holds => ?_
  have inside := holds.bound
  -- whatever is recalled is read alike, and of all kinds but two something always is
  have recalled (some : (Recall.scalar context tag value earlier).isSome = true) :
      Repeats input other (fun i => Decoding.readScalar context i tag) start bytes := by
    obtain ⟨⟨made, last⟩, some⟩ := Option.isSome_iff_exists.mp some
    exact known same fun i long =>
      ((Recalls.scalar (by omega) formed run).known earlier some).loosen
  have agreed {normal : Asking Value} {last : List LinkTarget}
      (agrees : Agrees (Recall.scalar context tag value) normal earlier last) :
      Repeats input other (fun i => Decoding.readScalar context i tag) start bytes := by
    obtain ⟨made, some, -⟩ := agrees
    exact recalled (by rw [some]; rfl)
  have short : bytes.length < 2 ^ 31 := by omega
  cases WrittenScalar.of_eq_ok run with
  | date instant => exact date same _
  | custom written => exact custom same small written
  | short number _ => exact recalled (by rw [Recall.scalar_short number]; rfl)
  | integer number _ => exact recalled (by rw [Recall.scalar_integer number]; rfl)
  | long number => exact recalled (by rw [Recall.scalar_long number]; rfl)
  | string text =>
    rw [List.length_append] at short
    exact agreed (.of_some (Recall.string_eq_some.mpr ⟨by omega, rfl, rfl⟩) (.pure _))
  | binary content =>
    rw [List.length_append] at short
    exact agreed (.of_some (Recall.binary_eq_some.mpr ⟨by omega, rfl, rfl⟩) (.pure _))
  | linkBag content =>
    rw [List.length_append] at short
    exact agreed (.of_some (Recall.binary_eq_some.mpr ⟨by omega, rfl, rfl⟩) (.pure _))
  | double word => exact recalled rfl
  | widened word => exact recalled rfl
  | float word => exact recalled rfl
  | byte v => exact recalled rfl
  | boolean v => exact recalled rfl
  | dateTime instant => exact recalled (by rw [Recall.scalar_dateTime instant]; rfl)
  | decimal written => exact recalled rfl
  | link written => exact agreed (Agrees.link written).map
  | linked written => exact agreed (Agrees.link written).map
  | linkList sort written | linkSet sort written =>
    rcases sort with rfl | rfl <;> exact agreed (Agrees.links short written).map
  | linkMap written => exact agreed (Agrees.linkMap short written).map

end Scalars

end Repeats
end DocumentCodec
