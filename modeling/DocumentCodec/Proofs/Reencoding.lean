import DocumentCodec.Proofs.Reencoding.Container
import DocumentCodec.Proofs.RoundTrip
/-!
# Encoding what was decoded

What a decoding makes of an encoding is encoded as the same bytes again.  The decoded record knows
less than the one that was encoded: dates are floored to days, links have lost their records, and
what was left out is gone.  But it knows every tag: a field is pinned to the one it was written
under, and an element is of the kind of its own.  So every choice that the writer made is made
again.

The record that was decoded is the one that is recalled, and writing it again is an induction on the
room that is left for containers, as recalling is.
-/

namespace DocumentCodec

/-- Every body is written again as the same bytes, however deep it nests. -/
theorem rewrites_body {context : Context} {offset : Int64}
    (fixed : context.options.zone = Zone.fixed offset)
    (honest : ∀ registry, context.registry = some registry → registry.IsHonest) (room : Nat) :
    Rewrites context (Encoding.writeBody context room) (Recall.body context room) := by
  induction room with
  | zero => exact rewrites_bodyWith fixed honest fun write none => by cases none
  | succ room ih =>
    refine rewrites_bodyWith fixed honest fun write same => ⟨_, rfl, ?_⟩
    cases same
    exact ih

namespace Record

variable {context : Context} {record made : Record} {bytes : List UInt8} {there : Cursor}

/-- The identities that are stored for the links of a record, in the order in which they are
written. -/
def storedLinks (context : Context) (record : Record) : Asking (List RecordId) :=
  ((record.written context).flatMap linkTargets).mapM (LinkTarget.stored context)

/-- What comes back of a record is as good as the record: the empty class name would be taken for
none, an embedded record with the mark of an object for an object, and an identity that is neither
persistent nor the one that stands for no link would be looked up again. -/
structure IsRepeatable (context : Context) (record : Record) : Prop where
  classed : ∀ level ∈ record.levels context, level.className ≠ some ""
  unmarked : ∀ level ∈ (record.levels context).tail,
    level.contains serializableClassField = false
  settled : ∀ rid ∈ (record.storedLinks context []).1, rid.isPersistent = true ∨ rid.isNullLink = true

/-- What is demanded of a record that it can be repeated is demanded of its parts. -/
theorem IsRepeatable.repeatable (repeatable : record.IsRepeatable context) :
    ∀ w ∈ record.written context, Repeatable w := by
  intro w there
  constructor
  · intro held holds
    exact repeatable.classed held (List.mem_of_mem_tail (mem_levels there holds))
  · intro held holds
    exact repeatable.unmarked held (mem_levels there holds)

/-- The links of such a record are settled by what the resolver said when it was written. -/
theorem IsRepeatable.settles (repeatable : record.IsRepeatable context) :
    Settles context ((record.written context).flatMap linkTargets) []
      (record.storedLinks context []).2 := by
  refine ⟨(record.storedLinks context []).1, rfl, fun rid there => ?_⟩
  exact (Link.isPending_eq_false_iff rid).mpr (repeatable.settled rid there)

/-- **What was decoded of an encoding is encoded as the same bytes**, whatever the resolver was
asked for before: it is not asked again.  An encoding fits in memory, so its length is a signed
word. -/
theorem encode_decode_encode (formed : record.isWellFormed = true)
    (built : ∀ schema, context.schema = some schema → schema.IsBuilt)
    (honest : ∀ registry, context.registry = some registry → registry.IsHonest)
    (zoned : context.options.zone = .utc ∨ ∃ offset, context.options.zone = .fixed offset)
    (named : record.IsNamed context) (repeatable : record.IsRepeatable context)
    (run : record.encode context = .ok bytes) (small : bytes.length < 2 ^ 63)
    (decoded : decode context bytes none Record.new = .ok () ⟨there, made⟩) :
    made.encode context = .ok bytes ∧ ∀ earlier,
      made.encodeInto context Arena.empty earlier = (.ok 0, ⟨bytes.toArray⟩, []) := by
  obtain ⟨calls, emitted, recalled⟩ := recalled_of_decode formed built named run small decoded
  -- UTC is the offset of nothing
  obtain ⟨offset, fixed⟩ : ∃ offset, context.options.zone = Zone.fixed offset := by
    rcases zoned with utc | fixed
    · exact ⟨0, utc⟩
    · exact fixed
  have rewrites := rewrites_body fixed honest context.options.maxDepth
  have yields := rewrites.record (repeatable.classed record List.mem_cons_self)
    repeatable.repeatable emitted
  -- the links were settled by the first writing, so the second one asks for none
  obtain ⟨-, -, -, -, again⟩ := yields made calls _ recalled repeatable.settles
  have emitted' (earlier : List LinkTarget) :
      made.emission context 0 earlier = ⟨bytes, [], .ok ()⟩ := again earlier
  constructor
  · rw [encode, emitted' []]
    rfl
  · intro earlier
    have size : Arena.empty.size = 0 := rfl
    have grown : (Arena.empty.append bytes).2 = ⟨bytes.toArray⟩ := by simp [Arena.append, Arena.empty]
    rw [encodeInto, size, emitted' earlier, grown]
    rfl

/-- An object whose factory refuses some streams, an instant stored as its day, and a link to a
record that the resolver stores. -/
theorem encode_decode_encode_of_object :
    let registry : Registry := ⟨[("K", fun stream =>
      if stream.length = 1 then .ok ⟨"K", stream⟩ else .error "refused")], []⟩
    let context : Context :=
      { options := { zone := .fixed 3600000 }, registry := some registry,
        resolver := some fun _ _ => .ok ⟨3, 7⟩ }
    let linked : Record := ⟨none, RecordId.empty, [⟨"s", .string "x", none⟩], false⟩
    let record : Record := ⟨none, RecordId.empty,
      [⟨"o", .custom "K" [5], none⟩, ⟨"d", .dateTime 90000000, some .date⟩,
        ⟨"l", .linkList [some (.record linked), none], none⟩], false⟩
    let bytes : List UInt8 := [0, 1, 111, 0, 0, 0, 23, 20, 1, 100, 0, 0, 0, 27, 19, 1, 108, 0, 0, 0,
      28, 14, 0, 1, 75, 1, 5, 1, 2, 3, 7, 254, 255, 255, 255, 255, 255, 255, 255, 255, 1, 255, 255,
      255, 255, 255, 255, 255, 255, 255, 1]
    let made : Record := ⟨none, RecordId.empty,
      [⟨"o", .custom "K" [5], some .custom⟩, ⟨"d", .date 82800000, some .date⟩,
        ⟨"l", .linkList [some (.identity ⟨3, 7⟩), none], some .linkList⟩], false⟩
    record.encode context = .ok bytes ∧
      decode context bytes none Record.new = .ok () ⟨⟨bytes.length, bytes.length⟩, made⟩ ∧
      made.encode context = .ok bytes ∧ ∀ earlier,
        made.encodeInto context Arena.empty earlier = (.ok 0, ⟨bytes.toArray⟩, []) := by
  intro registry context linked record bytes made
  have run : record.encode context = .ok bytes := eq_ok_of_toOption (by decide +kernel)
  have honest (known : Registry) (there : context.registry = some known) : known.IsHonest := by
    cases there
    -- the one registered factory makes an object of its own name, or refuses
    refine ⟨fun typeName factory found stream object outcome => ?_, fun _ _ found => by cases found⟩
    rw [OrderedMap.find?, List.find?_singleton] at found
    split at found
    · next same =>
      cases found
      rw [← of_decide_eq_true same]
      dsimp only at outcome
      split at outcome
      · exact (Except.ok.inj outcome).symm
      · cases outcome
    · cases found
  have named : record.IsNamed context := by
    unfold IsNamed
    decide
  have repeatable : record.IsRepeatable context := ⟨by decide, by decide, by decide⟩
  have built (snapshot : Snapshot) (known : context.schema = some snapshot) :
      snapshot.IsBuilt := by cases known
  have recalled : record.recalled context [] = some (made, [.record linked]) := by
    subst made record linked context registry
    rfl
  have decoded : decode context bytes none Record.new
      = .ok () ⟨⟨bytes.length, bytes.length⟩, made⟩ :=
    decode_of_recalled rfl built named run (by decide) recalled
  exact ⟨run, decoded, encode_decode_encode rfl built honest (Or.inr ⟨3600000, rfl⟩) named
    repeatable run (by decide) decoded⟩

/-- Factories are not told the name that they are registered under.  Where the one for `A` makes
objects that call themselves `B`, the object comes back with the stream that was stored of it, and
is written again under its own name. -/
theorem encode_decode_encode_of_alias :
    let making (typeName : String) : CustomFactory := fun stream => .ok ⟨typeName, stream⟩
    let registry : Registry := ⟨[("A", making "B"), ("B", making "B")], []⟩
    let context : Context := { registry := some registry }
    let record : Record := ⟨none, RecordId.empty, [⟨"o", .custom "A" [1], none⟩], false⟩
    let bytes : List UInt8 := [0, 1, 111, 0, 0, 0, 9, 20, 0, 1, 65, 1, 1]
    let made : Record := ⟨none, RecordId.empty, [⟨"o", .custom "B" [1], some .custom⟩], false⟩
    let again : List UInt8 := [0, 1, 111, 0, 0, 0, 9, 20, 0, 1, 66, 1, 1]
    (∀ entry ∈ registry.customs, ∀ stream object, entry.2 stream = .ok object →
      object.stream = stream) ∧
    record.isWellFormed = true ∧ record.IsNamed context ∧ record.IsRepeatable context ∧
      record.encode context = .ok bytes ∧
      decode context bytes none Record.new = .ok () ⟨⟨13, 13⟩, made⟩ ∧
      made.encode context = .ok again ∧ again ≠ bytes := by
  intro making registry context record bytes made again
  have faithful : ∀ entry ∈ registry.customs, ∀ stream object, entry.2 stream = .ok object →
      object.stream = stream := by
    rintro entry there stream object outcome
    simp only [registry, List.mem_cons, List.not_mem_nil, or_false] at there
    -- both factories keep the stream, and both give their objects the same name
    rcases there with rfl | rfl <;>
      exact (congrArg CustomObject.stream (Except.ok.inj outcome)).symm
  have named : record.IsNamed context := by
    unfold IsNamed
    decide
  have repeatable : record.IsRepeatable context := ⟨by decide, by decide, by decide⟩
  have run : record.encode context = .ok bytes := eq_ok_of_toOption (by decide +kernel)
  have decoded : decode context bytes none Record.new = .ok () ⟨⟨13, 13⟩, made⟩ := by
    subst made bytes context registry making
    rfl
  have rerun : made.encode context = .ok again := eq_ok_of_toOption (by decide +kernel)
  exact ⟨faithful, rfl, named, repeatable, run, decoded, rerun, by decide⟩

end Record
end DocumentCodec
