import DocumentCodec.Proofs.Failures.Reading
import DocumentCodec.Proofs.InPlace
import DocumentCodec.Proofs.Refusals
/-!
# What encoding and decoding fail for

An encoding fails because a value cannot be stored, because a link has no identity that can be
stored, or because containers nest too deep.  `Excusable` is a `FailsOnly` that asks for no offset,
so it is closed under the ways in which encoders are put together and holds of whole encodings by
induction on the levels; and since writing in place is the same encoding, a write that the arena
refuses is never a fourth reason.
-/

namespace DocumentCodec

/-- The failures of encoding. -/
inductive CodecError.OfEncoding (context : Context) : CodecError → Prop where
  | unsupported (field kind : String) (reason : Unsupported) :
      OfEncoding context (.unsupportedValue field kind reason)
  | unresolved (rid : RecordId) (problem : LinkProblem) :
      OfEncoding context (.linkResolutionFailure rid problem)
  | tooDeep : OfEncoding context context.tooDeep

namespace Encoder

variable {α : Type} {context : Context}

/-- The encoder fails, wherever its bytes stand, for no other reason. -/
def Excusable (context : Context) (x : Encoder α) : Prop :=
  ∀ start earlier e, (x start earlier).result = .error e → e.OfEncoding context

namespace Excusable

variable {x : Encoder α}

theorem of_failsOnly (fails : FailsOnly (fun _ e => e.OfEncoding context) x) :
    Excusable context x := fails

theorem failsOnly (excusable : Excusable context x) :
    FailsOnly (fun _ e => e.OfEncoding context) x := excusable

theorem emit (bytes : List UInt8) : Excusable context (Encoder.emit bytes) := of_failsOnly (.emit bytes)

theorem fail {e : CodecError} (known : e.OfEncoding context) :
    Excusable context (Encoder.fail e : Encoder α) := of_failsOnly (.fail fun _ => known)

/-! ## Bodies without bodies inside -/

/-- A body that holds no others fails for its own value, or for a link. -/
theorem scalar (field : String) (tag : TypeTag) (value : Value) :
    Excusable context (Encoding.writeScalar context field tag value) := by
  cases some : value.links? tag with
  | none =>
    rcases Encoding.writeScalar_quiet some with ⟨bytes, same⟩ | ⟨kind, reason, same⟩
    · rw [same]
      exact emit bytes
    · rw [same]
      exact fail (.unsupported field kind reason)
  | some items =>
    unfold Value.links? at some
    -- one link or a linked record, then links in a list or set, then a map of links
    split at some
    case h_1 | h_2 => exact of_failsOnly (.link (fun _ => .unresolved) _)
    case h_3 | h_4 | h_5 | h_6 => exact of_failsOnly (.links (fun _ => .unresolved) _)
    case h_7 => exact of_failsOnly (.linkMap (fun _ => .unresolved) _)
    case h_8 => cases some

/-! ## Bodies with bodies inside -/

section Containers

variable {write : BodyWriter} (inside : ∀ field tag linked value,
  Excusable context (write field tag linked value))

include inside

/-- A list or a set fails for an element without a kind, or as one of its elements does. -/
theorem items (field : String) (linked : Option TypeTag) (values : List Value) :
    Excusable context (Encoding.writeItems write field linked values) := by
  refine of_failsOnly ((FailsOnly.emit _).bind fun _ => (FailsOnly.emit _).bind fun _ =>
    .forM _ fun item _ => ?_)
  unfold Encoding.writeItem
  split
  · exact .emit _
  · split
    · exact .fail fun _ => .unsupported _ _ _
    · exact (FailsOnly.emit _).bind fun _ => (inside _ _ _ _).failsOnly

/-- A table fails for the tag of a member, for the place of its body, or as the body does. -/
theorem table (head tail : List UInt8) (members : List Member) :
    Excusable context (writeTable head (members.map (Member.entry write)) tail) :=
  of_failsOnly (.table head tail members fun _ _ _ there =>
    .member there (fun reason _ _ => .unsupported _ _ reason)
      (fun _ _ => (inside _ _ _ _).failsOnly) fun _ _ => .unsupported _ _ _)

theorem record (record : Record) :
    Excusable context (Encoding.writeRecord context write record) := by
  rw [Encoding.writeRecord_eq]
  exact table inside _ _ _

theorem map (field : String) (pairs : List (String × Value)) :
    Excusable context (Encoding.writeMap write field pairs) := by
  rw [Encoding.writeMap_eq]
  exact table inside _ _ _

end Containers

/-! ## Level by level -/

/-- One level more of containers, or none left. -/
theorem bodyWith {inner : Except CodecError BodyWriter}
    (deeper : inner = .error context.tooDeep ∨ ∃ write, inner = .ok write ∧
      ∀ field tag linked value, Excusable context (write field tag linked value))
    (field : String) (tag : TypeTag) (linked : Option TypeTag) (value : Value) :
    Excusable context (Encoding.writeBodyWith context inner field tag linked value) := by
  have flat : Excusable context (Encoding.writeScalar context field tag value) :=
    scalar field tag value
  rcases deeper with rfl | ⟨write, rfl, inside⟩
  · cases tag with
    | embedded | embeddedList | embeddedSet | embeddedMap =>
      -- the level is missed only by a value that would have been taken
      cases value <;> first | exact flat | exact fail .tooDeep
    | _ => exact flat
  · cases tag with
    | embedded =>
      cases value with
      | embedded inner => exact record inside inner
      | serializable className inner => exact record inside (Encoding.markedRecord className inner)
      | _ => exact flat
    | embeddedList | embeddedSet =>
      cases value with
      | embeddedList values | embeddedSet values => exact items inside field linked values
      | _ => exact flat
    | embeddedMap =>
      cases value with
      | embeddedMap pairs => exact map inside field pairs
      | _ => exact flat
    | _ => exact flat

/-- Every body, by induction on the levels that are left. -/
theorem body (room : Nat) : ∀ field tag linked value,
    Excusable context (Encoding.writeBody context room field tag linked value) := by
  induction room with
  | zero => exact bodyWith (.inl rfl)
  | succ room ih => exact bodyWith (.inr ⟨_, rfl, ih⟩)

end Excusable
end Encoder

namespace Record

/-- **There are no other failures.**  Encoding into an arena, slot by slot as it is written in
place, ends badly only if a value cannot be stored, a link has no identity that can be, or
containers nest too deep: never because the arena refuses a write.  Decoding ends badly only because
the bytes are no record, a property is not in the schema, nothing is registered that makes an
object, or containers nest too deep; or else with what a registered factory says that the decoding
called. -/
theorem fails_only (context : Context) :
    (∀ (record : Record) (space left : Workspace) (fault : Fault),
      record.writeInPlace context space = .error fault left →
      ∃ e, fault = .codec e ∧ e.OfEncoding context ∧
        (record.encodeInto context space.arena space.asked).1 = .error e) ∧
    (∀ (record : Record) (arena : Arena) (earlier : List LinkTarget) (e : CodecError),
      (record.encodeInto context arena earlier).1 = .error e → e.OfEncoding context) ∧
    ∀ (input : List UInt8) (projection : Option (List String)) (state last : Binding) (e : Failure),
      decodeFrom context input projection state = .error e last →
      Raised context context.registry
        (fun other => decodeFrom (context.registering other) input projection state) last e := by
  -- by value first: the writer in place fails where this one does, and for the same reason
  have encoding (record : Record) (arena : Arena) (earlier : List LinkTarget) (e : CodecError)
      (failed : (record.encodeInto context arena earlier).1 = .error e) : e.OfEncoding context := by
    have known : Encoder.Excusable context (record.emission context) :=
      .record (Encoder.Excusable.body context.options.maxDepth) record
    refine known arena.size earlier e ?_
    have same : (record.emission context arena.size earlier).result.map (fun _ => arena.size)
        = .error e := failed
    cases run : (record.emission context arena.size earlier).result with
    | ok _ =>
      rw [run] at same
      nomatch same
    | error e' =>
      rw [run] at same
      cases same
      rfl
  refine ⟨fun record space left fault failed => ?_, encoding,
    fun input projection state last e failed => ?_⟩
  · rw [writeInPlace_eq] at failed
    rcases run : record.encodeInto context space.arena space.asked with ⟨result, final, calls⟩
    rw [run] at failed
    cases result with
    | ok place => nomatch failed
    | error e =>
      cases failed
      exact ⟨e, rfl, encoding record _ _ e (by rw [run]), rfl⟩
  · exact (Accounts.decodeFrom input projection).error failed

/-- A link that nothing resolves, two levels down, and an object that its factory does not take. -/
theorem fails_only_unresolved_or_refused :
    let registry : Registry :=
      ⟨[("t", fun stream => .error (if stream.isEmpty then "empty" else "not empty"))], []⟩
    let context : Context := { registry := some registry }
    let linked : Record := ⟨none, RecordId.empty,
      [⟨"m", .embeddedMap [("k", .embeddedList [.link (.identity ⟨-1, -2⟩)])], none⟩], false⟩
    let input : List UInt8 := [0, 1, 97, 0, 0, 0, 9, 20, 0, 1, 116, 2, 1, 2]
    (∃ left, linked.writeInPlace context ⟨⟨#[]⟩, []⟩
        = .error (.codec (.linkResolutionFailure ⟨-1, -2⟩ .noResolver)) left) ∧
      (CodecError.linkResolutionFailure ⟨-1, -2⟩ .noResolver).OfEncoding context ∧
      ∃ last, decodeFrom context input none ⟨Cursor.start, Record.new⟩
          = .error (.factory "not empty") last ∧
        Raised context (some registry) (fun other =>
          decodeFrom (context.registering other) input none ⟨Cursor.start, Record.new⟩) last
          (.factory "not empty") := by
  intro registry context linked input
  have written : ∃ left, linked.writeInPlace context ⟨⟨#[]⟩, []⟩
      = .error (.codec (.linkResolutionFailure ⟨-1, -2⟩ .noResolver)) left := ⟨_, rfl⟩
  have read : ∃ last, decodeFrom context input none ⟨Cursor.start, Record.new⟩
      = .error (.factory "not empty") last := by
    -- the stream is read before the factory is called, so its bytes are handed out
    refine ⟨⟨⟨14, 13⟩, Record.new⟩, ?_⟩
    subst context input registry
    rfl
  refine ⟨written, ?_, ?_⟩
  · obtain ⟨left, failed⟩ := written
    obtain ⟨e, same, known, -⟩ := (fails_only context).1 linked _ left _ failed
    cases same
    exact known
  · obtain ⟨last, failed⟩ := read
    exact ⟨last, failed, (fails_only context).2.2 input none _ last _ failed⟩

end Record
end DocumentCodec
