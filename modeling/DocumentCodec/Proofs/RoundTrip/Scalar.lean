import DocumentCodec.Proofs.Emission.Scalar
import DocumentCodec.Proofs.Factories
import DocumentCodec.Proofs.RoundTrip.Recalls
/-!
# Bodies without bodies inside, read back

Every body that `writeScalar` wrote is read back under the same tag, to what is recalled of the
value.  Two kinds may fail to come back: a day whose midnight is no instant, and an object that no
factory makes; and a length that is no signed 32-bit word is refused in any kind.
-/

namespace DocumentCodec

/-! ## What can be read back

A part can be read back if it is in order and, where it is a record, no field in it is without a
name. -/

/-- A value that is written under a tag can be read back at all: nothing in it is out of order, and
no field that is written with it is taken for the end of a header. -/
structure Readable (w : TypeTag × Value) : Prop where
  formed : w.2.isWellFormed = true
  named : ∀ record, heldRecord w = some record → ∀ field ∈ record.fields, field.name ≠ ""

/-! ## Links -/

namespace Link

theorem length_idBytes_pos (rid : RecordId) : 0 < (idBytes rid).length := by
  have first := Varint.length_encode_pos rid.cluster.toInt64.toUInt64
  rw [idBytes, Varint.encodeSigned, List.length_append]
  omega

/-- The identity that a link was given is the one that stands for its target. -/
theorem resolve_eq_ok {context : Context} {target : LinkTarget} {start : Nat}
    {earlier calls : List LinkTarget} {bytes : List UInt8} {rid : RecordId}
    (run : resolve context target start earlier = ⟨bytes, calls, .ok rid⟩) :
    bytes = [] ∧ target.stored context earlier = (rid, earlier ++ calls) := by
  rw [resolve] at run
  rw [LinkTarget.stored]
  split at run
  · next pending =>
    rw [if_pos pending]
    unfold ask at run
    cases resolver : context.resolver with
    | none =>
      -- without a resolver only a proxy goes on, with the identity at hand
      rw [resolver] at run
      dsimp only at run
      split at run
      · cases run
        exact ⟨rfl, congrArg (Prod.mk _) (List.append_nil earlier).symm⟩
      · cases run
    | some resolve =>
      rw [resolver] at run
      dsimp only at run ⊢
      cases asked : resolve earlier target with
      | error cause =>
        rw [asked] at run
        dsimp only at run
        split at run
        · cases run
          exact ⟨rfl, rfl⟩
        · cases run
      | ok answer =>
        rw [asked] at run
        dsimp only at run ⊢
        -- an answer that was never assigned is as good as none
        by_cases valid : answer.isValid = true
        · rw [if_pos valid] at run ⊢
          cases run
          exact ⟨rfl, rfl⟩
        · rw [if_neg valid] at run ⊢
          dsimp only at run
          split at run
          · cases run
            exact ⟨rfl, rfl⟩
          · cases run
  · next kept =>
    rw [if_neg kept]
    cases run
    exact ⟨rfl, by rw [List.append_nil]⟩

/-- A link was written as the identity that is stored for it. -/
theorem write_eq_ok {context : Context} {target : LinkTarget} {start : Nat}
    {earlier calls : List LinkTarget} {bytes : List UInt8}
    (run : write context target start earlier = ⟨bytes, calls, .ok ()⟩) :
    ∃ rid, bytes = idBytes rid ∧ target.stored context earlier = (rid, earlier ++ calls) := by
  obtain ⟨rid, bytes₁, calls₁, bytes₂, calls₂, resolved, written, rfl, rfl⟩ :=
    Encoder.bind_eq_ok.mp run
  obtain ⟨rfl, stored⟩ := resolve_eq_ok resolved
  rw [writeId_eq] at written
  cases written
  exact ⟨rid, rfl, by rw [List.append_nil]; exact stored⟩

end Link

/-! ## Objects that factories make

A factory may refuse, or make something else; a failure of it is never one for want of budget,
unless it says so. -/

namespace Context

variable {context : Context} {registry : Registry} {name : String}

/-- No object is missing for want of budget, unless a factory says so. -/
theorem isOverlap_makeCustom (known : context.registry = some registry) {stream : List UInt8}
    {e : Failure} (failed : registry.makeCustom name stream = .error e) :
    e.isOverlap = false ∨ context.RefusesWith e := by
  rcases refuses_of_makeCustom known failed with rfl | refuses
  · exact Or.inl rfl
  · exact Or.inr refuses

/-- The same of records. -/
theorem isOverlap_makeSerializable (known : context.registry = some registry) {record : Record}
    {e : Failure} (failed : registry.makeSerializable name record = .error e) :
    e.isOverlap = false ∨ context.RefusesWith e := by
  rcases refuses_of_makeSerializable known failed with rfl | refuses
  · exact Or.inl rfl
  · exact Or.inr refuses

end Context

namespace ReadsBack

variable {exact : Prop} {said : Failure → Prop} {input bytes : List UInt8} {start : Nat}
  {context : Context} {earlier calls : List LinkTarget}

/-- An identity comes back: its cluster has 32 bits and its position 64. -/
theorem id (rid : RecordId) :
    ReadsBack exact said input (Decoding.readId input) start (Link.idBytes rid) (· = rid) := by
  have fits : Signed.Fits32 rid.cluster.toInt64.toInt := by
    rw [Int32.toInt_toInt64]
    exact ⟨Int32.le_toInt _, Int.le_of_lt_add_one (Int32.toInt_lt _)⟩
  refine (varint32 fits).bind fun cluster same => (signedVarint _).map fun position same' => ?_
  rw [same, same', Int32.toInt32_toInt64]

/-- A scale and bytes behind their length are read as a decimal, padded or not. -/
theorem decimalBody (scale : Int32) {unscaled : List UInt8} (fits : unscaled.length < 2 ^ 31) :
    ReadsBack exact said input (Decoding.readDecimal input) start
      (BigEndian.encode32 scale.toUInt32 ++ BigEndian.encode 4 unscaled.length ++ unscaled)
      (· = ⟨BigEndian.decodeSigned unscaled, scale.toInt64⟩) := by
  rw [BigEndian.encode_ofNat fits, List.append_assoc]
  refine (word32 _).bind fun word same => ?_
  refine offset_bind ((word32 _).bind fun length same' => ?_)
  subst same same'
  have whole := BigEndian.toInt_ofNat fits
  dsimp only
  rw [if_neg (by omega)]
  refine (take (by omega)).map fun bytes same => ?_
  subst same
  rw [Int32.toInt32_toUInt32]

/-- A decimal comes back, as its scale fits into the word it is stored in and its unscaled value
spells the number of bytes that were written. -/
theorem decimal {field : String} {number : Decimal} {place : Nat}
    (run : Encoding.writeDecimal field number start earlier = ⟨bytes, calls, .ok ()⟩) :
    calls = [] ∧
      ReadsBack exact said input (Decoding.readDecimal input) place bytes (· = number) := by
  obtain ⟨scaled, fits, rfl, rfl⟩ := Encoding.writeDecimal_eq_ok run
  refine ⟨rfl, (decimalBody _ fits).mono fun _ same => ?_⟩
  rw [same, BigEndian.decodeSigned_encodeSigned, Signed.toInt64_toInt32 scaled]

/-- The body of a number, a truth value or an instant is read back as the value of the tag's
kind. -/
theorem plain {field : String} {tag : TypeTag} {value : Value} {place : Nat}
    (plain : tag.isPlain = true)
    (run : Encoding.writeScalar context field tag value start earlier = ⟨bytes, calls, .ok ()⟩) :
    calls = [] ∧ ReadsBack exact said input (Decoding.readScalar context input tag) place bytes
      (· = value.retagged context.options.zone tag) := by
  cases WrittenScalar.of_eq_ok run with
  | @short _ v number fits =>
    rw [Value.retagged_short number]
    exact ⟨rfl, (varint16 fits).map fun _ same => congrArg Value.short same⟩
  | @integer _ v number fits =>
    rw [Value.retagged_integer number]
    exact ⟨rfl, (varint32 fits).map fun _ same => congrArg Value.integer same⟩
  | @long _ v number =>
    rw [Value.retagged_long number]
    exact ⟨rfl, (signedVarint v).map fun _ same => congrArg Value.long same⟩
  | double word => exact ⟨rfl, (word64 word).map fun _ same => congrArg Value.double same⟩
  | widened word => exact ⟨rfl, (word64 _).map fun _ same => congrArg Value.double same⟩
  | float word => exact ⟨rfl, (word32 word).map fun _ same => congrArg Value.float same⟩
  | byte v =>
    refine ⟨rfl, (byte v.toUInt8).map fun b same => ?_⟩
    rw [same, Int8.toInt8_toUInt8]
    rfl
  | boolean v =>
    -- one is true and zero is false, as the reader has it
    refine ⟨rfl, (byte _).map fun b same => ?_⟩
    rw [same]
    cases v <;> rfl
  | @dateTime _ millis instant =>
    rw [Value.retagged_dateTime instant]
    exact ⟨rfl, (signedVarint millis).map fun _ same => congrArg Value.dateTime same⟩
  | decimal written =>
    obtain ⟨none, back⟩ : _ ∧ ReadsBack exact said input _ _ _ _ := decimal written
    exact ⟨none, back.map fun _ same => congrArg Value.decimal same⟩
  | _ => cases plain

end ReadsBack

namespace Recalls

variable {exact : Prop} {said : Failure → Prop} {input bytes : List UInt8} {start : Nat}
  {context : Context} {earlier calls : List LinkTarget}

/-- A link comes back as the identity that stands for its target. -/
theorem link {target : LinkTarget}
    (run : Link.write context target start earlier = ⟨bytes, calls, .ok ()⟩) :
    Recalls exact said input (Decoding.readId input) start bytes
      (Recalling.asking (target.stored context)) earlier (earlier ++ calls) := by
  obtain ⟨rid, rfl, stored⟩ := Link.write_eq_ok run
  refine fun _ => (ReadsBack.id rid).mono fun _ same => ?_
  rw [Recalling.asking, stored, same]

/-- An element of a collection of links comes back, an absent one as absent. -/
theorem linkElement {item : Option LinkTarget}
    (run : Link.writeElement context item start earlier = ⟨bytes, calls, .ok ()⟩) :
    0 < bytes.length ∧ Recalls exact said input (Decoding.readLinkElement input) start bytes
      (Recalling.asking (normalLink context item)) earlier (earlier ++ calls) := by
  cases item with
  | none =>
    -- an absent element is written as the identity that is read as one
    rw [Link.writeElement, Link.writeId_eq] at run
    cases run
    refine ⟨Link.length_idBytes_pos _, fun _ => (ReadsBack.id .nullLink).map fun rid same => ?_⟩
    subst same
    rw [List.append_nil]
    rfl
  | some target =>
    obtain ⟨rid, rfl, stored⟩ := Link.write_eq_ok run
    refine ⟨Link.length_idBytes_pos _, fun _ => (ReadsBack.id rid).map fun _ same => ?_⟩
    subst same
    rw [Recalling.asking, normalLink, Asking.run_bind stored]
    rfl

/-- A day comes back as the instant at which it begins, if there is one. -/
theorem date {value : Value} {millis : Int64} (instant : value.millis? = some millis) :
    Recalls exact said input (Decoding.readDate context input) start
      (Varint.encodeSigned (context.options.zone.dayNumber millis))
      (Recall.scalar context .date value) earlier earlier := by
  rw [Recall.scalar_date instant, Recall.date]
  intro exactly
  refine .offset_bind ((ReadsBack.signedVarint _).check fun day same => ?_)
  subst same
  cases midnight : context.options.zone.startOfDay? (context.options.zone.dayNumber millis) with
  | none =>
    -- a day without a midnight is refused, which is not for want of budget
    rw [midnight] at exactly
    exact fun _ _ _ => ⟨fun whole => (by cases exactly whole), Or.inl rfl⟩
  | some begins =>
    exact .pure rfl

variable (small : input.length < 2 ^ 63)
include small

/-- A list of links comes back as the links that are stored.  Each has a byte at least, so in an
input that short their number is one that a reader accepts. -/
theorem links {items : List (Option LinkTarget)}
    (run : Encoding.writeLinks context items start earlier = ⟨bytes, calls, .ok ()⟩) :
    Recalls exact said input (Decoding.readLinks input) start bytes (Recall.links context items)
      earlier (earlier ++ calls) := by
  obtain ⟨rest, written, rfl⟩ := Encoder.emit_bind_eq_ok run
  obtain ⟨fewer, backs⟩ : _ ∧ Recalls exact said input _ _ rest
      (items.mapM fun item => Recalling.asking (normalLink context item)) _ _ :=
    times items (fun item _ _ _ _ _ => linkElement) written
  refine of_holds fun holds => ?_
  have inside := holds.right.bound
  refine (length (by omega)).bind fun count recalled => ?_
  obtain ⟨-, rfl, -⟩ := Recall.length_eq_some.mp recalled
  rw [← Recalling.mapM_asking]
  exact backs

/-- A key comes back behind the tag of strings. -/
theorem mapKey (key : String) : Recalls exact said input (Decoding.readMapKey input) start
    (Encoding.keyBytes key) (Recall.string key) earlier earlier := by
  intro exactly
  refine .offset_bind ((ReadsBack.tag .string).bind fun _ same => ?_)
  subst same
  rw [if_pos rfl]
  exact string small key exactly

/-- A map of links comes back entry by entry; its keys ascend, so none fall together. -/
theorem linkMap {entries : List (String × Option LinkTarget)}
    (ordered : OrderedMap.Ascending entries)
    (run : Encoding.writeLinkMap context entries start earlier = ⟨bytes, calls, .ok ()⟩) :
    Recalls exact said input (Decoding.readLinkMap input) start bytes
      (Recall.linkMap context entries)
      earlier (earlier ++ calls) := by
  obtain ⟨rest, written, rfl⟩ := Encoder.emit_bind_eq_ok run
  have each (entry : String × Option LinkTarget) {start : Nat} {earlier calls : List LinkTarget}
      {bytes : List UInt8} (one : (Encoder.emit (Encoding.keyBytes entry.1) >>= fun _ =>
        Link.writeElement context entry.2) start earlier = ⟨bytes, calls, .ok ()⟩) :
      0 < bytes.length ∧ Recalls exact said input (Decoding.readMapKey input >>= fun key =>
          Decoding.readLinkElement input >>= fun link => Pure.pure (key, link)) start bytes
        (Recall.linkEntry context entry) earlier (earlier ++ calls) := by
    obtain ⟨element, written, rfl⟩ := Encoder.emit_bind_eq_ok one
    obtain ⟨positive, back⟩ : _ ∧ Recalls exact said input _ _ element _ _ _ := linkElement written
    refine ⟨by rw [List.length_append]; omega, ?_⟩
    exact (mapKey small entry.1).bind fun key _ => back.map
  obtain ⟨fewer, backs⟩ := times entries (fun entry _ _ _ _ _ => each entry) written
  refine of_holds fun holds => ?_
  have inside := holds.right.bound
  refine (length (by omega)).bind fun count recalled => ?_
  obtain ⟨-, rfl, -⟩ := Recall.length_eq_some.mp recalled
  intro exactly
  refine (backs exactly).map fun made facts => ?_
  -- the map that is built from the entries is the entries, for their keys ascend
  rw [OrderedMap.ofList_eq_self, facts]
  exact Recalling.ascending_mapM Recall.linkEntry_key ordered facts

/-- An opaque object comes back as what the factory makes of it. -/
theorem custom {field typeName : String} {stream : List UInt8}
    (run : Encoding.writeCustom context field typeName stream start earlier
      = ⟨bytes, calls, .ok ()⟩) :
    calls = [] ∧
      Recalls exact context.RefusesWith input (Decoding.readCustom context input) start bytes
      (Recall.custom context typeName stream) earlier earlier := by
  obtain ⟨registry, there, -, rfl, rfl⟩ := Encoding.writeCustom_eq_ok run
  refine ⟨rfl, (string small typeName).bind fun name recalled => ?_⟩
  refine (binary small stream).check fun content recalled' => ?_
  obtain ⟨-, rfl, -⟩ := Recall.string_eq_some.mp recalled
  obtain ⟨-, rfl, -⟩ := Recall.binary_eq_some.mp recalled'
  rw [there]
  exact (orThrow fun e failed => Context.isOverlap_makeCustom there failed).map

/-- **Every body without bodies inside is read back to what is recalled of its value.** -/
theorem scalar {field : String} {tag : TypeTag} {value : Value}
    (formed : value.isWellFormed = true)
    (run : Encoding.writeScalar context field tag value start earlier = ⟨bytes, calls, .ok ()⟩) :
    Recalls exact context.RefusesWith input (Decoding.readScalar context input tag) start bytes
      (Recall.scalar context tag value) earlier (earlier ++ calls) := by
  -- a body of fixed form comes back whatever the resolver or a factory does; the others are
  -- recalled
  by_cases plain : tag.isPlain = true
  · obtain ⟨rfl, back⟩ : _ ∧ ReadsBack exact context.RefusesWith input _ start _ _ :=
      ReadsBack.plain plain run
    rw [Recall.scalar_plain plain, List.append_nil]
    exact of_back back
  cases WrittenScalar.of_eq_ok run with
  | string text =>
    rw [List.append_nil]
    exact (string small text).map
  | binary content =>
    rw [List.append_nil]
    exact (binary small content).map
  | linkBag content =>
    rw [List.append_nil]
    exact (binary small content).map
  | date instant =>
    rw [List.append_nil]
    exact date instant
  | link written => exact (link written).map
  | linked written => exact (link written).map
  | linkList sort written | linkSet sort written =>
    rcases sort with rfl | rfl <;> exact (links small written).map
  | linkMap written =>
    have ordered := of_decide_eq_true (Bool.and_eq_true_iff.mp formed).1
    exact (linkMap small ordered written).map
  | custom written =>
    obtain ⟨rfl, back⟩ : _ ∧ Recalls exact context.RefusesWith input _ _ _ _ _ _ :=
      custom small written
    rw [List.append_nil]
    exact back
  | _ => exact absurd rfl plain

end Recalls
end DocumentCodec
