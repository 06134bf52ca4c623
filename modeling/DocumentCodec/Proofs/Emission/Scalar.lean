import DocumentCodec.Proofs.Emission
import DocumentCodec.Proofs.Normal
/-!
# What a success of writing a body without bodies inside tells

A tag takes the values of one kind or of a few, and refuses all others.  `WrittenScalar` lists what
was taken and what was emitted for it, with one constructor for the kinds that a tag treats alike.
Whatever is proved of these bodies is proved by its cases, so the writer is opened only here.
-/

namespace DocumentCodec

/-- A value that was written under a tag whose bodies hold no others, with its bytes and the calls
of the resolver. -/
inductive WrittenScalar (context : Context) (field : String) (start : Nat)
    (earlier : List LinkTarget) :
    (tag : TypeTag) → Value → (bytes : List UInt8) → (calls : List LinkTarget) → Prop where
  | short {value : Value} {v : Int64} (number : value.int64? = some v)
      (fits : Signed.Fits16 v.toInt) :
      WrittenScalar context field start earlier .short value (Varint.encodeSigned v) []
  | integer {value : Value} {v : Int64} (number : value.int64? = some v)
      (fits : Signed.Fits32 v.toInt) :
      WrittenScalar context field start earlier .integer value (Varint.encodeSigned v) []
  | long {value : Value} {v : Int64} (number : value.int64? = some v) :
      WrittenScalar context field start earlier .long value (Varint.encodeSigned v) []
  | string (text : String) :
      WrittenScalar context field start earlier .string (.string text)
        (Varint.encode (UInt64.ofNat (Utf8.encode text).length) ++ Utf8.encode text) []
  | binary (content : List UInt8) :
      WrittenScalar context field start earlier .binary (.binary content)
        (Varint.encode (UInt64.ofNat content.length) ++ content) []
  | linkBag (content : List UInt8) :
      WrittenScalar context field start earlier .linkBag (.linkBag content)
        (Varint.encode (UInt64.ofNat content.length) ++ content) []
  | double (word : UInt64) :
      WrittenScalar context field start earlier .double (.double word) (BigEndian.encode64 word) []
  | widened (word : UInt32) :
      WrittenScalar context field start earlier .double (.float word)
        (BigEndian.encode64 (FloatWord.widen word)) []
  | float (word : UInt32) :
      WrittenScalar context field start earlier .float (.float word) (BigEndian.encode32 word) []
  | byte (v : Int8) :
      WrittenScalar context field start earlier .byte (.byte v) [v.toUInt8] []
  | boolean (v : Bool) :
      WrittenScalar context field start earlier .boolean (.boolean v) [if v then 1 else 0] []
  | dateTime {value : Value} {millis : Int64} (instant : value.millis? = some millis) :
      WrittenScalar context field start earlier .dateTime value (Varint.encodeSigned millis) []
  | date {value : Value} {millis : Int64} (instant : value.millis? = some millis) :
      WrittenScalar context field start earlier .date value
        (Varint.encodeSigned (context.options.zone.dayNumber millis)) []
  | decimal {number : Decimal} {bytes : List UInt8} {calls : List LinkTarget}
      (written : Encoding.writeDecimal field number start earlier = ⟨bytes, calls, .ok ()⟩) :
      WrittenScalar context field start earlier .decimal (.decimal number) bytes calls
  | link {target : LinkTarget} {bytes : List UInt8} {calls : List LinkTarget}
      (written : Link.write context target start earlier = ⟨bytes, calls, .ok ()⟩) :
      WrittenScalar context field start earlier .link (.link target) bytes calls
  /-- a record that is linked to instead of embedded -/
  | linked {record : Record} {bytes : List UInt8} {calls : List LinkTarget}
      (written : Link.write context (.record record) start earlier = ⟨bytes, calls, .ok ()⟩) :
      WrittenScalar context field start earlier .link (.embedded record) bytes calls
  | linkList {value : Value} {items : List (Option LinkTarget)} {bytes : List UInt8}
      {calls : List LinkTarget} (sort : value = .linkList items ∨ value = .linkSet items)
      (written : Encoding.writeLinks context items start earlier = ⟨bytes, calls, .ok ()⟩) :
      WrittenScalar context field start earlier .linkList value bytes calls
  | linkSet {value : Value} {items : List (Option LinkTarget)} {bytes : List UInt8}
      {calls : List LinkTarget} (sort : value = .linkList items ∨ value = .linkSet items)
      (written : Encoding.writeLinks context items start earlier = ⟨bytes, calls, .ok ()⟩) :
      WrittenScalar context field start earlier .linkSet value bytes calls
  | linkMap {entries : List (String × Option LinkTarget)} {bytes : List UInt8}
      {calls : List LinkTarget}
      (written : Encoding.writeLinkMap context entries start earlier = ⟨bytes, calls, .ok ()⟩) :
      WrittenScalar context field start earlier .linkMap (.linkMap entries) bytes calls
  | custom {typeName : String} {stream bytes : List UInt8} {calls : List LinkTarget}
      (written : Encoding.writeCustom context field typeName stream start earlier
        = ⟨bytes, calls, .ok ()⟩) :
      WrittenScalar context field start earlier .custom (.custom typeName stream) bytes calls

/-- A body that was written has the kind of its tag; all other values are refused. -/
theorem WrittenScalar.of_eq_ok {context : Context} {field : String} {tag : TypeTag} {value : Value}
    {start : Nat} {earlier calls : List LinkTarget} {bytes : List UInt8}
    (run : Encoding.writeScalar context field tag value start earlier = ⟨bytes, calls, .ok ()⟩) :
    WrittenScalar context field start earlier tag value bytes calls := by
  cases tag with
  | short =>
    -- a number of any width fits a tag of another one, if it is in range
    obtain ⟨v, number, fits, rfl, rfl⟩ := Encoding.writeInteger_eq_ok run
    exact .short number (of_decide_eq_true fits)
  | integer =>
    obtain ⟨v, number, fits, rfl, rfl⟩ := Encoding.writeInteger_eq_ok run
    exact .integer number (of_decide_eq_true fits)
  | long =>
    obtain ⟨v, number, -, rfl, rfl⟩ := Encoding.writeInteger_eq_ok run
    exact .long number
  | string =>
    cases value with
    | string text => cases run; exact .string text
    | _ => cases run
  | binary =>
    cases value with
    | binary content => cases run; exact .binary content
    | _ => cases run
  | linkBag =>
    cases value with
    | linkBag content => cases run; exact .linkBag content
    | _ => cases run
  | double =>
    -- a single is widened; the other way round would lose digits and is refused
    cases value with
    | double word => cases run; exact .double word
    | float word => cases run; exact .widened word
    | _ => cases run
  | float =>
    cases value with
    | float word => cases run; exact .float word
    | _ => cases run
  | byte =>
    cases value with
    | byte v => cases run; exact .byte v
    | _ => cases run
  | boolean =>
    cases value with
    | boolean v => cases run; exact .boolean v
    | _ => cases run
  | dateTime =>
    cases value with
    | dateTime millis | date millis | long millis => cases run; exact .dateTime rfl
    | _ => cases run
  | date =>
    cases value with
    | dateTime millis | date millis | long millis => cases run; exact .date rfl
    | _ => cases run
  | decimal =>
    cases value with
    | decimal number => exact .decimal run
    | _ => cases run
  | link =>
    -- a record may stand for its own identity
    cases value with
    | link target => exact .link run
    | embedded record => exact .linked run
    | _ => cases run
  | linkList =>
    -- as with values, the tag decides between list and set
    cases value with
    | linkList items => exact .linkList (Or.inl rfl) run
    | linkSet items => exact .linkList (Or.inr rfl) run
    | _ => cases run
  | linkSet =>
    cases value with
    | linkList items => exact .linkSet (Or.inl rfl) run
    | linkSet items => exact .linkSet (Or.inr rfl) run
    | _ => cases run
  | linkMap =>
    cases value with
    | linkMap entries => exact .linkMap run
    | _ => cases run
  | custom =>
    cases value with
    | custom typeName stream => exact .custom run
    | _ => cases run
  | _ => cases run

end DocumentCodec
