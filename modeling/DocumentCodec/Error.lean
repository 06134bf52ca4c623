import DocumentCodec.RecordId
import DocumentCodec.Text.Utf8
import DocumentCodec.TypeTag
import DocumentCodec.Varint
/-!
# Failures and their causes

A failure is what went wrong, with the data that says so: a byte offset when bytes were refused, a
field and the kind of its value when a value was.  The wording is kept apart, in one `message` for
each type of cause.

A `Failure` of decoding is a `CodecError` or a text of the application's own.  A factory that the
application registered may refuse with either, and its refusal is passed on as it came.
-/

namespace DocumentCodec

/-! ## Bytes that are refused -/

/-- Why bytes are no record. -/
inductive Malformation where
  /-- a jump to `target`, past the `length` bytes of input -/
  | seekBeyondEnd (target length : Nat)
  /-- `needed` bytes are asked for and `left` remain -/
  | tooFewBytes (needed left : Nat)
  /-- more bytes were read than the input has, so some were read twice -/
  | overlap (length : Nat)
  | varint (cause : VarintError)
  /-- a varint outside the signed words of `bits` bits -/
  | varintTooWide (value : Int64) (bits : Nat)
  | negativeLength (length : Int32)
  | invalidString (cause : Utf8Error)
  | invalidFieldName
  | negativePointer (pointer : Int32)
  | unknownTag (id : UInt8)
  | dayOutOfRange (day : Int64)
  | negativeDecimalLength (length : Int32)
  | transientElements
  | mapKeyType (tag : TypeTag)
deriving DecidableEq, Repr

/-- The text of a malformation. -/
def Malformation.message : Malformation → String
  | .seekBeyondEnd target length => s!"seek to {target} beyond input length {length}"
  | .tooFewBytes needed left => s!"need {needed} bytes, {left} remain"
  | .overlap length =>
    s!"decode visited more than the {length} input bytes; value bodies overlap"
  | .varint cause => cause.message
  | .varintTooWide value bits => s!"varint {value.toInt} overflows i{bits}"
  | .negativeLength length => s!"negative length {length.toInt}"
  | .invalidString cause => s!"invalid UTF-8 in string: {cause.message}"
  | .invalidFieldName => "field name is not valid UTF-8"
  | .negativePointer pointer => s!"negative body pointer {pointer.toInt}"
  | .unknownTag id => s!"unknown type tag {id.toNat}"
  | .dayOutOfRange day => s!"day number {day.toInt} out of range"
  | .negativeDecimalLength length => s!"negative decimal length {length.toInt}"
  | .transientElements => "collection of TRANSIENT elements"
  | .mapKeyType tag => s!"map key of type {tag.name} is not supported"

/-! ## Values that are refused -/

/-- Why a value cannot be stored. -/
inductive Unsupported where
  /-- values of this kind have no body under the tag -/
  | wrongKind (tag : TypeTag)
  | outOfRange (value : Int64) (tag : TypeTag)
  /-- nothing has a body under the tag -/
  | noBody (tag : TypeTag)
  | unregisteredCustom (typeName : String)
  | scaleTooWide (scale : Int64)
  | unscaledTooLong
  /-- the field is pinned to one type and the schema to another -/
  | typeConflict (pinned declared : TypeTag)
  | untypedField
  | untypedElement
  | untypedMapValue
  /-- the body begins where no pointer reaches -/
  | beyondPointers
deriving DecidableEq, Repr

/-- The text of the reason. -/
def Unsupported.message : Unsupported → String
  | .wrongKind tag => s!"value cannot be written as {tag.name}"
  | .outOfRange value tag => s!"{value.toInt} is out of range for {tag.name}"
  | .noBody tag => s!"{tag.name} has no body encoding"
  | .unregisteredCustom typeName => s!"custom type '{typeName}' is not registered"
  | .scaleTooWide scale => s!"scale {scale.toInt} exceeds 32 bits"
  | .unscaledTooLong => "unscaled value is too large"
  | .typeConflict pinned declared =>
    s!"type {pinned.name} conflicts with schema type {declared.name}"
  | .untypedField => "no storable type"
  | .untypedElement => "collection element has no storable type"
  | .untypedMapValue => "map value has no storable type"
  | .beyondPointers => "body offset exceeds the pointer range"

/-! ## Links that cannot be resolved -/

/-- Why a resolver could not store a link's target. -/
inductive PersistError where
  | unavailable (text : String)
  | saveFailed (text : String)
deriving DecidableEq, Repr

/-- The text of a resolver's refusal. -/
def PersistError.message : PersistError → String
  | .unavailable text => s!"persistence is unavailable: {text}"
  | .saveFailed text => s!"save failed: {text}"

/-- Why a link got no identity. -/
inductive LinkProblem where
  | invalidAnswer (rid : RecordId)
  | refused (cause : PersistError)
  | noResolver
deriving DecidableEq, Repr

/-- The text of the problem. -/
def LinkProblem.message : LinkProblem → String
  | .invalidAnswer rid => s!"resolver returned invalid identity {rid.text}"
  | .refused cause => cause.message
  | .noResolver => "no link resolver supplied"

/-! ## Failures of the codec -/

/-- A failure of encoding or decoding. -/
inductive CodecError where
  /-- decoding met bytes that are no record; `offset` is where that was seen -/
  | malformedInput (offset : Nat) (reason : Malformation)
  /-- a field holds a value that cannot be stored -/
  | unsupportedValue (field kind : String) (reason : Unsupported)
  /-- a header names a property that the schema does not have -/
  | unresolvedProperty (id : Int32) (offset : Nat)
  /-- a link's target has no identity that can be stored -/
  | linkResolutionFailure (rid : RecordId) (problem : LinkProblem)
  /-- no factory makes objects of this type -/
  | unregisteredType (name : String)
  /-- containers are nested deeper than `limit` -/
  | nestingTooDeep (depth limit : Nat)
deriving DecidableEq, Repr

/-- The text of a failure. -/
def CodecError.message : CodecError → String
  | .malformedInput offset reason => s!"malformed input at offset {offset}: {reason.message}"
  | .unsupportedValue field kind reason =>
    s!"cannot encode field '{field}' holding {kind}: {reason.message}"
  | .unresolvedProperty id offset =>
    s!"property id {id.toInt} at offset {offset} is not in the schema snapshot"
  | .linkResolutionFailure rid problem =>
    s!"cannot resolve link {rid.text}: {problem.message}"
  | .unregisteredType name => s!"no factory registered for type '{name}'"
  | .nestingTooDeep depth limit => s!"nesting depth {depth} exceeds maximum {limit}"

/-- A failure of decoding.  A factory may raise one of the application's own, which has a text and
nothing else. -/
inductive Failure where
  | codec (cause : CodecError)
  | factory (text : String)
deriving DecidableEq, Repr

/-- A text alone is a failure of the application's own. -/
instance : Coe String Failure := ⟨.factory⟩

/-- The text of a failure. -/
def Failure.message : Failure → String
  | .codec cause => cause.message
  | .factory text => text

end DocumentCodec
