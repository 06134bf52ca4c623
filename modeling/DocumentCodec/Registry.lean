import DocumentCodec.Error
import DocumentCodec.OrderedMap
import DocumentCodec.Text.Braced
import DocumentCodec.Value
/-!
# The application's own types

An application stores objects of its own in two ways: as an opaque byte stream under a type name,
or as a record under a class name.  To read such an object back it registers a factory under that
name.  A factory may refuse what it is given, and that refusal is passed on as it came.  It may be a
text of the application's, but also a failure of the codec: a factory that decodes its stream may
well hand on what that decoding failed for.
-/

namespace DocumentCodec

/-- An object that stores itself as a byte stream. -/
structure CustomObject where
  typeName : String
  stream : List UInt8
deriving DecidableEq

/-- An object that stores itself as a record. -/
structure SerializableObject where
  className : String
  record : Record

/-- Makes an object from its byte stream. -/
abbrev CustomFactory := List UInt8 → Except Failure CustomObject

/-- Makes an object from its record. -/
abbrev SerializableFactory := Record → Except Failure SerializableObject

/-- The factories that an application registered, by name. -/
structure Registry where
  customs : List (String × CustomFactory)
  serializables : List (String × SerializableFactory)

namespace Registry

/-- The registry with no factories. -/
def empty : Registry := ⟨[], []⟩

variable (registry : Registry) (name : String)

/-- Registers the factory for a type of opaque objects, in place of an earlier one. -/
def registerCustom (factory : CustomFactory) : Registry :=
  { registry with customs := OrderedMap.insert name factory registry.customs }

/-- Registers the factory for a class of objects, in place of an earlier one. -/
def registerSerializable (factory : SerializableFactory) : Registry :=
  { registry with serializables := OrderedMap.insert name factory registry.serializables }

/-- There is a factory for this type of opaque objects. -/
def hasCustom : Bool := (OrderedMap.find? name registry.customs).isSome

/-- There is a factory for this class of objects. -/
def hasSerializable : Bool := (OrderedMap.find? name registry.serializables).isSome

/-- Makes an object of a type from its stream. -/
def makeCustom (stream : List UInt8) : Except Failure CustomObject :=
  match OrderedMap.find? name registry.customs with
  | none => .error (.codec (.unregisteredType name))
  | some factory => factory stream

/-- Makes an object of a class from its record. -/
def makeSerializable (record : Record) : Except Failure SerializableObject :=
  match OrderedMap.find? name registry.serializables with
  | none => .error (.codec (.unregisteredType name))
  | some factory => factory record

/-- The names that have factories, in one line. -/
def describe : String :=
  Braced.record "TypeRegistry"
    [("custom", Braced.list (registry.customs.map fun entry => Quoted.quote entry.1)),
     ("serializable", Braced.list (registry.serializables.map fun entry => Quoted.quote entry.1))]

end Registry
end DocumentCodec
