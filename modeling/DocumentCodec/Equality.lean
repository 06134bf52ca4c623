import DocumentCodec.Number.FloatWord
import DocumentCodec.Record
/-!
# Equality of values and records

Two values are equal when they are of one kind and hold the same thing: floating-point numbers as
IEEE 754 compares them, decimals as numbers whatever their scales, collections element by element
in order.  Two records are equal when class name, identity and the ordered names and values of
their fields are; the types that fields are pinned to and who owns a record do not matter.

A NaN makes every value that holds it differ from itself, so this is `==` and not `=`.
-/

namespace DocumentCodec

mutual
/-- Equality of values. -/
def Value.same : Value → Value → Bool
  | .null, .null => true
  | .transient, .transient => true
  | .boolean a, .boolean b => a == b
  | .byte a, .byte b => a == b
  | .short a, .short b => a == b
  | .integer a, .integer b => a == b
  | .long a, .long b => a == b
  | .float a, .float b => FloatWord.sameSingle a b
  | .double a, .double b => FloatWord.sameDouble a b
  | .string a, .string b => a == b
  | .binary a, .binary b => a == b
  | .date a, .date b => a == b
  | .dateTime a, .dateTime b => a == b
  | .decimal a, .decimal b => a.sameValue b
  | .embedded a, .embedded b => a.same b
  | .embeddedList a, .embeddedList b => sameItems a b
  | .embeddedSet a, .embeddedSet b => sameItems a b
  | .embeddedMap a, .embeddedMap b => sameEntries a b
  | .link a, .link b => a.same b
  | .linkList a, .linkList b => sameLinks a b
  | .linkSet a, .linkSet b => sameLinks a b
  | .linkMap a, .linkMap b => sameLinkEntries a b
  | .linkBag a, .linkBag b => a == b
  | .custom name stream, .custom name' stream' => name == name' && stream == stream'
  | .serializable name record, .serializable name' record' => name == name' && record.same record'
  | _, _ => false
termination_by structural x => x

/-- Equality of link targets: an identity never equals a record. -/
def LinkTarget.same : LinkTarget → LinkTarget → Bool
  | .identity a, .identity b => a == b
  | .record a, .record b => a.same b
  | _, _ => false
termination_by structural x => x

/-- Equality of fields by name and value. -/
def Field.same : Field → Field → Bool
  | ⟨name, value, _⟩, ⟨name', value', _⟩ => name == name' && value.same value'
termination_by structural x => x

/-- Equality of records. -/
def Record.same : Record → Record → Bool
  | ⟨className, identity, fields, _⟩, ⟨className', identity', fields', _⟩ =>
    className == className' && identity == identity' && sameFields fields fields'
termination_by structural x => x

/-- Equality of lists of values. -/
def sameItems : List Value → List Value → Bool
  | [], [] => true
  | a :: as, b :: bs => a.same b && sameItems as bs
  | _, _ => false
termination_by structural x => x

/-- Equality of maps. -/
def sameEntries : List (String × Value) → List (String × Value) → Bool
  | [], [] => true
  | (k, a) :: as, (l, b) :: bs => k == l && a.same b && sameEntries as bs
  | _, _ => false
termination_by structural x => x

/-- Equality of link elements. -/
def sameLink : Option LinkTarget → Option LinkTarget → Bool
  | none, none => true
  | some a, some b => a.same b
  | _, _ => false
termination_by structural x => x

/-- Equality of lists of links. -/
def sameLinks : List (Option LinkTarget) → List (Option LinkTarget) → Bool
  | [], [] => true
  | a :: as, b :: bs => sameLink a b && sameLinks as bs
  | _, _ => false
termination_by structural x => x

/-- Equality of maps of links. -/
def sameLinkEntries :
    List (String × Option LinkTarget) → List (String × Option LinkTarget) → Bool
  | [], [] => true
  | (k, a) :: as, (l, b) :: bs => k == l && sameLink a b && sameLinkEntries as bs
  | _, _ => false
termination_by structural x => x

/-- Equality of lists of fields. -/
def sameFields : List Field → List Field → Bool
  | [], [] => true
  | a :: as, b :: bs => a.same b && sameFields as bs
  | _, _ => false
termination_by structural x => x
end

instance : BEq Value := ⟨Value.same⟩
instance : BEq Record := ⟨Record.same⟩

end DocumentCodec
