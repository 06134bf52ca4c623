import DocumentCodec.Record
import DocumentCodec.Text.Braced
import DocumentCodec.Text.FloatText
/-!
# Values written out in one line

The form in which a value is shown to a reader: the name of its kind and what it holds, down to
every field of a record and every byte of a binary.  Floating-point numbers are shown by the fewest
digits that read back, decimals by sign, scale and the 64-bit limbs of their unscaled part, lowest
limb first.
-/

namespace DocumentCodec

namespace Printed

/-- Floating-point numbers take an exponent below `10 ^ -4` and from `10 ^ 16` on. -/
def floatStyle : FloatStyle := ⟨-4, 15⟩

/-- Bytes as a list of numbers. -/
def bytes (data : List UInt8) : String := Braced.list (data.map fun b => toString b.toNat)

/-- The digits of `n` to the base `2 ^ 64`, lowest first, none for zero; `room` bounds their
number. -/
def limbs : (room : Nat) → (n : Nat) → List Nat
  | 0, _ => []
  | room + 1, n => if n = 0 then [] else n % UInt64.size :: limbs room (n / UInt64.size)

/-- A decimal by its parts. -/
def decimal (number : Decimal) : String :=
  let sign := if number.unscaled = 0 then "NoSign" else if number.unscaled < 0 then "Minus" else "Plus"
  let magnitude := number.unscaled.natAbs
  let digits := (limbs (magnitude.log2 / 64 + 1) magnitude).map toString
  s!"BigDecimal(sign={sign}, scale={number.scale.toInt}, digits={Braced.list digits})"

/-- An identity by its parts. -/
def recordId (rid : RecordId) : String :=
  Braced.record "RecordId"
    [("cluster", toString rid.cluster.toInt), ("position", toString rid.position.toInt)]

end Printed

open Printed

mutual

/-- A value in one line. -/
def Value.printed : Value → String
  | .null => "Null"
  | .transient => "Transient"
  | .boolean v => Braced.variant "Boolean" (toString v)
  | .byte v => Braced.variant "Byte" (toString v.toInt)
  | .short v => Braced.variant "Short" (toString v.toInt)
  | .integer v => Braced.variant "Integer" (toString v.toInt)
  | .long v => Braced.variant "Long" (toString v.toInt)
  | .float word => Braced.variant "Float" (floatStyle.text .single word.toNat)
  | .double word => Braced.variant "Double" (floatStyle.text .double word.toNat)
  | .string text => Braced.variant "String" (Quoted.quote text)
  | .binary data => Braced.variant "Binary" (bytes data)
  | .date millis => Braced.variant "Date" (toString millis.toInt)
  | .dateTime millis => Braced.variant "DateTime" (toString millis.toInt)
  | .decimal number => Braced.variant "Decimal" (Printed.decimal number)
  | .embedded record => Braced.variant "Embedded" record.printed
  | .embeddedList items => Braced.variant "EmbeddedList" (Braced.list (printedItems items))
  | .embeddedSet items => Braced.variant "EmbeddedSet" (Braced.list (printedItems items))
  | .embeddedMap entries => Braced.variant "EmbeddedMap" (Braced.map (printedEntries entries))
  | .link target => Braced.variant "Link" target.printed
  | .linkList items => Braced.variant "LinkList" (Braced.list (printedLinks items))
  | .linkSet items => Braced.variant "LinkSet" (Braced.list (printedLinks items))
  | .linkMap entries => Braced.variant "LinkMap" (Braced.map (printedLinkEntries entries))
  | .linkBag data => Braced.variant "LinkBag" (bytes data)
  | .custom typeName stream =>
    Braced.variant "Custom"
      (Braced.record "Object" [("type_name", Quoted.quote typeName), ("stream", bytes stream)])
  | .serializable className record =>
    Braced.variant "Serializable"
      (Braced.record "Object"
        [("class_name", Quoted.quote className), ("record", record.printed)])
termination_by structural x => x

/-- A link's target in one line. -/
def LinkTarget.printed : LinkTarget → String
  | .identity rid => Braced.variant "Id" (recordId rid)
  | .record r => Braced.variant "Record" r.printed
termination_by structural x => x

/-- A field in one line. -/
def Field.printed : Field → String
  | ⟨name, value, pinned⟩ =>
    Braced.record "Field"
      [("name", Quoted.quote name), ("value", value.printed),
       ("type_override", Braced.optional (pinned.map (·.label)))]
termination_by structural x => x

/-- A record in one line, with the places of its fields. -/
def Record.printed : Record → String
  | ⟨className, identity, fields, isEmbedded⟩ =>
    Braced.record "Record"
      [("class_name", Braced.optional (className.map Quoted.quote)),
       ("identity", recordId identity),
       ("fields", Braced.list (printedFields fields)),
       ("index", Braced.map (fields.zipIdx.map fun f => (Quoted.quote f.1.name, toString f.2))),
       ("embedded", toString isEmbedded)]
termination_by structural x => x

/-- Each value of a list. -/
def printedItems : List Value → List String
  | [] => []
  | item :: rest => item.printed :: printedItems rest
termination_by structural x => x

/-- Each entry of a map. -/
def printedEntries : List (String × Value) → List (String × String)
  | [] => []
  | (key, value) :: rest => (Quoted.quote key, value.printed) :: printedEntries rest
termination_by structural x => x

/-- A link element. -/
def printedLink : Option LinkTarget → String
  | none => Braced.optional none
  | some target => Braced.optional (some target.printed)
termination_by structural x => x

/-- Each link of a list. -/
def printedLinks : List (Option LinkTarget) → List String
  | [] => []
  | item :: rest => printedLink item :: printedLinks rest
termination_by structural x => x

/-- Each entry of a map of links. -/
def printedLinkEntries : List (String × Option LinkTarget) → List (String × String)
  | [] => []
  | (key, item) :: rest => (Quoted.quote key, printedLink item) :: printedLinkEntries rest
termination_by structural x => x

/-- Each field of a record. -/
def printedFields : List Field → List String
  | [] => []
  | field :: rest => field.printed :: printedFields rest
termination_by structural x => x

end

end DocumentCodec
