import DocumentCodec.Record
import DocumentCodec.OrderedMap
import DocumentCodec.Text.Utf8
import Mathlib.Algebra.GroupWithZero.Nat
/-!
# How much a value holds

Two measures of what decoding makes.  `content` counts the value itself, each value, link element
and map entry in it at any depth, and the bytes of its texts: strings, byte strings, map keys and
the class names of embedded records.  `nesting` is the number of containers one inside the other.

A map keeps one entry for each key, so it never holds more than the entries it was made from.
-/

namespace DocumentCodec

/-! ## The measures -/

mutual

/-- The values and links in a value, itself included, and the bytes of its texts. -/
def Value.content : Value → Nat
  | .string text => 1 + (Utf8.encode text).length
  | .binary bytes => 1 + bytes.length
  | .linkBag bytes => 1 + bytes.length
  | .embedded record => 1 + record.content
  | .embeddedList items => 1 + contentOfItems items
  | .embeddedSet items => 1 + contentOfItems items
  | .embeddedMap members => 1 + contentOfMembers members
  | .linkList items => 1 + items.length
  | .linkSet items => 1 + items.length
  | .linkMap entries => 1 + (entries.map fun entry => (Utf8.encode entry.1).length + 1).sum
  | .custom typeName stream => 1 + (Utf8.encode typeName).length + stream.length
  | .serializable className record => 1 + (Utf8.encode className).length + record.content
  | _ => 1
termination_by structural x => x

/-- What the fields of a record hold, and the bytes of its class name. -/
def Record.content : Record → Nat
  | ⟨className, _, fields, _⟩ =>
    (Utf8.encode (className.getD "")).length + contentOfFields fields
termination_by structural x => x

/-- What the fields of a list hold. -/
def contentOfFields : List Field → Nat
  | [] => 0
  | ⟨_, value, _⟩ :: rest => value.content + contentOfFields rest
termination_by structural x => x

/-- What the values of a list hold. -/
def contentOfItems : List Value → Nat
  | [] => 0
  | item :: rest => item.content + contentOfItems rest
termination_by structural x => x

/-- What the members of a map hold, and the bytes of their keys. -/
def contentOfMembers : List (String × Value) → Nat
  | [] => 0
  | (key, value) :: rest => (Utf8.encode key).length + value.content + contentOfMembers rest
termination_by structural x => x

end

mutual

/-- The number of containers one inside the other in a value. -/
def Value.nesting : Value → Nat
  | .embedded record => record.nesting + 1
  | .embeddedList items => nestingOfItems items + 1
  | .embeddedSet items => nestingOfItems items + 1
  | .embeddedMap members => nestingOfMembers members + 1
  | .serializable _ record => record.nesting + 1
  | _ => 0
termination_by structural x => x

/-- The number of containers one inside the other in the fields of a record. -/
def Record.nesting : Record → Nat
  | ⟨_, _, fields, _⟩ => nestingOfFields fields
termination_by structural x => x

/-- The deepest nesting in a list of fields. -/
def nestingOfFields : List Field → Nat
  | [] => 0
  | ⟨_, value, _⟩ :: rest => max value.nesting (nestingOfFields rest)
termination_by structural x => x

/-- The deepest nesting in a list of values. -/
def nestingOfItems : List Value → Nat
  | [] => 0
  | item :: rest => max item.nesting (nestingOfItems rest)
termination_by structural x => x

/-- The deepest nesting in a map. -/
def nestingOfMembers : List (String × Value) → Nat
  | [] => 0
  | (_, value) :: rest => max value.nesting (nestingOfMembers rest)
termination_by structural x => x

end

/-! ## The measures of a whole from those of its parts

Both measures are sums and maxima over the parts, so a decoding that knows what its parts are worth
knows what the whole is worth. -/

/-- The content of members is that of their keys and values added up. -/
theorem contentOfMembers_eq (members : List (String × Value)) : contentOfMembers members
    = (members.map fun member => (Utf8.encode member.1).length + member.2.content).sum := by
  induction members with
  | nil => rfl
  | cons member rest ih => rw [contentOfMembers, ih, List.map_cons, List.sum_cons]

/-- Members nest no deeper than the deepest of them. -/
theorem nestingOfMembers_le_iff {members : List (String × Value)} {room : Nat} :
    nestingOfMembers members ≤ room ↔ ∀ member ∈ members, member.2.nesting ≤ room := by
  induction members with
  | nil => simp [nestingOfMembers]
  | cons member rest ih => rw [nestingOfMembers, Nat.max_le, ih, List.forall_mem_cons]

/-! ## Maps

An entry that comes with the key of another takes its place, so a map that is built up from entries
never grows beyond them. -/

namespace OrderedMap

variable {α : Type}

/-- A key that is there already is replaced, so inserting adds at most the weight of the new entry.
-/
theorem sum_insert_le (weight : String × α → Nat) (key : String) (value : α)
    (map : List (String × α)) :
    ((insert key value map).map weight).sum ≤ weight (key, value) + (map.map weight).sum := by
  induction map with
  | nil => exact Nat.le_refl _
  | cons entry rest ih =>
    obtain ⟨k, v⟩ := entry
    unfold insert
    split
    · exact Nat.le_refl _
    · split
      · simp only [List.map_cons, List.sum_cons]
        omega
      · simp only [List.map_cons, List.sum_cons]
        omega

/-- A map weighs no more than the entries it was made from. -/
theorem sum_ofList_le (weight : String × α → Nat) (entries : List (String × α)) :
    ((ofList entries).map weight).sum ≤ (entries.map weight).sum := by
  -- what is in the map already counts too, so the induction goes over both
  have general : ∀ (entries map : List (String × α)),
      ((entries.foldl (fun map entry => insert entry.1 entry.2 map) map).map weight).sum
        ≤ (entries.map weight).sum + (map.map weight).sum := by
    intro entries
    induction entries with
    | nil =>
      intro map
      exact Nat.le_add_left _ _
    | cons entry rest ih =>
      intro map
      obtain ⟨key, value⟩ := entry
      have grown := sum_insert_le weight key value map
      have later := ih (insert key value map)
      rw [List.foldl_cons, List.map_cons, List.sum_cons]
      exact Nat.le_trans later (by omega)
  exact general entries []

/-- A map has no more entries than it was made from. -/
theorem length_ofList_le (entries : List (String × α)) :
    (ofList entries).length ≤ entries.length := by
  have counted := sum_ofList_le (fun _ => 1) entries
  simp only [List.map_const', List.sum_replicate_nat, Nat.mul_one] at counted
  exact counted

/-- A map holds nothing but the entries it was made from. -/
theorem mem_of_mem_ofList {entry : String × α} {entries : List (String × α)}
    (h : entry ∈ ofList entries) : entry ∈ entries := by
  -- here too the map that is built up varies
  have general : ∀ (entries map : List (String × α)),
      entry ∈ entries.foldl (fun map entry => insert entry.1 entry.2 map) map →
      entry ∈ entries ∨ entry ∈ map := by
    intro entries
    induction entries with
    | nil => exact fun map there => Or.inr there
    | cons first rest ih =>
      intro map there
      rcases ih _ there with later | grown
      · exact Or.inl (List.mem_cons_of_mem _ later)
      · rcases mem_insert grown with rfl | before
        · exact Or.inl List.mem_cons_self
        · exact Or.inr before
  rcases general entries [] h with there | none
  · exact there
  · cases none

end OrderedMap
end DocumentCodec
