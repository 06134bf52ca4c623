import DocumentCodec.OrderedMap
import DocumentCodec.Record
/-!
# What the operations build

The types of values and records admit more than any operation makes: two fields of one name, and
maps whose entries are out of order.  A value is well formed when nothing like that occurs in it at
any depth, in the records that links point at and those of serializable objects too.
-/

namespace DocumentCodec

mutual

/-- Nothing in the value is out of order. -/
def Value.isWellFormed : Value → Bool
  | .embedded record => record.isWellFormed
  | .embeddedList items => wellFormedItems items
  | .embeddedSet items => wellFormedItems items
  | .embeddedMap entries => decide (OrderedMap.Ascending entries) && wellFormedEntries entries
  | .link target => target.isWellFormed
  | .linkList items => wellFormedLinks items
  | .linkSet items => wellFormedLinks items
  | .linkMap entries => decide (OrderedMap.Ascending entries) && wellFormedLinkEntries entries
  | .serializable _ record => record.isWellFormed
  | _ => true
termination_by structural x => x

/-- Nothing in the target is out of order. -/
def LinkTarget.isWellFormed : LinkTarget → Bool
  | .identity _ => true
  | .record r => r.isWellFormed
termination_by structural x => x

/-- Nothing in the field is out of order. -/
def Field.isWellFormed : Field → Bool
  | ⟨_, value, _⟩ => value.isWellFormed
termination_by structural x => x

/-- The fields have distinct names, and nothing in them is out of order. -/
def Record.isWellFormed : Record → Bool
  | ⟨_, _, fields, _⟩ => decide (fields.map (·.name)).Nodup && wellFormedFields fields
termination_by structural x => x

/-- Each value of a list is well formed. -/
def wellFormedItems : List Value → Bool
  | [] => true
  | item :: rest => item.isWellFormed && wellFormedItems rest
termination_by structural x => x

/-- Each value of a map is well formed. -/
def wellFormedEntries : List (String × Value) → Bool
  | [] => true
  | (_, value) :: rest => value.isWellFormed && wellFormedEntries rest
termination_by structural x => x

/-- A link element is absent or well formed. -/
def wellFormedLink : Option LinkTarget → Bool
  | none => true
  | some target => target.isWellFormed
termination_by structural x => x

/-- Each link of a list is well formed. -/
def wellFormedLinks : List (Option LinkTarget) → Bool
  | [] => true
  | item :: rest => wellFormedLink item && wellFormedLinks rest
termination_by structural x => x

/-- Each link of a map is well formed. -/
def wellFormedLinkEntries : List (String × Option LinkTarget) → Bool
  | [] => true
  | (_, item) :: rest => wellFormedLink item && wellFormedLinkEntries rest
termination_by structural x => x

/-- Each field of a record is well formed. -/
def wellFormedFields : List Field → Bool
  | [] => true
  | field :: rest => field.isWellFormed && wellFormedFields rest
termination_by structural x => x

end

/-! ## Member by member -/

theorem Field.isWellFormed_eq (field : Field) : field.isWellFormed = field.value.isWellFormed := by
  cases field
  rfl

/-- Elements are in order just if each is. -/
theorem wellFormedItems_iff {items : List Value} :
    wellFormedItems items = true ↔ ∀ item ∈ items, item.isWellFormed = true := by
  induction items with
  | nil => simp [wellFormedItems]
  | cons item rest ih => rw [wellFormedItems, Bool.and_eq_true_iff, ih, List.forall_mem_cons]

/-- Members are in order just if the value of each is. -/
theorem wellFormedEntries_iff {entries : List (String × Value)} :
    wellFormedEntries entries = true ↔ ∀ entry ∈ entries, entry.2.isWellFormed = true := by
  induction entries with
  | nil => simp [wellFormedEntries]
  | cons entry rest ih => rw [wellFormedEntries, Bool.and_eq_true_iff, ih, List.forall_mem_cons]

/-- Links are in order just if each is. -/
theorem wellFormedLinks_iff {items : List (Option LinkTarget)} :
    wellFormedLinks items = true ↔ ∀ item ∈ items, wellFormedLink item = true := by
  induction items with
  | nil => simp [wellFormedLinks]
  | cons item rest ih => rw [wellFormedLinks, Bool.and_eq_true_iff, ih, List.forall_mem_cons]

/-- Members that are links are in order just if each link is. -/
theorem wellFormedLinkEntries_iff {entries : List (String × Option LinkTarget)} :
    wellFormedLinkEntries entries = true ↔ ∀ entry ∈ entries, wellFormedLink entry.2 = true := by
  induction entries with
  | nil => simp [wellFormedLinkEntries]
  | cons entry rest ih =>
    rw [wellFormedLinkEntries, Bool.and_eq_true_iff, ih, List.forall_mem_cons]

/-- Fields are in order just if the value of each is. -/
theorem wellFormedFields_iff {fields : List Field} :
    wellFormedFields fields = true ↔ ∀ field ∈ fields, field.value.isWellFormed = true := by
  induction fields with
  | nil => simp [wellFormedFields]
  | cons field rest ih =>
    rw [wellFormedFields, Bool.and_eq_true_iff, field.isWellFormed_eq, ih, List.forall_mem_cons]

end DocumentCodec
