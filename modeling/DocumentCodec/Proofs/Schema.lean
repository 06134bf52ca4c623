import DocumentCodec.Schema
import Mathlib.Algebra.Ring.Int.Defs
/-!
# Schemas that declarations build up

What the codec relies on is that a field's property leads back to the field: a header names the
property by its id, and the reader must find the field's name under that id again.

It holds of every schema that is built up from the empty one, because the id of a global property is
its place, properties are only ever added behind the others, and a declaration is added together
with the property that it resolves to.
-/

namespace DocumentCodec

/-- What the schema says of a field it says again when it is asked for the property's id. -/
structure Snapshot.IsCoherent (schema : Snapshot) : Prop where
  again : ∀ className field property, schema.ofField? className field = some property →
    property.name = field ∧ 0 ≤ property.id.toInt ∧ schema.byId? property.id = some property

namespace Schema

variable {schema grown : Schema} {className field : String} {declared linked : Option TypeTag}
  {id : Int32} {property : Property}

/-- A schema that declarations built up.  A declaration that is refused leaves the schema as it
is. -/
inductive Built : Schema → Prop where
  | empty : Built Schema.empty
  | declare {schema grown : Schema} {className field : String} {declared linked : Option TypeTag}
      {id : Int32} (built : Built schema)
      (run : schema.declare className field declared linked = .ok (id, grown)) : Built grown

/-- The id of each property is its place, and each declaration resolves to a property that has the
name of its field. -/
structure Consistent (schema : Schema) : Prop where
  placed : ∀ (place : Nat) property, schema.properties[place]? = some property →
    property.id.toInt = place
  resolved : ∀ declaration ∈ schema.declarations, ∃ property,
    schema.byId? declaration.id = some property ∧ property.name = declaration.field

/-! ## Looking up -/

/-- An id is the place of its property, and no negative number is one. -/
theorem byId?_eq_some : schema.byId? id = some property ↔
    0 ≤ id.toInt ∧ schema.properties[id.toInt.toNat]? = some property := by
  rw [byId?]
  split
  · next natural => exact ⟨fun found => ⟨natural, found⟩, fun found => found.2⟩
  · next negative =>
    constructor
    · intro found
      cases found
    · exact fun found => absurd found.1 negative

/-- A property is found under its own id. -/
theorem Consistent.id_of_byId? (consistent : schema.Consistent)
    (found : schema.byId? id = some property) : property.id = id := by
  obtain ⟨natural, there⟩ := byId?_eq_some.mp found
  have place := consistent.placed _ _ there
  rw [Int.toNat_of_nonneg natural] at place
  exact Int32.toInt_inj.mp place

/-- A property that is there is found under its id. -/
theorem Consistent.byId?_of_mem (consistent : schema.Consistent)
    (there : property ∈ schema.properties) : schema.byId? property.id = some property := by
  obtain ⟨place, found⟩ := List.mem_iff_getElem?.mp there
  have same := consistent.placed place property found
  refine byId?_eq_some.mpr ⟨by omega, ?_⟩
  rw [same, Int.toNat_natCast]
  exact found

/-- Properties that are added behind the others change none of the answers. -/
theorem byId?_append (more : List Property) {declarations : List Declaration}
    (found : schema.byId? id = some property) :
    (⟨schema.properties ++ more, declarations⟩ : Schema).byId? id = some property := by
  obtain ⟨natural, there⟩ := byId?_eq_some.mp found
  refine byId?_eq_some.mpr ⟨natural, ?_⟩
  obtain ⟨inside, -⟩ := List.getElem?_eq_some_iff.mp there
  rw [List.getElem?_append_left inside]
  exact there

/-! ## One declaration -/

/-- A global property is one that was there, or the next one. -/
theorem intern_eq_ok (run : schema.intern field declared linked = .ok (id, grown)) :
    (∃ property ∈ schema.properties, property.name = field ∧ property.id = id ∧ grown = schema) ∨
      (schema.size : Int) < 2 ^ 31 ∧ id = Int32.ofNat schema.size ∧
        grown = ⟨schema.properties ++ [⟨id, field, declared, linked⟩], schema.declarations⟩ := by
  rw [intern] at run
  split at run
  · next property found =>
    cases run
    have matched := List.find?_some found
    rw [Bool.and_eq_true, Bool.and_eq_true] at matched
    exact Or.inl ⟨property, List.mem_of_find?_eq_some found, of_decide_eq_true matched.1.1, rfl, rfl⟩
  · split at run
    · cases run
    · next fits =>
      cases run
      exact Or.inr ⟨by omega, rfl, rfl⟩

/-- A declaration that is granted gives the property a place, and notes that the field of the class
has it. -/
theorem declare_eq_ok (run : schema.declare className field declared linked = .ok (id, grown)) :
    ∃ interned, schema.intern field declared linked = .ok (id, interned) ∧
      grown = ⟨interned.properties, interned.declarations ++ [⟨className, field, id⟩]⟩ := by
  rw [declare] at run
  split at run
  · cases run
  · split at run
    · cases run
    · split at run
      · cases run
      · next id interned there =>
        cases run
        exact ⟨interned, there, rfl⟩

/-- Interning keeps a schema consistent, and the id it gives is that of a property of the name. -/
theorem Consistent.intern (consistent : schema.Consistent)
    (run : schema.intern field declared linked = .ok (id, grown)) : grown.Consistent ∧
      ∃ property, grown.byId? id = some property ∧ property.name = field := by
  rcases intern_eq_ok run with ⟨property, there, named, rfl, rfl⟩ | ⟨few, same, rfl⟩
  · exact ⟨consistent, property, consistent.byId?_of_mem there, named⟩
  · -- the new property is the last one, and its id is its place
    have next : id.toInt = schema.size := by
      rw [same, Int32.toInt_ofNat_of_lt (by omega)]
    refine ⟨⟨fun place property found => ?_, fun declaration there => ?_⟩, ?_⟩
    · rw [List.getElem?_append] at found
      split at found
      · -- the properties that were there keep their places
        exact consistent.placed place property found
      · next beyond =>
        obtain ⟨last, -⟩ := List.getElem?_eq_some_iff.mp found
        have here : place = schema.size := by
          rw [List.length_singleton] at last
          rw [size]
          omega
        subst here
        rw [size, Nat.sub_self] at found
        cases found
        exact next
    · obtain ⟨property, found, named⟩ := consistent.resolved declaration there
      exact ⟨property, byId?_append _ found, named⟩
    · refine ⟨⟨id, field, declared, linked⟩, byId?_eq_some.mpr ⟨by omega, ?_⟩, rfl⟩
      rw [next, Int.toNat_natCast, size]
      exact List.getElem?_concat_length

/-- To declare one field more leaves every older declaration at the property it had. -/
theorem Consistent.declare (consistent : schema.Consistent)
    (run : schema.declare className field declared linked = .ok (id, grown)) :
    grown.Consistent := by
  obtain ⟨interned, there, rfl⟩ := declare_eq_ok run
  obtain ⟨kept, property, found, named⟩ := consistent.intern there
  refine ⟨kept.placed, fun declaration inside => ?_⟩
  rcases List.mem_append.mp inside with before | last
  · exact kept.resolved declaration before
  · rw [List.mem_singleton.mp last]
    exact ⟨property, found, named⟩

/-! ## All declarations

A schema is built up from the empty one, and each declaration keeps what there was.  So what a
header names by an id is what it was named for. -/

/-- **A schema that was built by declarations is consistent.** -/
theorem Built.consistent (built : schema.Built) : schema.Consistent := by
  induction built with
  | empty =>
    refine ⟨fun place property found => ?_, fun declaration there => by cases there⟩
    rw [Schema.empty, List.getElem?_nil] at found
    cases found
  | declare _ run ih => exact ih.declare run

/-- **What the codec sees of a built schema is coherent.** -/
theorem Built.isCoherent (built : schema.Built) : schema.toSnapshot.IsCoherent := by
  constructor
  intro className field property known
  obtain ⟨declaration, there, found⟩ := Option.bind_eq_some_iff.mp known
  have matched := List.find?_some there
  rw [Bool.and_eq_true] at matched
  obtain ⟨resolved, found', named⟩ :=
    built.consistent.resolved declaration (List.mem_of_find?_eq_some there)
  have same : resolved = property := Option.some.inj (found'.symm.trans found)
  subst same
  -- a declaration leads to the property of its own id, so looking the id up finds it again
  have own := built.consistent.id_of_byId? found
  refine ⟨named.trans (of_decide_eq_true matched.2), ?_, ?_⟩
  · rw [own]
    exact (byId?_eq_some.mp found).1
  · rw [own]
    exact found

end Schema

/-- The codec sees a schema that declarations built up. -/
def Snapshot.IsBuilt (snapshot : Snapshot) : Prop :=
  ∃ schema : Schema, schema.Built ∧ schema.toSnapshot = snapshot

theorem Snapshot.IsBuilt.isCoherent {snapshot : Snapshot} (built : snapshot.IsBuilt) :
    snapshot.IsCoherent := by
  obtain ⟨schema, built, rfl⟩ := built
  exact built.isCoherent

end DocumentCodec
