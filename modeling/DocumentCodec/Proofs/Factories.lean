import Mathlib.Logic.Function.Basic
import DocumentCodec.Context
/-!
# Factories that refuse

A factory is the application's, and it may refuse what it is given with any failure at all, one that
a decoding of its own ran into among them.  So nothing can be read off a failure about where it came
from.  What can be said is what would have come of it, had the factories refused otherwise.

Two registries are compared for that.  One in which a single call is refused with another failure
tells the failure of this call from all the others: it changes if it was this call's, and only then.
And one in which every factory is muted, so that whatever is refused is refused with a text of no
words, leaves none but the failures that are the codec's own.  Both keep to the first registry:
under the same names they make whatever it makes.
-/

namespace DocumentCodec

/-- A call of a factory: the name it is registered under, the factory, and what it is given. -/
inductive FactoryCall where
  | custom (name : String) (factory : CustomFactory) (stream : List UInt8)
  | serializable (name : String) (factory : SerializableFactory) (record : Record)

namespace Registry

/-- The factory of the call is registered, and it refuses what it is given. -/
def Refuses (registry : Registry) (e : Failure) : FactoryCall → Prop
  | .custom name factory stream =>
    OrderedMap.find? name registry.customs = some factory ∧ factory stream = .error e
  | .serializable name factory record =>
    OrderedMap.find? name registry.serializables = some factory ∧ factory record = .error e

open Classical in
/-- The registry in which the factory of one call refuses what it is given there with this failure,
and makes of everything else what it did. -/
noncomputable def refusing (registry : Registry) (e : Failure) : FactoryCall → Registry
  | .custom name factory stream =>
    registry.registerCustom name (Function.update factory stream (.error e))
  | .serializable name factory record =>
    registry.registerSerializable name (Function.update factory record (.error e))

/-! ## Factories of one kind

What holds of the factories of one kind holds of those of the other. -/

section Factories

variable {α β : Type} {factories others : List (String × (α → Except Failure β))} {name : String}
  {given : α} {e e' : Failure}

/-- What the factory that is registered under a name makes of what it is given. -/
def makeFrom (factories : List (String × (α → Except Failure β))) (name : String) (given : α) :
    Except Failure β :=
  match OrderedMap.find? name factories with
  | none => .error (.codec (.unregisteredType name))
  | some factory => factory given

theorem makeFrom_of_find? {factory : α → Except Failure β}
    (found : OrderedMap.find? name factories = some factory) :
    makeFrom factories name given = factory given := by
  rw [makeFrom, found]

theorem makeFrom_of_unknown (unknown : OrderedMap.find? name factories = none) :
    makeFrom factories name given = .error (.codec (.unregisteredType name)) := by
  rw [makeFrom, unknown]

/-- Nothing is made because nothing is registered, or because the factory refuses what it is given;
and then it fails with whatever the factory refuses with. -/
theorem makeFrom_eq_error [DecidableEq α] (failed : makeFrom factories name given = .error e) :
    (OrderedMap.find? name factories = none ∧ e = .codec (.unregisteredType name)) ∨
      ∃ factory, OrderedMap.find? name factories = some factory ∧ factory given = .error e ∧
        ∀ e', makeFrom
          (OrderedMap.insert name (Function.update factory given (.error e')) factories)
          name given = .error e' := by
  cases found : OrderedMap.find? name factories with
  | none =>
    rw [makeFrom_of_unknown found] at failed
    cases failed
    exact Or.inl ⟨rfl, rfl⟩
  | some factory =>
    rw [makeFrom_of_find? found] at failed
    refine Or.inr ⟨factory, rfl, failed, fun e' => ?_⟩
    rw [makeFrom_of_find? (OrderedMap.find?_insert_self _ _ _), Function.update_self]

/-- Other factories keep to these: they are registered under the same names and make whatever these
make.  What these refuse they may refuse otherwise. -/
structure KeptBy (factories others : List (String × (α → Except Failure β))) : Prop where
  unknown : ∀ name, OrderedMap.find? name others = none ↔ OrderedMap.find? name factories = none
  makes : ∀ {name given object}, makeFrom factories name given = .ok object →
    makeFrom others name given = .ok object

theorem KeptBy.refl : KeptBy factories factories := ⟨fun _ => Iff.rfl, id⟩

/-- One refusal more or less is no object less. -/
theorem keptBy_update [DecidableEq α] {factory : α → Except Failure β}
    (found : OrderedMap.find? name factories = some factory) (refused : factory given = .error e) :
    KeptBy factories
      (OrderedMap.insert name (Function.update factory given (.error e')) factories) := by
  constructor
  · intro other
    by_cases same : other = name
    · subst same
      rw [OrderedMap.find?_insert_self, found]
      exact iff_of_false (Option.some_ne_none _) (Option.some_ne_none _)
    · rw [OrderedMap.find?_insert_of_ne same]
  · intro other given' object made
    by_cases same : other = name
    · subst same
      rw [makeFrom_of_find? found] at made
      -- what was made was not made of what is refused
      have differs : given' ≠ given := by
        rintro rfl
        rw [refused] at made
        cases made
      rw [makeFrom_of_find? (OrderedMap.find?_insert_self _ _ _), Function.update_of_ne differs,
        made]
    · rw [makeFrom, OrderedMap.find?_insert_of_ne same]
      exact made

/-- The factory, refusing what it refuses with a text of no words. -/
def mute (factory : α → Except Failure β) (given : α) : Except Failure β :=
  (factory given).mapError fun _ => .factory ""

theorem mute_of_ok {factory : α → Except Failure β} {object : β}
    (made : factory given = .ok object) : mute factory given = .ok object := by
  rw [mute, made]
  rfl

/-- A muted factory says nothing when it fails. -/
theorem eq_of_mute {factory : α → Except Failure β} (refused : mute factory given = .error e) :
    e = .factory "" := by
  rw [mute] at refused
  cases made : factory given with
  | ok object =>
    rw [made] at refused
    cases refused
  | error said =>
    rw [made] at refused
    cases refused
    rfl

/-- The factories, each of them muted. -/
def muteAll (factories : List (String × (α → Except Failure β))) :
    List (String × (α → Except Failure β)) :=
  factories.map fun entry => (entry.1, mute entry.2)

theorem find?_muteAll (name : String) :
    OrderedMap.find? name (muteAll factories) = (OrderedMap.find? name factories).map mute := by
  rw [OrderedMap.find?, OrderedMap.find?, muteAll, List.find?_map, Option.map_map, Option.map_map]
  rfl

/-- Muted factories make what they did. -/
theorem keptBy_muteAll : KeptBy factories (muteAll factories) := by
  constructor
  · intro name
    rw [find?_muteAll, Option.map_eq_none_iff]
  · intro name given object made
    have muted : OrderedMap.find? name (muteAll factories) = _ := find?_muteAll name
    cases found : OrderedMap.find? name factories with
    | none =>
      rw [makeFrom_of_unknown found] at made
      cases made
    | some factory =>
      rw [makeFrom_of_find? found] at made
      rw [found, Option.map_some] at muted
      rw [makeFrom_of_find? muted]
      -- a factory that made something is one that did not refuse, and muting changes refusals alone
      exact mute_of_ok made

/-- A muted factory refuses with no words. -/
theorem eq_of_muteAll {factory : α → Except Failure β}
    (found : OrderedMap.find? name (muteAll factories) = some factory)
    (refused : factory given = .error e) : e = .factory "" := by
  rw [find?_muteAll] at found
  obtain ⟨own, -, rfl⟩ := Option.map_eq_some_iff.mp found
  exact eq_of_mute refused

end Factories

/-! ## Registries -/

variable {registry other : Registry} {call : FactoryCall} {name : String} {e e' : Failure}

theorem makeCustom_eq (stream : List UInt8) :
    registry.makeCustom name stream = makeFrom registry.customs name stream := by
  unfold makeCustom makeFrom
  cases OrderedMap.find? name registry.customs <;> rfl

theorem makeSerializable_eq (record : Record) :
    registry.makeSerializable name record = makeFrom registry.serializables name record := by
  unfold makeSerializable makeFrom
  cases OrderedMap.find? name registry.serializables <;> rfl

/-- Another registry keeps to this one if its factories do. -/
structure IsKeptBy (registry other : Registry) : Prop where
  customs : KeptBy registry.customs other.customs
  serializables : KeptBy registry.serializables other.serializables

namespace IsKeptBy

variable (kept : registry.IsKeptBy other)
include kept

/-- What one registry makes the other one makes too. -/
theorem makeCustom {stream : List UInt8} {object : CustomObject}
    (made : registry.makeCustom name stream = .ok object) :
    other.makeCustom name stream = .ok object := by
  rw [makeCustom_eq] at made ⊢
  exact kept.customs.makes made

/-- The same of records. -/
theorem makeSerializable {record : Record} {object : SerializableObject}
    (made : registry.makeSerializable name record = .ok object) :
    other.makeSerializable name record = .ok object := by
  rw [makeSerializable_eq] at made ⊢
  exact kept.serializables.makes made

/-- Both know the same types. -/
theorem hasCustom : other.hasCustom name = registry.hasCustom name := by
  have known := kept.customs.unknown name
  rw [Registry.hasCustom, Registry.hasCustom, Bool.eq_iff_iff, Option.isSome_iff_ne_none,
    Option.isSome_iff_ne_none]
  exact not_congr known

end IsKeptBy

/-- A registry in which a refused call is refused otherwise keeps to the first one. -/
theorem Refuses.isKeptBy (refuses : registry.Refuses e call) :
    registry.IsKeptBy (registry.refusing e' call) := by
  classical
  cases call with
  | custom => exact ⟨keptBy_update refuses.1 refuses.2, .refl⟩
  | serializable => exact ⟨.refl, keptBy_update refuses.1 refuses.2⟩

/-- The registry with every factory muted. -/
def muted (registry : Registry) : Registry :=
  ⟨muteAll registry.customs, muteAll registry.serializables⟩

theorem isKeptBy_muted : registry.IsKeptBy registry.muted := ⟨keptBy_muteAll, keptBy_muteAll⟩

theorem Refuses.eq_of_muted (refuses : registry.muted.Refuses e call) : e = .factory "" := by
  cases call with
  | custom => exact eq_of_muteAll refuses.1 refuses.2
  | serializable => exact eq_of_muteAll refuses.1 refuses.2

/-- An object is not made because nothing is registered that makes it, or because the factory
refuses, and then the failure is what it refuses with. -/
theorem of_makeCustom_error {stream : List UInt8}
    (failed : registry.makeCustom name stream = .error e) :
    (OrderedMap.find? name registry.customs = none ∧ e = .codec (.unregisteredType name)) ∨
      ∃ call, registry.Refuses e call ∧
        ∀ e', (registry.refusing e' call).makeCustom name stream = .error e' := by
  simp only [makeCustom_eq] at failed ⊢
  rcases makeFrom_eq_error failed with unknown | ⟨factory, found, refused, otherwise⟩
  · exact Or.inl unknown
  · exact Or.inr ⟨.custom name factory stream, ⟨found, refused⟩, otherwise⟩

/-- The same of records: the type is not registered, or its factory refuses and would have refused
with whatever else it said. -/
theorem of_makeSerializable_error {record : Record}
    (failed : registry.makeSerializable name record = .error e) :
    (OrderedMap.find? name registry.serializables = none ∧ e = .codec (.unregisteredType name)) ∨
      ∃ call, registry.Refuses e call ∧
        ∀ e', (registry.refusing e' call).makeSerializable name record = .error e' := by
  classical
  simp only [makeSerializable_eq] at failed ⊢
  rcases makeFrom_eq_error failed with unknown | ⟨factory, found, refused, otherwise⟩
  · exact Or.inl unknown
  · exact Or.inr ⟨.serializable name factory record, ⟨found, refused⟩, otherwise⟩

end Registry

/-! ## Contexts -/

namespace Context

/-- The context with other factories registered. -/
def registering (context : Context) (registry : Option Registry) : Context :=
  { context with registry := registry }

/-- The context with every factory muted. -/
def muted (context : Context) : Context := context.registering (context.registry.map (·.muted))

/-- A registered factory refuses something with this failure. -/
def RefusesWith (context : Context) (e : Failure) : Prop :=
  ∃ registry call, context.registry = some registry ∧ registry.Refuses e call

section Making

variable {context : Context} {registry : Registry} {name : String} {e : Failure}

/-- Objects are not made because nothing is registered, or for what a factory says. -/
theorem refuses_of_makeCustom (known : context.registry = some registry) {stream : List UInt8}
    (failed : registry.makeCustom name stream = .error e) :
    e = .codec (.unregisteredType name) ∨ context.RefusesWith e := by
  rcases Registry.of_makeCustom_error failed with ⟨-, same⟩ | ⟨call, refuses, -⟩
  · exact Or.inl same
  · exact Or.inr ⟨registry, call, known, refuses⟩

/-- The same of records, of a context. -/
theorem refuses_of_makeSerializable (known : context.registry = some registry) {record : Record}
    (failed : registry.makeSerializable name record = .error e) :
    e = .codec (.unregisteredType name) ∨ context.RefusesWith e := by
  rcases Registry.of_makeSerializable_error failed with ⟨-, same⟩ | ⟨call, refuses, -⟩
  · exact Or.inl same
  · exact Or.inr ⟨registry, call, known, refuses⟩

end Making

/-- Muted factories say nothing. -/
theorem eq_of_refuses_muted {context : Context} {e : Failure}
    (refuses : context.muted.RefusesWith e) : e = .factory "" := by
  obtain ⟨registry, call, known, refuses⟩ := refuses
  obtain ⟨own, -, rfl⟩ := Option.map_eq_some_iff.mp known
  exact refuses.eq_of_muted

end Context
end DocumentCodec
