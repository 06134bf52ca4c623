import DocumentCodec.Proofs.SchemaGrowth
import Mathlib.Algebra.GroupWithZero.Nat
import Mathlib.Logic.Function.Basic
/-!
# What a schema knows after any calls

Two classes that declare the same name with the same types share one property.  So a declaration is
not the same as a property, and what a class knows of a field is a detour: from the class and the
field to an id, and from the id to a property that another class may have made.

Three things keep the detour right, and every call preserves them together: the id of a property is
its place; no two properties say the same; and each declaration leads to the property that says what
the call said.  The log of a sequence of calls is set beside it: what a field of a class resolves to
is what the calls for it were granted, and of these at most one ever is.

A schema here is a value, and a call that is refused has nothing to spoil.  A `Catalog` is changed
in place: the property is pushed first, and the class is told of it afterwards.  A refusal between
the two would leave a property that nobody declared.  There is none: the catalog answers each call
as the schema does, and what it refuses leaves it as it was.
-/

namespace DocumentCodec

/-- What a property says, whatever its id: properties are found by it. -/
def Property.key (property : Property) : String × Option TypeTag × Option TypeTag :=
  (property.name, property.declared, property.linked)

namespace Schema

/-! ## Logs

A log is what the calls were answered with, one by one, and nothing else is kept of them. -/

/-- What a call is answered: the id of the property, or a refusal. -/
def answer (schema : Schema) (call : Call) : Except SchemaError Int32 :=
  (schema.declare call.className call.field call.declared call.linked).map (·.1)

/-- Calls one after the other, each with its answer. -/
def log : Schema → List Call → List (Call × Except SchemaError Int32)
  | _, [] => []
  | schema, call :: calls => (call, schema.answer call) :: log (schema.afterCall call) calls

/-- The property that a field of a class was granted by a call, if the call was about that field and
was not refused: the id that it returned, and what it said. -/
def granted? (className field : String) : Call × Except SchemaError Int32 → Option Property
  | (call, .ok id) =>
    if call.className = className ∧ call.field = field then
      some ⟨id, call.field, call.declared, call.linked⟩
    else none
  | (_, .error _) => none

/-- All that a field of a class was granted, in the order of the calls. -/
def granted (className field : String) (log : List (Call × Except SchemaError Int32)) :
    List Property :=
  log.filterMap (granted? className field)

variable {schema grown : Schema} {className field : String} {declared linked : Option TypeTag}
  {id : Int32} {property : Property} {call : Call}

/-! ## One property

Two declarations that say the same share a property, so what there is to find out about one is
whether it is there already. -/

/-- The property of a declaration is one that says the same, or a new one that says what no other
does. -/
theorem intern_cases (run : schema.intern field declared linked = .ok (id, grown)) :
    (∃ property ∈ schema.properties,
      property = ⟨id, field, declared, linked⟩ ∧ grown = schema) ∨
    ((schema.size : Int) < 2 ^ 31 ∧
      (∀ property ∈ schema.properties, property.key ≠ (field, declared, linked)) ∧
      id = Int32.ofNat schema.size ∧
      grown = ⟨schema.properties ++ [⟨id, field, declared, linked⟩], schema.declarations⟩) := by
  rw [intern] at run
  split at run
  · -- an equal property is there, and its id is handed out again
    next property found =>
    cases run
    have matched := List.find?_some found
    simp only [Bool.and_eq_true, decide_eq_true_eq] at matched
    obtain ⟨⟨rfl, rfl⟩, rfl⟩ := matched
    exact Or.inl ⟨property, List.mem_of_find?_eq_some found, rfl, rfl⟩
  · -- none is there, so the new one gets the next place, if there is an id for it
    next missing =>
    split at run
    · cases run
    · next fits =>
      cases run
      refine Or.inr ⟨by omega, fun property there same => ?_, rfl, rfl⟩
      have differs := List.find?_eq_none.mp missing property there
      simp only [Property.key, Prod.mk.injEq] at same
      simp [same] at differs

/-- Finding or adding a property declares it for no class yet. -/
theorem declarations_intern (run : schema.intern field declared linked = .ok (id, grown)) :
    grown.declarations = schema.declarations := by
  rcases intern_cases run with ⟨_, -, -, rfl⟩ | ⟨-, -, -, rfl⟩ <;> rfl

/-- **The id that is given is that of a property that says just this.** -/
theorem Consistent.byId?_intern (consistent : schema.Consistent)
    (run : schema.intern field declared linked = .ok (id, grown)) :
    grown.byId? id = some ⟨id, field, declared, linked⟩ := by
  rcases intern_cases run with ⟨property, there, same, rfl⟩ | ⟨few, -, place, rfl⟩
  · have found := consistent.byId?_of_mem there
    rw [same] at found
    exact found
  · have last : id.toInt = schema.size := by
      rw [place, Int32.toInt_ofNat_of_lt (by omega)]
    refine byId?_eq_some.mpr ⟨by omega, ?_⟩
    rw [last, Int.toNat_natCast, size]
    exact List.getElem?_concat_length

/-- Declarations make no property that says what another one says. -/
theorem Built.distinct (built : schema.Built) : (schema.properties.map Property.key).Nodup := by
  induction built with
  | empty => exact List.nodup_nil
  | declare _ run ih =>
    obtain ⟨interned, there, rfl⟩ := declare_eq_ok run
    -- a property is added only if none says the same
    rcases intern_cases there with ⟨_, -, -, rfl⟩ | ⟨-, fresh, -, rfl⟩
    · exact ih
    · rw [List.map_append, List.nodup_append]
      refine ⟨ih, by simp, ?_⟩
      intro key among last same
      obtain ⟨property, mem, rfl⟩ := List.mem_map.mp among
      rw [List.mem_singleton.mp same]
      exact fresh property mem

/-- So the ids of two properties that say the same are one id. -/
theorem Built.id_unique (built : schema.Built) {id' : Int32} {property' : Property}
    (found : schema.byId? id = some property) (found' : schema.byId? id' = some property')
    (same : property.key = property'.key) : id = id' := by
  obtain ⟨natural, there⟩ := byId?_eq_some.mp found
  obtain ⟨natural', there'⟩ := byId?_eq_some.mp found'
  obtain ⟨inside, -⟩ := List.getElem?_eq_some_iff.mp there
  have alike : (schema.properties.map Property.key)[id.toInt.toNat]?
      = (schema.properties.map Property.key)[id'.toInt.toNat]? := by
    rw [List.getElem?_map, List.getElem?_map, there, there', Option.map_some, Option.map_some, same]
  have places : id.toInt.toNat = id'.toInt.toNat :=
    (List.getElem?_inj (by simpa using inside) built.distinct).mp alike
  exact Int32.toInt_inj.mp (by omega)

/-- An id is known if it is the place of a property. -/
theorem byId?_isSome : (schema.byId? id).isSome ↔ 0 ≤ id.toInt ∧ id.toInt < schema.size := by
  rw [byId?, size]
  split
  · rw [isSome_getElem?]
    omega
  · simp only [Option.isSome_none, Bool.false_eq_true, false_iff]
    omega

/-! ## One field of a class

What a field of a class resolves to is said by the first declaration of it, and none after it
changes that. -/

/-- The declaration of a field is the first one, so a later one counts only where there was none.
The properties play no part. -/
theorem declaration?_append (declarations : List Declaration) (last : Declaration)
    (properties properties' : List Property) :
    (⟨properties, declarations ++ [last]⟩ : Schema).declaration? className field
      = ((⟨properties', declarations⟩ : Schema).declaration? className field).or
        (if last.className = className ∧ last.field = field then some last else none) := by
  rw [declaration?, declaration?, List.find?_append, List.find?_singleton]
  simp only [Bool.and_eq_true, decide_eq_true_eq]

/-- A field that is declared resolves to a property. -/
theorem Consistent.ofField?_isSome (consistent : schema.Consistent) :
    (schema.ofField? className field).isSome = (schema.declaration? className field).isSome := by
  rw [ofField?]
  cases there : schema.declaration? className field with
  | none => rfl
  | some declaration =>
    obtain ⟨property, found, -⟩ :=
      consistent.resolved declaration (List.mem_of_find?_eq_some there)
    rw [Option.bind_some, found]
    rfl

/-- A declaration is granted to a field that has none. -/
theorem declaration?_of_declare_ok
    (run : schema.declare className field declared linked = .ok (id, grown)) :
    field ≠ "" ∧ schema.declaration? className field = none := by
  rw [declare] at run
  split at run
  · cases run
  · next nonempty =>
    split at run
    · cases run
    · next fresh => exact ⟨by simpa using nonempty, by simpa using fresh⟩

/-- **What a declaration grants** is what the field resolves to from then on; what other fields
resolve to stays. -/
theorem Consistent.ofField?_declare (consistent : schema.Consistent)
    (run : schema.declare className field declared linked = .ok (id, grown)) (c f : String) :
    grown.ofField? c f = (schema.ofField? c f).or
      (if className = c ∧ field = f then some ⟨id, field, declared, linked⟩ else none) := by
  obtain ⟨-, fresh⟩ := declaration?_of_declare_ok run
  have kept {other : Int32} {property : Property} (found : schema.byId? other = some property) :
      grown.byId? other = some property := byId?_declare run found
  obtain ⟨interned, there, rfl⟩ := declare_eq_ok run
  have made : interned.byId? id = some ⟨id, field, declared, linked⟩ :=
    consistent.byId?_intern there
  rw [ofField?, ofField?, declarations_intern there, declaration?_append _ _ _ schema.properties]
  show ((schema.declaration? c f).or _).bind _ = _
  cases known : schema.declaration? c f with
  | some declaration =>
    -- an earlier declaration comes first, and its property is kept
    obtain ⟨property, found, -⟩ :=
      consistent.resolved declaration (List.mem_of_find?_eq_some known)
    rw [Option.bind_some, found]
    exact kept found
  | none =>
    rw [Option.none_or, Option.bind_none, Option.none_or]
    split
    · exact made
    · rfl

/-- A class is there if it has a field that resolves to a property. -/
theorem Consistent.hasClass_iff (consistent : schema.Consistent) :
    schema.hasClass className ↔ ∃ field, (schema.ofField? className field).isSome := by
  rw [hasClass, List.any_eq_true]
  constructor
  · rintro ⟨declaration, there, named⟩
    refine ⟨declaration.field, ?_⟩
    rw [consistent.ofField?_isSome, declaration?, List.isSome_find?]
    exact List.any_eq_true.mpr ⟨declaration, there, by simpa using named⟩
  · rintro ⟨field, found⟩
    rw [consistent.ofField?_isSome, declaration?, List.isSome_find?] at found
    obtain ⟨declaration, there, matched⟩ := List.any_eq_true.mp found
    rw [Bool.and_eq_true] at matched
    exact ⟨declaration, there, matched.1⟩

/-! ## One call

A call is answered with the property that it made or found, or refused for one of three reasons. -/

/-- What a call answers and what becomes of the schema, in one. -/
theorem answer_cases (schema : Schema) (call : Call) :
    (∃ e, schema.declare call.className call.field call.declared call.linked = .error e ∧
      schema.answer call = .error e ∧ schema.afterCall call = schema) ∨
    ∃ id grown, schema.declare call.className call.field call.declared call.linked = .ok (id, grown) ∧
      schema.answer call = .ok id ∧ schema.afterCall call = grown := by
  rw [answer, afterCall]
  cases run : schema.declare call.className call.field call.declared call.linked with
  | error e => exact Or.inl ⟨e, rfl, rfl, rfl⟩
  | ok made => exact Or.inr ⟨made.1, made.2, rfl, rfl, rfl⟩

/-- What a field of a class resolves to, and what the call grants it, is what it resolves to
afterwards. -/
theorem Consistent.granted_call (consistent : schema.Consistent) (call : Call) (c f : String) :
    (schema.ofField? c f).toList ++ (granted? c f (call, schema.answer call)).toList
      = ((schema.afterCall call).ofField? c f).toList := by
  rcases answer_cases schema call with ⟨e, -, answer, after⟩ | ⟨id, grown, run, answer, after⟩
  · rw [answer, after]
    exact List.append_nil _
  · rw [answer, after, consistent.ofField?_declare run, granted?]
    -- a call for this field was granted only if it had no property before; a call for another one
    -- changes nothing for it
    by_cases same : call.className = c ∧ call.field = f
    · have fresh := (declaration?_of_declare_ok run).2
      rw [same.1, same.2] at fresh
      have none : schema.ofField? c f = none := by
        rw [ofField?, fresh]
        rfl
      simp only [none, if_pos same, Option.none_or]
      rfl
    · simp only [if_neg same, Option.or_none]
      exact List.append_nil _

/-- While an id is left, the property of a declaration is found or made. -/
theorem exists_intern (few : schema.size < 2 ^ 31) (field : String)
    (declared linked : Option TypeTag) :
    ∃ made, schema.intern field declared linked = .ok made := by
  rw [intern]
  split
  · exact ⟨_, rfl⟩
  · rw [if_neg (by unfold Signed.Fits32; omega)]
    exact ⟨_, rfl⟩

/-- **A call is refused** for an empty name and for a field that the class has; short of 2³¹
properties it is not refused otherwise. -/
theorem Consistent.answer_error_iff (consistent : schema.Consistent)
    (few : schema.size < 2 ^ 31) (call : Call) :
    (∃ e, schema.answer call = .error e) ↔
      call.field = "" ∨ (schema.ofField? call.className call.field).isSome := by
  rw [consistent.ofField?_isSome, answer, Schema.declare]
  by_cases empty : call.field.isEmpty
  · rw [if_pos empty]
    exact ⟨fun _ => Or.inl (by simpa using empty), fun _ => ⟨_, rfl⟩⟩
  · rw [if_neg empty]
    have nonempty : call.field ≠ "" := by simpa using empty
    by_cases there : (schema.declaration? call.className call.field).isSome
    · rw [if_pos there]
      exact ⟨fun _ => Or.inr there, fun _ => ⟨_, rfl⟩⟩
    · -- with a place left nothing else can be refused
      obtain ⟨made, interned⟩ := exists_intern few call.field call.declared call.linked
      rw [if_neg there, interned]
      constructor
      · rintro ⟨e, refused⟩
        cases refused
      · rintro (same | there')
        · exact absurd same nonempty
        · exact absurd there' there

/-! ## All calls -/

/-- What a field of a class resolved to, and all that calls granted it then, is what it resolves to
in the end. -/
theorem Built.granted_log (calls : List Call) (c f : String) : ∀ {schema : Schema}, schema.Built →
    (schema.ofField? c f).toList ++ granted c f (schema.log calls)
      = ((schema.afterCalls calls).ofField? c f).toList := by
  induction calls with
  | nil => exact fun _ => List.append_nil _
  | cons call calls ih =>
    intro schema built
    have split : granted c f (schema.log (call :: calls))
        = (granted? c f (call, schema.answer call)).toList
          ++ granted c f ((schema.afterCall call).log calls) := by
      rw [log, granted, granted, List.filterMap_cons]
      cases granted? c f (call, schema.answer call) <;> rfl
    rw [split, ← List.append_assoc, built.consistent.granted_call call c f]
    exact ih (built.afterCall call)

end Schema

/-! ## A catalog that is changed in place

The catalog keeps what the schema keeps, and the two answer alike as long as it does.  That it is
changed step by step, and may be left half way, is what makes the difference: the property is there
before its class knows of it. -/

/-- Properties by their place, and for each class that is there the ids of its fields. -/
structure Catalog where
  properties : List Property
  classes : String → Option (String → Option Int32)

namespace Catalog

/-- A catalog without properties and classes. -/
def empty : Catalog := ⟨[], fun _ => none⟩

variable (catalog : Catalog)

/-- The number of properties. -/
def size : Nat := catalog.properties.length

/-- The class is there. -/
def hasClass (className : String) : Bool := (catalog.classes className).isSome

/-- The property under an id. -/
def byId? (id : Int32) : Option Property :=
  if 0 ≤ id.toInt then catalog.properties[id.toInt.toNat]? else none

/-- The id of a field of a class. -/
def idOf? (className field : String) : Option Int32 :=
  (catalog.classes className).bind fun fields => fields field

/-- The property of a field of a class. -/
def ofField? (className field : String) : Option Property :=
  (catalog.idOf? className field).bind catalog.byId?

/-- Finds the property that says just this, or pushes it. -/
def globalProperty (name : String) (declared linked : Option TypeTag) :
    EStateM SchemaError Catalog Int32 := do
  let catalog ← get
  match catalog.properties.find? fun p =>
      p.name = name && p.declared = declared && p.linked = linked with
  | some existing => return existing.id
  | none =>
    if ¬Signed.Fits32 catalog.size then throw .full
    else
      let id := Int32.ofNat catalog.size
      let property : Property := ⟨id, name, declared, linked⟩
      set { catalog with properties := catalog.properties ++ [property] }
      return id

/-- Enters the id of a field, and its class if it is not there. -/
def bound (className field : String) (id : Int32) : Catalog :=
  let fields := (catalog.classes className).getD fun _ => none
  { catalog with
    classes := Function.update catalog.classes className
      (some (Function.update fields field (some id))) }

/-- Declares a field of a class. -/
def addProperty (className field : String) (declared linked : Option TypeTag) :
    EStateM SchemaError Catalog Int32 := do
  if field.isEmpty then throw .emptyName
  else if ((← get).idOf? className field).isSome then throw (.alreadyDeclared field className)
  else
    let id ← globalProperty field declared linked
    modify fun catalog => catalog.bound className field id
    return id

/-- The answer to a call, and the catalog as the call leaves it, be it refused or not. -/
def step (call : Schema.Call) : Except SchemaError Int32 × Catalog :=
  match addProperty call.className call.field call.declared call.linked catalog with
  | .ok id last => (.ok id, last)
  | .error e last => (.error e, last)

/-- The catalog after calls one after the other. -/
def afterCalls (catalog : Catalog) : List Schema.Call → Catalog
  | [] => catalog
  | call :: calls => (catalog.step call).2.afterCalls calls

/-- Calls one after the other, each with its answer. -/
def log (catalog : Catalog) : List Schema.Call → List (Schema.Call × Except SchemaError Int32)
  | [] => []
  | call :: calls => (call, (catalog.step call).1) :: (catalog.step call).2.log calls

/-- The catalog holds what the schema holds. -/
structure Of (catalog : Catalog) (schema : Schema) : Prop where
  properties : catalog.properties = schema.properties
  ids : ∀ className field,
    catalog.idOf? className field = (schema.declaration? className field).map (·.id)
  classes : ∀ className, catalog.hasClass className = schema.hasClass className

namespace Of

variable {catalog : Catalog} {schema : Schema} {className field : String}

theorem empty : Catalog.empty.Of Schema.empty := ⟨rfl, fun _ _ => rfl, fun _ => rfl⟩

theorem byId? (right : catalog.Of schema) (id : Int32) : catalog.byId? id = schema.byId? id := by
  rw [Catalog.byId?, Schema.byId?, right.properties]

theorem ofField? (right : catalog.Of schema) (className field : String) :
    catalog.ofField? className field = schema.ofField? className field := by
  rw [Catalog.ofField?, Schema.ofField?, right.ids, Option.bind_map]
  exact Option.bind_congr fun declaration _ => right.byId? declaration.id

/-- A property is found or pushed where the schema interns it; where no id is left, nothing is. -/
theorem globalProperty (right : catalog.Of schema) (name : String)
    (declared linked : Option TypeTag) :
    match schema.intern name declared linked with
    | .ok (id, grown) => ∃ next,
        Catalog.globalProperty name declared linked catalog = .ok id next ∧ next.Of grown
    | .error e => Catalog.globalProperty name declared linked catalog = .error e catalog := by
  -- both look through the same properties, the one in place and the one by value
  have run : Catalog.globalProperty name declared linked catalog
      = (match catalog.properties.find? fun p =>
            p.name = name && p.declared = declared && p.linked = linked with
          | some existing => pure existing.id
          | none => if ¬Signed.Fits32 catalog.size then throw .full else _ :
        EStateM SchemaError Catalog Int32) catalog := rfl
  have size : catalog.size = schema.size := congrArg List.length right.properties
  rw [run, Schema.intern, right.properties, size]
  cases schema.properties.find? fun p =>
      p.name = name && p.declared = declared && p.linked = linked with
  | some existing => exact ⟨catalog, rfl, right⟩
  | none =>
    by_cases fits : Signed.Fits32 schema.size
    · simp only [if_neg (not_not.mpr fits)]
      exact ⟨_, rfl, rfl, right.ids, right.classes⟩
    · simp only [if_pos fits]
      rfl

/-- The field is entered where the schema adds a declaration. -/
theorem bound (right : catalog.Of schema) (fresh : schema.declaration? className field = none)
    (id : Int32) : (catalog.bound className field id).Of
      ⟨schema.properties, schema.declarations ++ [⟨className, field, id⟩]⟩ where
  properties := right.properties
  ids c f := by
    have before := right.ids c f
    rw [idOf?] at before
    rw [Schema.declaration?_append _ _ _ schema.properties, idOf?, Catalog.bound]
    -- only the table of the class changes, and in it only the field
    by_cases class' : c = className
    · subst class'
      simp only [Function.update_self, Option.bind_some]
      by_cases field' : f = field
      · subst field'
        rw [Function.update_self, fresh]
        simp
      · rw [Function.update_of_ne field', if_neg fun same => field' same.2.symm, Option.or_none]
        refine Eq.trans ?_ before
        cases catalog.classes c <;> rfl
    · simp only [Function.update_of_ne class']
      rw [if_neg fun same => class' same.1.symm, Option.or_none]
      exact before
  classes c := by
    have before := right.classes c
    rw [hasClass, Schema.hasClass] at before
    rw [hasClass, Schema.hasClass, Catalog.bound, List.any_append, ← before]
    by_cases class' : c = className
    · subst class'
      simp
    · simp [Function.update_of_ne class', Ne.symm class']

/-- A field of a class is declared where the schema declares it; where it is not, nothing
changes. -/
theorem addProperty (right : catalog.Of schema) (className field : String)
    (declared linked : Option TypeTag) :
    match schema.declare className field declared linked with
    | .ok (id, grown) => ∃ next,
        Catalog.addProperty className field declared linked catalog = .ok id next ∧ next.Of grown
    | .error e => Catalog.addProperty className field declared linked catalog = .error e catalog := by
  -- both refuse a field that is declared already, each by its own index
  have known : (catalog.idOf? className field).isSome
      = (schema.declaration? className field).isSome := by
    rw [right.ids, Option.isSome_map]
  rw [Schema.declare, Catalog.addProperty]
  by_cases empty : field.isEmpty
  · simp only [if_pos empty]
    rfl
  · have run : (get >>= fun now : Catalog =>
          if (now.idOf? className field).isSome then throw (.alreadyDeclared field className)
          else Catalog.globalProperty field declared linked >>= fun id =>
            (modify fun catalog => catalog.bound className field id) >>= fun _ => pure id :
          EStateM SchemaError Catalog Int32) catalog
        = (if (schema.declaration? className field).isSome then
            throw (.alreadyDeclared field className)
          else Catalog.globalProperty field declared linked >>= fun id =>
            (modify fun catalog => catalog.bound className field id) >>= fun _ => pure id :
          EStateM SchemaError Catalog Int32) catalog := by
      rw [← known]
      rfl
    simp only [if_neg empty]
    rw [run]
    by_cases there : (schema.declaration? className field).isSome
    · simp only [if_pos there]
      rfl
    · simp only [if_neg there]
      have found := right.globalProperty field declared linked
      cases made : schema.intern field declared linked with
      | error e =>
        rw [made] at found
        exact run_bind_of_error found
      | ok made' =>
        obtain ⟨id, grown⟩ := made'
        rw [made] at found
        obtain ⟨next, found, right'⟩ := found
        have fresh : grown.declaration? className field = none := by
          have same : grown.declaration? className field = schema.declaration? className field := by
            rw [Schema.declaration?, Schema.declaration?, Schema.declarations_intern made]
          exact same.trans (Option.not_isSome_iff_eq_none.mp there)
        exact ⟨next.bound className field id, run_bind_of_ok found, right'.bound fresh id⟩

/-- **One call** is answered alike, and a refusal leaves the catalog as it was. -/
theorem step (right : catalog.Of schema) (call : Schema.Call) :
    (catalog.step call).1 = schema.answer call ∧
      (catalog.step call).2.Of (schema.afterCall call) ∧
      ∀ e, (catalog.step call).1 = .error e → (catalog.step call).2 = catalog := by
  have added := right.addProperty call.className call.field call.declared call.linked
  rcases schema.answer_cases call with ⟨e, declared, answer, after⟩ |
    ⟨id, grown, declared, answer, after⟩
  · rw [declared] at added
    rw [answer, after, Catalog.step, added]
    exact ⟨rfl, right, fun _ _ => rfl⟩
  · rw [declared] at added
    obtain ⟨next, run, right'⟩ := added
    rw [answer, after, Catalog.step, run]
    exact ⟨rfl, right', fun _ refused => nomatch refused⟩

/-- **All calls** are answered alike. -/
theorem afterCalls (calls : List Schema.Call) : ∀ {catalog : Catalog} {schema : Schema},
    catalog.Of schema → catalog.log calls = schema.log calls ∧
      (catalog.afterCalls calls).Of (schema.afterCalls calls) := by
  induction calls with
  | nil => exact fun right => ⟨rfl, right⟩
  | cons call calls ih =>
    intro catalog schema right
    obtain ⟨answer, right', -⟩ := right.step call
    obtain ⟨answers, right''⟩ := ih right'
    refine ⟨?_, right''⟩
    rw [Catalog.log, Schema.log, answer, answers]

end Of
end Catalog

namespace Schema

/-- **What a schema knows after any calls**, whether they were granted or refused.  Its ids are the
numbers below its size, each that of the property under it, and no two properties say the same.  All
that calls granted to a field of a class, of which there is one at most, is what it resolves to; a
class is there if some field of it was granted.  Short of 2³¹ properties, the next call is refused
if its field has no name or was granted before, and not otherwise.

A catalog that is changed in place gives these calls the same answers, and to every look-up the same
answer then; and a call that it refuses leaves it as it was, without a property or a class more. -/
theorem afterCalls_granted (calls : List Call) :
    let schema := Schema.empty.afterCalls calls
    let log := Schema.empty.log calls
    let catalog := Catalog.empty.afterCalls calls
    (∀ id, (schema.byId? id).isSome ↔ 0 ≤ id.toInt ∧ id.toInt < schema.size) ∧
    (∀ id property, schema.byId? id = some property → property.id = id) ∧
    (∀ id id' property property', schema.byId? id = some property →
      schema.byId? id' = some property' → property.name = property'.name →
      property.declared = property'.declared → property.linked = property'.linked → id = id') ∧
    (∀ className field,
      granted className field log = (schema.ofField? className field).toList) ∧
    (∀ className, schema.hasClass className ↔ ∃ field, granted className field log ≠ []) ∧
    (schema.size < 2 ^ 31 → ∀ call, (∃ e, schema.answer call = .error e) ↔
      call.field = "" ∨ granted call.className call.field log ≠ []) ∧
    Catalog.empty.log calls = log ∧
    catalog.size = schema.size ∧
    (∀ id, catalog.byId? id = schema.byId? id) ∧
    (∀ className field, catalog.ofField? className field = schema.ofField? className field) ∧
    (∀ className, catalog.hasClass className = schema.hasClass className) ∧
    ∀ call, (catalog.step call).1 = schema.answer call ∧
      ∀ e, (catalog.step call).1 = .error e →
        (catalog.step call).2 = catalog ∧ schema.afterCall call = schema := by
  intro schema log catalog
  have built : schema.Built := Built.empty.afterCalls calls
  have grants (className field : String) :
      granted className field log = (schema.ofField? className field).toList :=
    Built.empty.granted_log calls className field
  -- what was granted is what is resolved, so each statement below is about one schema and its
  -- catalog
  have resolves (className field : String) :
      granted className field log ≠ [] ↔ (schema.ofField? className field).isSome := by
    rw [grants]
    cases schema.ofField? className field <;> simp
  obtain ⟨answers, right⟩ := Catalog.Of.empty.afterCalls calls
  refine ⟨fun id => byId?_isSome, fun id property => built.consistent.id_of_byId?, ?_, grants, ?_, ?_,
    answers, congrArg List.length right.properties, right.byId?, right.ofField?, right.classes, ?_⟩
  · intro id id' property property' found found' name declared linked
    refine built.id_unique found found' ?_
    rw [Property.key, Property.key, name, declared, linked]
  · intro className
    rw [built.consistent.hasClass_iff]
    exact exists_congr fun field => (resolves className field).symm
  · intro few call
    rw [built.consistent.answer_error_iff few, resolves]
  · intro call
    -- a refused call changes neither: the one in place is left as it was, and the other one is not
    -- replaced
    obtain ⟨answer, -, kept⟩ := right.step call
    refine ⟨answer, fun e refused => ⟨kept e refused, ?_⟩⟩
    rcases schema.answer_cases call with ⟨_, -, -, after⟩ | ⟨id, grown, -, granted, -⟩
    · exact after
    · rw [answer, granted] at refused
      cases refused

end Schema
end DocumentCodec
