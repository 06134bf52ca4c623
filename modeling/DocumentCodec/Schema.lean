import DocumentCodec.Number.Signed
import DocumentCodec.TypeTag
/-!
# Schemas

A schema gives the fields of a class global property ids, so that a header can name a field by a
number, and may declare the type that such a field is stored under.

The codec only looks properties up, by class and field when it writes and by id when it reads; a
`Snapshot` is that pair of look-ups.  A `Schema` is built up by declarations: two of them that
agree on name, declared type and linked type share one global property, and no id is ever given to
another property.
-/

namespace DocumentCodec

/-- A global property: a field name with what is declared about its values.  `linked` is the type
declared for the elements of a collection. -/
structure Property where
  id : Int32
  name : String
  declared : Option TypeTag
  linked : Option TypeTag
deriving DecidableEq, Repr

/-- The type that values of the property are stored under, unless it is left open. -/
def Property.concreteType? (property : Property) : Option TypeTag :=
  property.declared.filter (·.isConcrete)

/-- What the codec sees of a schema. -/
structure Snapshot where
  /-- the property under an id -/
  byId? : Int32 → Option Property
  /-- the property of a field of a class -/
  ofField? : (className field : String) → Option Property

/-! ## Declarations -/

/-- Why a declaration is refused. -/
inductive SchemaError where
  | emptyName
  | alreadyDeclared (field className : String)
  /-- every id is taken -/
  | full
deriving DecidableEq, Repr

/-- The text of a refusal. -/
def SchemaError.message : SchemaError → String
  | .emptyName => "property name cannot be empty"
  | .alreadyDeclared field className =>
    s!"property '{field}' already exists on class '{className}'"
  | .full => "global property table is full"

/-- The field of a class that was declared, and the id of its property. -/
structure Declaration where
  className : String
  field : String
  id : Int32
deriving DecidableEq, Repr

/-- A schema that is built up by declarations.  The id of a property is its place. -/
structure Schema where
  properties : List Property
  declarations : List Declaration
deriving DecidableEq, Repr

namespace Schema

/-- The schema that declares nothing. -/
def empty : Schema := ⟨[], []⟩

variable (schema : Schema)

/-- The number of global properties. -/
def size : Nat := schema.properties.length

/-- Some field of the class was declared. -/
def hasClass (className : String) : Bool :=
  schema.declarations.any (·.className = className)

/-- The declaration of a field of a class. -/
def declaration? (className field : String) : Option Declaration :=
  schema.declarations.find? fun d => d.className = className && d.field = field

/-- The property under an id. -/
def byId? (id : Int32) : Option Property :=
  if 0 ≤ id.toInt then schema.properties[id.toInt.toNat]? else none

/-- The property of a field of a class. -/
def ofField? (className field : String) : Option Property :=
  (schema.declaration? className field).bind fun d => schema.byId? d.id

/-- The global property that says just this, made if it is not there. -/
def intern (name : String) (declared linked : Option TypeTag) :
    Except SchemaError (Int32 × Schema) :=
  match schema.properties.find? fun p =>
      p.name = name && p.declared = declared && p.linked = linked with
  | some property => .ok (property.id, schema)
  | none =>
    if ¬Signed.Fits32 schema.size then .error .full
    else
      let id := Int32.ofNat schema.size
      .ok (id, { schema with properties := schema.properties ++ [⟨id, name, declared, linked⟩] })

/-- Declares a field of a class and gives the id of its global property.  A name may be declared
once on each class, and must not be empty: an empty name cannot be told from the end of a header. -/
def declare (className field : String) (declared linked : Option TypeTag) :
    Except SchemaError (Int32 × Schema) :=
  if field.isEmpty then .error .emptyName
  else if (schema.declaration? className field).isSome then
    .error (.alreadyDeclared field className)
  else
    match schema.intern field declared linked with
    | .error e => .error e
    | .ok (id, grown) =>
      .ok (id, { grown with declarations := grown.declarations ++ [⟨className, field, id⟩] })

/-- The schema as the codec sees it. -/
def toSnapshot : Snapshot := ⟨schema.byId?, schema.ofField?⟩

end Schema
end DocumentCodec
