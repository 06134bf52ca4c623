import DocumentCodec.Proofs.Lockstep
import DocumentCodec.Proofs.Schema
/-!
# Schemas that grow

Data outlives the schema that it was written under: fields are declared later on, some of them by
calls that are refused, and the old bytes are read under the schema as it is then.

A call never takes a property back and never gives its id to another, so the grown schema answers as
the old one wherever that had an answer.  A decoding under the old schema is therefore in step with
the one under the grown schema, up to the first id that the old one does not know.
-/

namespace DocumentCodec

namespace Schema

/-- A call that declares a field of a class. -/
structure Call where
  className : String
  field : String
  declared : Option TypeTag
  linked : Option TypeTag

/-- The schema after a call.  One that is refused leaves it as it was. -/
def afterCall (schema : Schema) (call : Call) : Schema :=
  match schema.declare call.className call.field call.declared call.linked with
  | .ok (_, grown) => grown
  | .error _ => schema

/-- The schema after a sequence of calls. -/
def afterCalls (schema : Schema) (calls : List Call) : Schema := calls.foldl afterCall schema

variable {schema grown : Schema} {id : Int32} {property : Property}

/-- A call that is refused leaves the schema as it was built. -/
theorem Built.afterCall (built : schema.Built) (call : Call) : (schema.afterCall call).Built := by
  rw [Schema.afterCall]
  split
  · next run => exact .declare built run
  · exact built

/-- Calls build schemas only. -/
theorem Built.afterCalls (calls : List Call) : ∀ {schema : Schema}, schema.Built →
    (schema.afterCalls calls).Built := by
  induction calls with
  | nil => exact fun built => built
  | cons call rest ih => exact fun built => ih (built.afterCall call)

/-- A declaration leaves what is found under an id as it is, be the property shared or new. -/
theorem byId?_declare {className field : String} {declared linked : Option TypeTag} {new : Int32}
    (run : schema.declare className field declared linked = .ok (new, grown))
    (found : schema.byId? id = some property) : grown.byId? id = some property := by
  obtain ⟨interned, there, rfl⟩ := declare_eq_ok run
  rcases intern_eq_ok there with ⟨_, -, -, -, rfl⟩ | ⟨-, -, rfl⟩
  · exact found
  · exact byId?_append _ found

/-- No call takes away a property. -/
theorem byId?_afterCall (call : Call) (found : schema.byId? id = some property) :
    (schema.afterCall call).byId? id = some property := by
  rw [afterCall]
  split
  · next run => exact byId?_declare run found
  · exact found

/-- No id is ever given to another property, whatever the calls are. -/
theorem byId?_afterCalls (calls : List Call) : ∀ {schema : Schema},
    schema.byId? id = some property → (schema.afterCalls calls).byId? id = some property := by
  induction calls with
  | nil => exact fun found => found
  | cons call rest ih => exact fun found => ih (byId?_afterCall call found)

end Schema

/-- The failure says that a property id is not known. -/
def Failure.IsUnresolved (e : Failure) : Prop :=
  ∃ id offset, e = .codec (.unresolvedProperty id offset)

/-- Under the old schema the input is read in step with the grown one. -/
theorem Lockstep.grown (context : Context) (schema : Schema) (calls : List Schema.Call)
    (input : List UInt8) : Lockstep Failure.IsUnresolved
      { context with schema := some (schema.afterCalls calls).toSnapshot }
      { context with schema := some schema.toSnapshot } input input := by
  refine .of_context input (fun id => ?_) rfl rfl
  -- an id that the old schema does not know is the only one that the grown one may answer for anew
  cases known : schema.byId? id with
  | none => exact Or.inr ⟨known, fun start => ⟨id, start, rfl⟩⟩
  | some property =>
    exact Or.inl (known.trans (Schema.byId?_afterCalls calls known).symm)

namespace Record

/-- **Growing the schema never changes old data.**  Whatever is declared later on, by calls that
succeed or are refused, each decoding under the old schema that does not fail for want of a property
has the same outcome under the grown one: the same record or the same failure with what was bound
before it, and the same place of the cursor. -/
theorem decodeFrom_afterCalls (context : Context) (schema : Schema) (calls : List Schema.Call)
    {input : List UInt8} {projection : Option (List String)} {here : Binding}
    (resolved : ∀ id offset state,
      decodeFrom { context with schema := some schema.toSnapshot } input projection here
        ≠ .error (.codec (.unresolvedProperty id offset)) state) :
    decodeFrom { context with schema := some (schema.afterCalls calls).toSnapshot } input projection
        here
      = decodeFrom { context with schema := some schema.toSnapshot } input projection here := by
  have follows := (Lockstep.grown context schema calls input).decodeFrom (Nat.le_refl _)
    (fun less => absurd less (Nat.lt_irrefl _)) projection
  rcases follows.run here with same | ⟨_, state, failed, id, offset, rfl⟩
  · exact same.symm
  · exact absurd failed (resolved id offset state)

/-- The property of the field `n` is shared with another class later on, its name is declared once
more with another type, a call is refused that declares it again, and another for want of a name:
the old bytes are read as before, to the point where a pointer is negative. -/
theorem decodeFrom_afterCalls_of_negative_pointer :
    let schema : Schema := ⟨[⟨0, "n", some .long, none⟩], [⟨"C", "n", 0⟩]⟩
    let calls : List Schema.Call := [⟨"D", "n", some .long, none⟩, ⟨"E", "n", none, some .string⟩,
      ⟨"C", "n", some .string, none⟩, ⟨"F", "", none, none⟩]
    let input : List UInt8 := [1, 67, 255, 255, 255, 255, 255, 255, 255, 255, 255, 1, 0, 0, 0, 26, 1,
      120, 255, 255, 255, 255, 7, 0, 0, 0, 7]
    let under (schema : Schema) : Context := { schema := some schema.toSnapshot }
    let outcome : EStateM.Result Failure Binding Unit :=
      .error (.codec (.malformedInput 18 (.negativePointer (-1)))) ⟨⟨23, 24⟩,
        ⟨some "C", RecordId.empty, [⟨"n", .long 7, some .long⟩], false⟩⟩
    (schema.afterCalls calls).properties
        = [⟨0, "n", some .long, none⟩, ⟨1, "n", none, some .string⟩] ∧
      decodeFrom (under schema) input none ⟨Cursor.start, Record.new⟩ = outcome ∧
      decodeFrom (under (schema.afterCalls calls)) input none ⟨Cursor.start, Record.new⟩
        = outcome := by
  intro schema calls input under outcome
  have run : decodeFrom (under schema) input none ⟨Cursor.start, Record.new⟩ = outcome := by
    subst outcome under input schema
    rfl
  have resolved (id : Int32) (offset : Nat) (state : Binding) :
      decodeFrom (under schema) input none ⟨Cursor.start, Record.new⟩
        ≠ .error (.codec (.unresolvedProperty id offset)) state := by
    rw [run]
    subst outcome
    intro failed
    cases failed
  exact ⟨rfl, run, (decodeFrom_afterCalls {} schema calls resolved).trans run⟩

end Record
end DocumentCodec
