import Mathlib.Logic.Function.Basic
import DocumentCodec.Proofs.Running
/-!
# Decoding appends

A decoding changes its target by binding fields, one at a time, each behind the others and under a
name that is not there yet; and before that it may give the target a class name.  That holds of
everything that is left behind, however the decoding ends: a failure comes between two bindings,
never within one.

A record that keeps an index of its names, from each name to its place, enters every field it pushes
without looking whether the name is there.  As the names are new, the index stays right.
-/

namespace DocumentCodec

/-! ## Bindings one after the other

All that is said of the target in the end is said of one chain of bindings: `Binds` lists the fields
in the order in which they were bound, each of them new where it was. -/

/-- The fields are bound one after the other, each under a name that is asked for and not there
yet. -/
inductive Binds (projection : Option (List String)) : Record → List Field → Record → Prop where
  | nothing (record : Record) : Binds projection record [] record
  | field {record last : Record} {added : List Field} (field : Field)
      (absent : record.contains field.name = false)
      (wanted : Decoding.isWanted projection field.name = true)
      (rest : Binds projection (record.bind field.name field.value field.pinned) added last) :
      Binds projection record (field :: added) last

/-- An index of names: the place of each. -/
abbrev NameIndex := String → Option Nat

namespace NameIndex

/-- The index after fields were pushed, the first of them to `place`. -/
def pushed (index : NameIndex) (place : Nat) : List Field → NameIndex
  | [] => index
  | field :: rest => pushed (Function.update index field.name (some place)) (place + 1) rest

/-- The index gives the places of the record's fields. -/
def IsOf (index : NameIndex) (record : Record) : Prop := ∀ name, index name = record.index? name

end NameIndex

namespace Record

variable {record : Record}

@[simp] theorem size_bind (name : String) (value : Value) (pinned : Option TypeTag) :
    (record.bind name value pinned).size = record.size + 1 := by
  simp [size, bind, append]

/-- A field that was bound stands behind the others, which stand where they did. -/
theorem index?_bind {name : String} (absent : record.contains name = false) (value : Value)
    (pinned : Option TypeTag) (other : String) :
    (record.bind name value pinned).index? other
      = if other = name then some record.size else record.index? other := by
  rw [contains_eq_false_iff] at absent
  simp only [index?, size, bind, append, List.findIdx?_append]
  by_cases same : other = name
  · subst same
    simp [findIdx?_others absent]
  · simp [same, Ne.symm same]

/-- Where names are distinct, each field is found at its place. -/
theorem found_of_getElem? (distinct : record.fieldNames.Nodup) {place : Nat} {field : Field}
    (there : record.fields[place]? = some field) :
    record.index? field.name = some place ∧ record.field? field.name = some field.value ∧
      record.pinnedType? field.name = field.pinned ∧ record.contains field.name = true := by
  have mem : field ∈ record.fields := List.mem_of_getElem? there
  have entry : record.entry? field.name = some field :=
    (entry?_eq_some_iff distinct).mpr ⟨mem, rfl⟩
  refine ⟨?_, by rw [field?, entry]; rfl, by rw [pinnedType?, entry]; rfl,
    (contains_iff record _).mpr (List.mem_map_of_mem mem)⟩
  obtain ⟨inside, rfl⟩ := List.getElem?_eq_some_iff.mp there
  rw [index?, List.findIdx?_eq_some_iff_getElem]
  refine ⟨inside, decide_eq_true rfl, fun before less same => ?_⟩
  have differ := List.pairwise_iff_getElem.mp distinct before place
    (by simpa [fieldNames] using Nat.lt_trans less inside) (by simpa [fieldNames] using inside) less
  simp only [fieldNames, List.getElem_map] at differ
  exact differ (of_decide_eq_true same)

/-- The record has what the target has, and behind its fields some that were bound. -/
structure Extends (projection : Option (List String)) (target : Record) (added : List Field)
    (final : Record) : Prop where
  identity : final.identity = target.identity
  isEmbedded : final.isEmbedded = target.isEmbedded
  fields : final.fields = target.fields ++ added
  distinct : final.fieldNames.Nodup
  fresh : ∀ field ∈ added, target.contains field.name = false
  wanted : ∀ field ∈ added, ∀ names, projection = some names → field.name ∈ names
  /-- every field is found under its name -/
  found : ∀ place field, final.fields[place]? = some field →
    final.index? field.name = some place ∧ final.field? field.name = some field.value ∧
      final.pinnedType? field.name = field.pinned ∧ final.contains field.name = true
  /-- an index into which the new fields are entered as they come gives every place -/
  indexed : ∀ index : NameIndex, index.IsOf target → (index.pushed target.size added).IsOf final

end Record

namespace Binds

variable {projection : Option (List String)} {record mid last : Record} {added more : List Field}

/-- Fields that are added one after the other are added. -/
theorem append (first : Binds projection record added mid) (later : Binds projection mid more last) :
    Binds projection record (added ++ more) last := by
  induction first with
  | nothing _ => exact later
  | field field absent wanted _ ih => exact .field field absent wanted (ih later)

/-- Nothing but the fields changes, and those that were there stay in front. -/
theorem eq (binds : Binds projection record added last) :
    last = { record with fields := record.fields ++ added } := by
  induction binds with
  | nothing record =>
    cases record
    simp
  | field field _ _ _ ih =>
    rw [ih]
    cases field
    simp [Record.bind, Record.append]

/-- Every field that is added was asked for. -/
theorem wanted (binds : Binds projection record added last) :
    ∀ field ∈ added, Decoding.isWanted projection field.name = true := by
  induction binds with
  | nothing _ => exact fun _ none => nomatch none
  | field field _ wanted _ ih =>
    intro other there
    rcases List.mem_cons.mp there with rfl | later
    · exact wanted
    · exact ih other later

/-- The names stay distinct. -/
theorem nodup (binds : Binds projection record added last) (distinct : record.fieldNames.Nodup) :
    last.fieldNames.Nodup := by
  induction binds with
  | nothing _ => exact distinct
  | field field absent _ _ ih => exact ih (Record.nodup_append _ _ _ _ distinct absent)

/-- **An index of the names stays right** as they are pushed. -/
theorem pushed (binds : Binds projection record added last) {index : NameIndex}
    (right : index.IsOf record) : (index.pushed record.size added).IsOf last := by
  induction binds generalizing index with
  | nothing _ => exact right
  | @field record last added field absent _ _ ih =>
    have next : NameIndex.IsOf (Function.update index field.name (some record.size))
        (record.bind field.name field.value field.pinned) := by
      intro name
      rw [Record.index?_bind absent, Function.update_apply, right name]
    have there := ih next
    rwa [Record.size_bind] at there

/-- What was bound extends the record. -/
theorem record_extends (binds : Binds projection record added last)
    (distinct : record.fieldNames.Nodup) :
    record.Extends projection added last where
  identity := by rw [binds.eq]
  isEmbedded := by rw [binds.eq]
  fields := by rw [binds.eq]
  distinct := binds.nodup distinct
  fresh field there := by
    -- the names are distinct together, so none of the old ones is among the new
    have names := binds.nodup distinct
    rw [binds.eq] at names
    rw [Record.fieldNames, List.map_append, List.nodup_append] at names
    rw [Record.contains_eq_false_iff]
    exact fun other among => names.2.2 _ (List.mem_map_of_mem among) _ (List.mem_map_of_mem there)
  wanted field there names some := by
    have asked := binds.wanted field there
    rw [some] at asked
    exact List.contains_iff_mem.mp asked
  found _ _ := Record.found_of_getElem? (binds.nodup distinct)
  indexed _ := binds.pushed

end Binds

/-! ## What a run leaves

The property is about the state that is left, so a failing run has it too.  Where a computation is
sequenced the second part starts from what the first one left, and nothing is taken back. -/

/-- What is read into a target, and leaves with it some fields more. -/
def Appends {α : Type} (projection : Option (List String)) (here : Binding) (x : Binder α) : Prop :=
  ∃ added, Binds projection here.target added (leftBy (x here)).target

namespace Appends

variable {α β : Type} {projection : Option (List String)} {here : Binding} {x : Binder α}
  {f : α → Binder β}

/-- Sequences: what a failing first part added stays, and the second part is not run. -/
theorem bind (first : Appends projection here x)
    (second : ∀ a next, x here = .ok a next → Appends projection next (f a)) :
    Appends projection here (x >>= f) := by
  obtain ⟨added, binds⟩ := first
  cases run : x here with
  | ok a next =>
    obtain ⟨more, binds'⟩ := second a next run
    rw [run] at binds
    rw [Appends, run_bind_of_ok run]
    exact ⟨added ++ more, binds.append binds'⟩
  | error e next =>
    rw [run] at binds
    rw [Appends, run_bind_of_error run]
    exact ⟨added, binds⟩

theorem pure (a : α) : Appends projection here (Pure.pure a) := ⟨[], .nothing _⟩

theorem get_bind {f : Binding → Binder β} (second : Appends projection here (f here)) :
    Appends projection here (get >>= f) := second

/-- Reading on changes no target. -/
theorem target_lift (read : Decoder α) (here : Binding) :
    (leftBy (Binder.lift read here)).target = here.target := by
  rw [Binder.lift]
  cases read here.cursor <;> rfl

theorem lift (read : Decoder α) : Appends projection here (Binder.lift read) :=
  ⟨[], by rw [target_lift]; exact .nothing _⟩

/-- What was read is followed by something that depends on it. -/
theorem lift_bind {read : Decoder α}
    (second : ∀ a next, next.target = here.target → Appends projection next (f a)) :
    Appends projection here (Binder.lift read >>= f) := by
  refine (lift read).bind fun a next run => second a next ?_
  have same := target_lift read here
  rwa [run] at same

end Appends

/-! ## Records

Whether a field is bound is decided before its slot is read, so it is still new when it is. -/

namespace Decoding

variable (context : Context) (input : List UInt8) (inner : BodyReader)
  (projection : Option (List String))

/-- **Every entry of a header binds one field or none**, and so do all of them. -/
theorem appends_fields (room : Nat) : ∀ (last bound : Nat) (here : Binding),
    Appends projection here (readFields context input inner projection room last bound) := by
  induction room with
  | zero => exact fun last bound here => ⟨[], .nothing _⟩
  | succ room ih =>
    intro last bound here
    refine Appends.lift_bind fun heading next _ => ?_
    cases heading with
    | none => exact .pure last
    | some heading =>
      -- the target that the entry is looked up in is the one that it would be bound to
      refine Appends.get_bind ?_
      dsimp only
      split
      · -- stepping over a slot binds nothing
        exact Appends.lift_bind fun _ _ _ => ih last bound _
      · next kept =>
        rw [Bool.or_eq_true, not_or, Bool.not_eq_true', Bool.not_eq_false, Bool.not_eq_true] at kept
        obtain ⟨wanted, absent⟩ := kept
        -- reading the body leaves the target alone, so the name is still not there
        refine Appends.lift_bind fun placed next' same => ?_
        have binds : Appends projection next' (Binder.bindField heading.name (Placed.valueOf placed)
            (placed.map (·.tag))) :=
          ⟨[⟨heading.name, _, _⟩], .field _ (same ▸ absent) wanted (.nothing _)⟩
        refine binds.bind fun _ next'' _ => ?_
        cases projection with
        | none => exact ih _ _ _
        | some names =>
          dsimp only
          split
          · exact .pure _
          · exact ih _ _ _

/-- A record binds fields to the target, or to the target with the class name that was read. -/
theorem appends_record (cursor : Cursor) (target : Record) :
    ∃ named added, (named = target ∨ ∃ name next, name ≠ "" ∧
        Cursor.string input cursor = .ok name next ∧
        named = { target with className := some name }) ∧
      Binds projection named added
        (leftBy (readRecord context input inner projection ⟨cursor, target⟩)).target := by
  have begins : readRecord context input inner projection ⟨cursor, target⟩
      = (Binder.lift (Cursor.string input) >>= fun name => Binder.bindClass name >>= fun _ =>
        readFields context input inner projection (input.length + 1) 0 0 >>= fun last =>
          Binder.lift (finish input last)) ⟨cursor, target⟩ := rfl
  rw [begins]
  cases run : Cursor.string input cursor with
  | error e next =>
    have lifted : Binder.lift (Cursor.string input) ⟨cursor, target⟩ = .error e ⟨next, target⟩ := by
      rw [Binder.lift, run]
    -- without a class name nothing of the record is touched
    rw [run_bind_of_error lifted]
    exact ⟨target, [], Or.inl rfl, .nothing _⟩
  | ok name next =>
    have lifted : Binder.lift (Cursor.string input) ⟨cursor, target⟩ = .ok name ⟨next, target⟩ := by
      rw [Binder.lift, run]
    rw [run_bind_of_ok lifted, run_bind_of_ok (Binder.run_bindClass name next target)]
    obtain ⟨added, binds⟩ : Appends projection ⟨next, Binder.named name target⟩ _ :=
      (appends_fields context input inner projection (input.length + 1) 0 0 _).bind
        fun last _ _ => .lift (finish input last)
    refine ⟨_, added, ?_, binds⟩
    rw [Binder.named]
    split
    · exact Or.inl rfl
    · next nonempty => exact Or.inr ⟨name, next, by simpa using nonempty, rfl, rfl⟩

end Decoding

namespace Record

/-- **Decoding appends to its target.**  However it ends, the target's identity, whether it is
embedded, and its fields are what they were; behind them stand the fields that were bound, under
names that are distinct, not among the others, and asked for.  Every field is found under its name
at its place.  The class name changes only to one that was read and is not empty. -/
theorem decodeFrom_appends (context : Context) (input : List UInt8)
    (projection : Option (List String)) (here : Cursor) (target : Record)
    (distinct : target.fieldNames.Nodup) :
    let final := (leftBy (decodeFrom context input projection ⟨here, target⟩)).target
    (∃ added, target.Extends projection added final) ∧
      (final.className = target.className ∨ ∃ name next, name ≠ "" ∧
        Cursor.string input ⟨here.position, 0⟩ = .ok name next ∧ final.className = some name) := by
  intro final
  obtain ⟨named, added, same | ⟨name, next, nonempty, read, same⟩, binds⟩ :=
    Decoding.appends_record context input
      (Decoding.readBody context input context.options.maxDepth) projection ⟨here.position, 0⟩ target
  · subst same
    have className : final.className = named.className :=
      (congrArg Record.className binds.eq).trans rfl
    exact ⟨⟨added, binds.record_extends distinct⟩, Or.inl className⟩
  · subst same
    have className : final.className = some name := (congrArg Record.className binds.eq).trans rfl
    obtain ⟨identity, embedded, fields, nodup, fresh, wanted, found, indexed⟩ :=
      binds.record_extends distinct
    exact ⟨⟨added, identity, embedded, fields, nodup, fresh, wanted, found, indexed⟩,
      Or.inr ⟨name, next, nonempty, read, className⟩⟩

/-- Of two entries with one name the second one is passed over, and the third one's body is missing:
what was read until then is left behind the field that was there. -/
theorem decodeFrom_appends_until_cut :
    let target : Record := ⟨some "C", ⟨7, 1⟩, [⟨"z", .null, some .long⟩], false⟩
    let input : List UInt8 :=
      [1, 68, 1, 97, 0, 0, 0, 24, 17, 1, 97, 0, 0, 0, 24, 17, 1, 98, 0, 0, 0, 99, 17, 0, 5]
    let left : Binding := ⟨⟨23, 24⟩,
      ⟨some "D", ⟨7, 1⟩, [⟨"z", .null, some .long⟩, ⟨"a", .byte 5, some .byte⟩], false⟩⟩
    target.fieldNames.Nodup ∧
      decodeFrom {} input (some ["a", "b"]) ⟨Cursor.start, target⟩
        = .error (.codec (.malformedInput 23 (.seekBeyondEnd 99 25))) left ∧
      (∃ added, target.Extends (some ["a", "b"]) added left.target) ∧
      (left.target.className = target.className ∨ ∃ name next, name ≠ "" ∧
        Cursor.string input ⟨Cursor.start.position, 0⟩ = .ok name next ∧
        left.target.className = some name) := by
  intro target input left
  have distinct : target.fieldNames.Nodup := by decide
  have run : decodeFrom {} input (some ["a", "b"]) ⟨Cursor.start, target⟩
      = .error (.codec (.malformedInput 23 (.seekBeyondEnd 99 25))) left := by
    subst target input left
    rfl
  have appends := decodeFrom_appends {} input (some ["a", "b"]) Cursor.start target distinct
  rw [run] at appends
  exact ⟨distinct, run, appends⟩

end Record
end DocumentCodec
