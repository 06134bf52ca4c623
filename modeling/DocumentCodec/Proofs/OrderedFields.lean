import DocumentCodec.Proofs.OrderedFields.Listed
/-!
# Records are ordered maps

A record is changed by calls of its own and by decodings into it, in any order.  Three things answer
the same calls: the record, which scans its fields; the fields with an index of their names; and a
plain association list.

A decoding asks two things only of what it reads into: whether a name is there, and to take one
field more.  So it is written once more over a `FieldStore` that does these two things, and it runs
there as it does on a record, to the same place of the cursor and with the same failure, as long as
the store takes in what the record does.  The store is never asked to take in a name that it has.

That the three answer alike is shown for one call, and carried through a sequence of them by a
relation to the record that every call preserves.
-/

namespace DocumentCodec

/-! ## Decoding into a store

A store answers whether it holds a name and takes one field more.  That is all a decoder asks. -/

/-- What a decoding asks of what it reads into. -/
structure FieldStore (σ : Type) where
  contains : σ → String → Bool
  push : σ → Field → σ

namespace FieldStore

variable {σ α β : Type}

/-- Reads, and leaves the store alone. -/
def beside (read : Decoder α) : EStateM Failure (Cursor × σ) α := fun state =>
  match read state.1 with
  | .ok a cursor => .ok a (cursor, state.2)
  | .error e cursor => .error e (cursor, state.2)

variable (store : FieldStore σ) (context : Context) (input : List UInt8)
  (projection : Option (List String))

/-- Takes one field more. -/
def take (field : Field) : EStateM Failure (Cursor × σ) Unit :=
  modify fun state => (state.1, store.push state.2 field)

/-- Reads the entries of a header and takes the fields that are wanted and not there yet. -/
def readFields (inner : BodyReader) :
    (room last bound : Nat) → EStateM Failure (Cursor × σ) Nat
  | 0, _, _ => do
    let start ← beside Cursor.offset
    beside (Decoder.malformed start (.overlap input.length))
  | room + 1, last, bound => do
    match ← beside (Decoding.readHeading context input) with
    | none => return last
    | some heading =>
      let fields := (← get).2
      if !Decoding.isWanted projection heading.name || store.contains fields heading.name then
        beside (Cursor.skip input (Slot.size heading.pinned.isSome))
        readFields inner room last bound
      else
        let placed ← beside (Decoding.readSlot input inner heading.pinned)
        store.take ⟨heading.name, Decoding.Placed.valueOf placed, placed.map (·.tag)⟩
        let last := max last (Decoding.Placed.endOf placed)
        match projection with
        | none => readFields inner room last (bound + 1)
        | some wanted =>
          if wanted.length ≤ bound + 1 then return last
          else readFields inner room last (bound + 1)

/-- Reads the record at the cursor; the store has no class name, which is read and let go. -/
def decodeFrom : EStateM Failure (Cursor × σ) Unit := do
  beside Cursor.resetBudget
  let _ ← beside (Cursor.string input)
  let inner := Decoding.readBody context input context.options.maxDepth
  let last ← store.readFields context input projection inner (input.length + 1) 0 0
  beside (Decoding.finish input last)

/-! ## Running alike

Two runs are alike if they leave related fields, with the same answer or the same failure and at the
same place.  That is kept by sequences, and so by decodings. -/

/-- The same answer or failure, with the cursor at the same place and targets that are related. -/
inductive Alike (related : Record → σ → Prop) :
    EStateM.Result Failure Binding α → EStateM.Result Failure (Cursor × σ) α → Prop
  | ok (a : α) (cursor : Cursor) {record : Record} {fields : σ} (same : related record fields) :
    Alike related (.ok a ⟨cursor, record⟩) (.ok a (cursor, fields))
  | error (e : Failure) (cursor : Cursor) {record : Record} {fields : σ}
    (same : related record fields) :
    Alike related (.error e ⟨cursor, record⟩) (.error e (cursor, fields))

namespace Alike

variable {related : Record → σ → Prop} {cursor : Cursor} {record : Record} {fields : σ}

/-- Sequences: alike first parts leave related fields, from which the second parts are alike. -/
theorem bind {x : Binder α} {f : α → Binder β} {y : EStateM Failure (Cursor × σ) α}
    {g : α → EStateM Failure (Cursor × σ) β}
    (first : Alike related (x ⟨cursor, record⟩) (y (cursor, fields)))
    (second : ∀ a cursor record fields, related record fields →
      Alike related (f a ⟨cursor, record⟩) (g a (cursor, fields))) :
    Alike related ((x >>= f) ⟨cursor, record⟩) ((y >>= g) (cursor, fields)) := by
  generalize runs : x ⟨cursor, record⟩ = outcome at first
  generalize runs' : y (cursor, fields) = outcome' at first
  cases first with
  | ok a there same =>
    rw [run_bind_of_ok runs, run_bind_of_ok runs']
    exact second a there _ _ same
  | error e there same =>
    rw [run_bind_of_error runs, run_bind_of_error runs']
    exact .error e there same

/-- Reading bytes leaves the fields alone, and goes alike beside either of them. -/
theorem lift (same : related record fields) (read : Decoder α) :
    Alike related (Binder.lift read ⟨cursor, record⟩) (beside read (cursor, fields)) := by
  rw [Binder.lift, beside]
  cases read cursor with
  | ok a there => exact .ok a there same
  | error e there => exact .error e there same

/-- Reading on changes no target, so what was known of the targets is known behind it. -/
theorem lift_bind {f : α → Binder β} {g : α → EStateM Failure (Cursor × σ) β}
    (same : related record fields) (read : Decoder α)
    (second : ∀ a cursor, Alike related (f a ⟨cursor, record⟩) (g a (cursor, fields))) :
    Alike related ((Binder.lift read >>= f) ⟨cursor, record⟩) ((beside read >>= g) (cursor, fields)) := by
  cases run : read cursor with
  | ok a there =>
    have runs : Binder.lift read ⟨cursor, record⟩ = .ok a ⟨there, record⟩ := by
      rw [Binder.lift, run]
    have runs' : beside read (cursor, fields) = .ok a (there, fields) := by rw [beside, run]
    rw [run_bind_of_ok runs, run_bind_of_ok runs']
    exact second a there
  | error e there =>
    have runs : Binder.lift read ⟨cursor, record⟩ = .error e ⟨there, record⟩ := by
      rw [Binder.lift, run]
    have runs' : beside read (cursor, fields) = .error e (there, fields) := by rw [beside, run]
    rw [run_bind_of_error runs, run_bind_of_error runs']
    exact .error e there same

end Alike

/-- The store does with related fields what the record does; class names do not matter. -/
structure Follows (related : Record → σ → Prop) : Prop where
  contains : ∀ {record fields}, related record fields → ∀ name,
    store.contains fields name = record.contains name
  push : ∀ {record fields}, related record fields → ∀ field : Field,
    record.contains field.name = false →
    related (record.bind field.name field.value field.pinned) (store.push fields field)
  renamed : ∀ {record fields}, related record fields → ∀ className,
    related { record with className := className } fields

namespace Follows

variable {store : FieldStore σ} {related : Record → σ → Prop} (follows : store.Follows related)
include follows

/-- **Every entry of a header** is read alike, be it stepped over or taken. -/
theorem readFields (inner : BodyReader) (room : Nat) :
    ∀ (last bound : Nat) (cursor : Cursor) (record : Record) (fields : σ), related record fields →
    Alike related
      (Decoding.readFields context input inner projection room last bound ⟨cursor, record⟩)
      (store.readFields context input projection inner room last bound (cursor, fields)) := by
  induction room with
  | zero =>
    intro last bound cursor record fields same
    exact Alike.lift_bind same _ fun start cursor => Alike.lift same _
  | succ room ih =>
    intro last bound cursor record fields same
    refine Alike.lift_bind same _ fun heading cursor => ?_
    cases heading with
    | none => exact .ok last cursor same
    | some heading =>
      show Alike related
        ((if !Decoding.isWanted projection heading.name || record.contains heading.name then _
          else _ : Binder Nat) ⟨cursor, record⟩)
        ((if !Decoding.isWanted projection heading.name || store.contains fields heading.name then _
          else _ : EStateM Failure (Cursor × σ) Nat) (cursor, fields))
      -- the store is asked for the name where the record is, with the same answer
      rw [follows.contains same]
      split
      · exact Alike.lift_bind same _ fun _ cursor => ih last bound cursor record fields same
      · next kept =>
        have absent : record.contains heading.name = false := by
          rw [Bool.or_eq_true, not_or, Bool.not_eq_true, Bool.not_eq_true] at kept
          exact kept.2
        refine Alike.lift_bind same _ fun placed cursor => ?_
        have taken : Alike related
            (Binder.bindField heading.name (Decoding.Placed.valueOf placed) (placed.map (·.tag))
              ⟨cursor, record⟩)
            (store.take ⟨heading.name, Decoding.Placed.valueOf placed, placed.map (·.tag)⟩
              (cursor, fields)) :=
          .ok () cursor (follows.push same ⟨heading.name, _, _⟩ absent)
        refine taken.bind fun _ cursor record fields same => ?_
        cases projection with
        | none => exact ih _ _ cursor record fields same
        | some wanted =>
          dsimp only
          split
          · exact .ok _ cursor same
          · exact ih _ _ cursor record fields same

/-- **A whole decoding** runs on the store as it does on the record. -/
theorem decodeFrom {record : Record} {fields : σ} (same : related record fields) (here : Cursor) :
    Alike related (Record.decodeFrom context input projection ⟨here, record⟩)
      (store.decodeFrom context input projection (here, fields)) := by
  refine Alike.lift_bind same _ fun _ cursor => Alike.lift_bind same _ fun className cursor => ?_
  have named : Alike related (Binder.bindClass className ⟨cursor, record⟩)
      ((Pure.pure () : EStateM Failure (Cursor × σ) Unit) (cursor, fields)) := by
    rw [Binder.run_bindClass, Binder.named]
    split
    · exact .ok () cursor same
    · exact .ok () cursor (follows.renamed same _)
  have rest := named.bind fun _ cursor record fields same =>
    (follows.readFields context input projection
      (Decoding.readBody context input context.options.maxDepth) (input.length + 1) 0 0 cursor record
      fields same).bind fun last cursor record fields same =>
        Alike.lift same (Decoding.finish input last)
  exact rest

end Follows
end FieldStore

/-! ## Calls

A call is one of the operations of a record, or a decoding.  Each of the three has its own way to
answer it. -/

namespace OrderedFields

/-- What can be done to a record's fields, and what can be asked of them. -/
inductive Call where
  | set (name : String) (value : Value)
  | setPinned (name : String) (value : Value) (tag : TypeTag)
  | pin (name : String) (tag : Option TypeTag)
  | remove (name : String)
  /-- decodes the record at the cursor into this one, and may fail -/
  | decode (context : Context) (input : List UInt8) (projection : Option (List String))
    (here : Cursor)
  | fieldNames
  | size
  | field? (name : String)
  | pinnedType? (name : String)
  | contains (name : String)

/-- What a call answers. -/
inductive Answer where
  | done
  | flag (flag : Bool)
  | names (names : List String)
  | size (size : Nat)
  | value (value : Option Value)
  | type (tag : Option TypeTag)
  /-- how a decoding ended, and where -/
  | decoded (failure : Option Failure) (cursor : Cursor)

/-- What a record answers, and what becomes of it. -/
def ofRecord (record : Record) : Call → Answer × Record
  | .set name value => (.done, record.set name value)
  | .setPinned name value tag => (.done, record.setPinned name value tag)
  | .pin name tag => (.flag (record.pin name tag).1, (record.pin name tag).2)
  | .remove name => (.value (record.remove name).1, (record.remove name).2)
  | .decode context input projection here =>
    match Record.decodeFrom context input projection ⟨here, record⟩ with
    | .ok _ last => (.decoded none last.cursor, last.target)
    | .error e last => (.decoded (some e) last.cursor, last.target)
  | .fieldNames => (.names record.fieldNames, record)
  | .size => (.size record.size, record)
  | .field? name => (.value (record.field? name), record)
  | .pinnedType? name => (.type (record.pinnedType? name), record)
  | .contains name => (.flag (record.contains name), record)

/-- The outcome of a decoding into a store. -/
def ended {σ : Type} : EStateM.Result Failure (Cursor × σ) Unit → Answer × σ
  | .ok _ last => (.decoded none last.1, last.2)
  | .error e last => (.decoded (some e) last.1, last.2)

/-- An association list as a store: a name is there if it can be looked up. -/
def listStore : FieldStore Entries where
  contains entries name := (entries.lookup name).isSome
  push entries field := entries ++ [(field.name, field.value, field.pinned)]

/-- What a plain association list answers, and what becomes of it. -/
def ofEntries (entries : Entries) : Call → Answer × Entries
  | .set name value => (.done, entries.write name value id)
  | .setPinned name value tag => (.done, entries.write name value fun _ => some tag)
  | .pin name tag => (.flag (entries.pin name tag).1, (entries.pin name tag).2)
  | .remove name => (.value (entries.remove name).1, (entries.remove name).2)
  | .decode context input projection here =>
    ended (listStore.decodeFrom context input projection (here, entries))
  | .fieldNames => (.names (entries.map (·.1)), entries)
  | .size => (.size entries.length, entries)
  | .field? name => (.value ((entries.lookup name).map (·.1)), entries)
  | .pinnedType? name => (.type ((entries.lookup name).bind (·.2)), entries)
  | .contains name => (.flag (entries.lookup name).isSome, entries)

/-- Fields with an index as a store: a name is there if the index has it. -/
def indexStore : FieldStore IndexedFields := ⟨IndexedFields.contains, IndexedFields.push⟩

/-- What fields with an index answer, and what becomes of them, unless the index leads past them. -/
def ofIndexed (indexed : IndexedFields) : Call → Option (Answer × IndexedFields)
  | .set name value => return (.done, ← indexed.set name value)
  | .setPinned name value tag => return (.done, ← indexed.setPinned name value tag)
  | .pin name tag => return (.flag (← indexed.pin name tag).1, (← indexed.pin name tag).2)
  | .remove name => return (.value (← indexed.remove name).1, (← indexed.remove name).2)
  | .decode context input projection here =>
    some (ended (indexStore.decodeFrom context input projection (here, indexed)))
  | .fieldNames => some (.names (indexed.fields.map (·.name)), indexed)
  | .size => some (.size indexed.fields.length, indexed)
  | .field? name => return (.value ((← indexed.entry? name).map (·.value)), indexed)
  | .pinnedType? name => return (.type ((← indexed.entry? name).bind (·.pinned)), indexed)
  | .contains name => some (.flag (indexed.contains name), indexed)

/-! ## One call

One call leaves the relation to the record as it was, and answers as the record does. -/

/-- What answers as a record does, and is related to it afterwards as it was before. -/
def Simulates {σ : Type} (related : Record → σ → Prop) (answer : σ → Call → Option (Answer × σ)) :
    Prop :=
  ∀ {record : Record} {fields : σ}, related record fields → ∀ call, ∃ next,
    answer fields call = some ((ofRecord record call).1, next) ∧
      related (ofRecord record call).2 next

/-- A decoding that runs alike is answered alike. -/
theorem ended_alike {σ : Type} {related : Record → σ → Prop} {context : Context} {input : List UInt8}
    {projection : Option (List String)} {here : Cursor} {record : Record}
    {outcome : EStateM.Result Failure (Cursor × σ) Unit}
    (alike : FieldStore.Alike related
      (Record.decodeFrom context input projection ⟨here, record⟩) outcome) :
    ∃ next, some (ended outcome)
        = some ((ofRecord record (.decode context input projection here)).1, next) ∧
      related (ofRecord record (.decode context input projection here)).2 next := by
  rw [ofRecord]
  generalize Record.decodeFrom context input projection ⟨here, record⟩ = decoded at alike
  cases alike with
  | ok _ cursor same => exact ⟨_, rfl, same⟩
  | error e cursor same => exact ⟨_, rfl, same⟩

/-- The association list does for a decoder what the record does. -/
theorem listStore_follows : listStore.Follows fun record entries => Entries.Of entries record where
  contains right name := by
    show (List.lookup name _).isSome = _
    rw [right.lookup, Option.isSome_map, Record.entry?, Record.contains, List.isSome_find?]
  push right field absent := right.push field absent
  renamed right _ := ⟨right.entries, right.distinct⟩

theorem indexStore_follows : indexStore.Follows fun record indexed => indexed.Of record where
  contains right _ := right.contains
  push right _ absent := right.push absent
  renamed right _ := ⟨right.fields, right.index, right.distinct⟩

/-- **An association list answers every call as the record does.** -/
theorem simulates_entries : Simulates (fun record entries => Entries.Of entries record)
    fun entries call => some (ofEntries entries call) := by
  intro record entries right call
  cases call with
  | set name value => exact ⟨_, rfl, right.set name value⟩
  | setPinned name value tag => exact ⟨_, rfl, right.setPinned name value tag⟩
  | pin name tag =>
    obtain ⟨answer, right'⟩ := right.pin name tag
    exact ⟨_, by simp only [ofEntries, answer]; rfl, right'⟩
  | remove name =>
    obtain ⟨answer, right'⟩ := right.remove name
    exact ⟨_, by simp only [ofEntries, answer]; rfl, right'⟩
  | decode context input projection here =>
    -- a decoding enters the fields one by one, so the calls before it settle this one too
    exact ended_alike (listStore_follows.decodeFrom context input projection right here)
  | fieldNames => exact ⟨entries, by simp only [ofEntries, right.names]; rfl, right⟩
  | size =>
    refine ⟨entries, ?_, right⟩
    simp only [ofEntries, right.entries, Entries.ofFields, List.length_map]
    rfl
  | field? name =>
    refine ⟨entries, ?_, right⟩
    simp only [ofEntries, right.lookup, Option.map_map]
    rfl
  | pinnedType? name =>
    refine ⟨entries, ?_, right⟩
    simp only [ofEntries, right.lookup, Option.bind_map]
    rfl
  | contains name =>
    refine ⟨entries, ?_, right⟩
    show some (Answer.flag (listStore.contains entries name), entries) = _
    rw [listStore_follows.contains right name]
    rfl

/-- **Fields with an index answer every call as the record does**, and the index never leads past
them. -/
theorem simulates_indexed : Simulates (fun record indexed => indexed.Of record) ofIndexed := by
  intro record indexed right call
  cases call with
  | set name value =>
    -- these change the fields, and never look where there are none
    obtain ⟨changed, run, right'⟩ := right.set name value
    exact ⟨changed, by rw [ofIndexed, run]; rfl, right'⟩
  | setPinned name value tag =>
    obtain ⟨changed, run, right'⟩ := right.setPinned name value tag
    exact ⟨changed, by rw [ofIndexed, run]; rfl, right'⟩
  | pin name tag =>
    obtain ⟨changed, run, right'⟩ := right.pin name tag
    exact ⟨changed, by rw [ofIndexed, run]; rfl, right'⟩
  | remove name =>
    obtain ⟨changed, run, right'⟩ := right.remove name
    exact ⟨changed, by rw [ofIndexed, run]; rfl, right'⟩
  | decode context input projection here =>
    -- a decoder uses nothing of the fields but what the store offers it
    exact ended_alike (indexStore_follows.decodeFrom context input projection right here)
  -- the others only look
  | fieldNames => exact ⟨indexed, by rw [ofIndexed, right.fields]; rfl, right⟩
  | size => exact ⟨indexed, by rw [ofIndexed, right.fields]; rfl, right⟩
  | field? name => exact ⟨indexed, by rw [ofIndexed, right.entry?]; rfl, right⟩
  | pinnedType? name => exact ⟨indexed, by rw [ofIndexed, right.entry?]; rfl, right⟩
  | contains name => exact ⟨indexed, by rw [ofIndexed, right.contains]; rfl, right⟩

/-! ## Sequences of calls -/

/-- The answers of a record to calls one after the other, and the record after them. -/
def runRecord : List Call → Record → List Answer × Record
  | [], record => ([], record)
  | call :: calls, record =>
    let (answer, next) := ofRecord record call
    let (answers, last) := runRecord calls next
    (answer :: answers, last)

/-- The answers to calls one after the other, if every one of them is answered. -/
def run {σ : Type} (answer : σ → Call → Option (Answer × σ)) :
    List Call → σ → Option (List Answer × σ)
  | [], fields => some ([], fields)
  | call :: calls, fields => do
    let (first, next) ← answer fields call
    let (others, last) ← run answer calls next
    return (first :: others, last)

/-- What answers each call as a record does answers all of them so. -/
theorem Simulates.run {σ : Type} {related : Record → σ → Prop}
    {answer : σ → Call → Option (Answer × σ)} (simulates : Simulates related answer)
    (calls : List Call) : ∀ {record : Record} {fields : σ}, related record fields →
    ∃ last, OrderedFields.run answer calls fields = some ((runRecord calls record).1, last) ∧
      related (runRecord calls record).2 last := by
  induction calls with
  | nil => exact fun same => ⟨_, rfl, same⟩
  | cons call calls ih =>
    intro record fields same
    obtain ⟨next, one, same⟩ := simulates same call
    obtain ⟨last, rest, same⟩ := ih same
    refine ⟨last, ?_, same⟩
    rw [OrderedFields.run, one]
    show (OrderedFields.run answer calls next).bind _ = _
    rw [rest]
    rfl

end OrderedFields

/-- Where names are distinct, the place of a name is the one it stands at. -/
theorem Record.index?_eq_some_iff {record : Record} (distinct : record.fieldNames.Nodup)
    {name : String} {place : Nat} :
    record.index? name = some place ↔ record.fieldNames[place]? = some name := by
  rw [Record.fieldNames, List.getElem?_map, Option.map_eq_some_iff]
  constructor
  · intro found
    obtain ⟨inside, named, -⟩ := List.findIdx?_eq_some_iff_getElem.mp found
    exact ⟨_, List.getElem?_eq_getElem inside, of_decide_eq_true named⟩
  · rintro ⟨field, there, rfl⟩
    exact (found_of_getElem? distinct there).1

namespace OrderedFields

/-- **A record is an ordered map.**  Whatever calls are made of a record that begins without fields,
decodings into it among them, failing ones, too: a plain association list, on which setting
overwrites in place or appends and removing deletes one entry, gives the same answers; fields with
an index of their names give them, too, and the index never leads past the fields.  In the end the
names are distinct, the fields with an index are those of the record, and the index has the names
that are there and no other, each with its place. -/
theorem run_agree (owner : Record) (calls : List Call) :
    let ran := runRecord calls { owner with fields := [] }
    ∃ entries indexed,
      run (fun entries call => some (ofEntries entries call)) calls [] = some (ran.1, entries) ∧
      run ofIndexed calls IndexedFields.empty = some (ran.1, indexed) ∧
      ran.2.fieldNames.Nodup ∧
      indexed.fields = ran.2.fields ∧
      (∀ name, (indexed.index name).isSome ↔ name ∈ ran.2.fieldNames) ∧
      (∀ name place, indexed.index name = some place ↔ ran.2.fieldNames[place]? = some name) := by
  intro ran
  obtain ⟨entries, listed, -⟩ := simulates_entries.run calls (Entries.Of.empty owner)
  obtain ⟨indexed, found, right⟩ := simulates_indexed.run calls (IndexedFields.Of.empty owner)
  refine ⟨entries, indexed, listed, found, right.distinct, right.fields, ?_, ?_⟩
  · intro name
    show indexed.contains name = true ↔ _
    rw [right.contains, Record.contains_iff]
  · intro name place
    rw [right.index, Record.index?_eq_some_iff right.distinct]

end OrderedFields
end DocumentCodec
