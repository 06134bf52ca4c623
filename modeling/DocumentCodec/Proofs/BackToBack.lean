import Mathlib.Data.List.Forall2
import DocumentCodec.Proofs.RoundTrip
/-!
# Records back to back

Records are stored one behind the other in one buffer.  Slots hold absolute offsets, so a record has
other bytes there than it has on its own; and a reader that was put at the first one goes on to the
next by itself, because each decoding ends behind the last body and begins with a budget of its own.

What is decoded of a record is what is recalled of it, wherever it stands.  Only the resolver could
make a difference, which may have been asked for other targets before; if its answers depend on the
target alone, what is recalled is *steady*, and each record comes back as it does on its own.
-/

namespace DocumentCodec

/-! ## Steady recalling

Recalling asks the resolver, and what it was asked before goes into the question.  What is steady
does not look there: it may have asked for other things, and recalls the same. -/

/-- What is recalled does not depend on what the resolver was asked for before. -/
def Steady {α : Type} (x : Recalling α) : Prop :=
  ∀ (earlier other : List LinkTarget) (a : α) (last : List LinkTarget),
    x earlier = some (a, last) → ∃ last', x other = some (a, last')

/-- What a resolver answers does not depend on what it was asked for before. -/
def Resolver.IsStateless (resolve : Resolver) : Prop :=
  ∀ earlier other target, resolve earlier target = resolve other target

namespace Steady

variable {α β : Type} {x : Recalling α}

/-- What is recalled without asking is recalled alike after any calls. -/
theorem pure (a : α) : Steady (Pure.pure a : Recalling α) := by
  intro earlier other b last run
  cases run
  exact ⟨other, rfl⟩

theorem failure : Steady (failure : Recalling α) := by
  intro earlier other b last run
  cases run

theorem answer (a : Option α) : Steady (Recalling.answer a) := by
  cases a with
  | none => exact failure
  | some a => exact pure a

/-- Sequences: the second part begins after what the first one asked, which may be other calls each
time, and recalls the same after either. -/
theorem bind {f : α → Recalling β} (first : Steady x) (second : ∀ a, Steady (f a)) :
    Steady (x >>= f) := by
  intro earlier other b last run
  obtain ⟨a, mid, here, later⟩ := Recalling.run_bind_eq_some.mp run
  obtain ⟨mid', here'⟩ := first earlier other a mid here
  obtain ⟨last', later'⟩ := second a mid mid' b last later
  exact ⟨last', Recalling.run_bind_eq_some.mpr ⟨a, mid', here', later'⟩⟩

theorem map {wrap : α → β} (first : Steady x) : Steady (x >>= fun a => Pure.pure (wrap a)) :=
  first.bind fun a => pure (wrap a)

/-- A list, element by element. -/
theorem mapM {f : α → Recalling β} (each : ∀ a, Steady (f a)) (items : List α) :
    Steady (items.mapM f) := by
  induction items with
  | nil => exact pure []
  | cons a rest ih =>
    rw [List.mapM_cons]
    exact (each a).bind fun _ => ih.map

/-- A slot: whether there is a body, and under which tag, does not depend on the calls. -/
theorem inSlot {value : Value} {tag : Except Unsupported TypeTag} {nothing : Recalling α}
    {made : TypeTag → Recalling α} (none : Steady nothing) (some : ∀ tag, Steady (made tag)) :
    Steady (DocumentCodec.inSlot value tag nothing made) := by
  rcases inSlot_cases value tag with same | ⟨chosen, same⟩
  · rw [same]
    exact none
  · rw [same]
    exact some chosen

/-- What a resolver is asked is steady if its answer is the same after any calls. -/
theorem asking {ask : Asking α} (same : ∀ earlier other, (ask earlier).1 = (ask other).1) :
    Steady (Recalling.asking ask) := by
  intro earlier other a last run
  have here : ask earlier = (a, last) := Option.some.inj run
  refine ⟨(ask other).2, congrArg some (Prod.ext ?_ rfl)⟩
  rw [← same earlier other, here]

end Steady

section Recall

variable {context : Context}
  (stateless : ∀ resolve, context.resolver = some resolve → resolve.IsStateless)

/-- The identity that is stored for a target is the same whenever it is. -/
theorem LinkTarget.stored_fst
    (stateless : ∀ resolve, context.resolver = some resolve → resolve.IsStateless)
    (target : LinkTarget) (earlier other : List LinkTarget) :
    (target.stored context earlier).1 = (target.stored context other).1 := by
  unfold LinkTarget.stored
  split
  · cases known : context.resolver with
    | none => rfl
    | some resolve =>
      dsimp only
      rw [stateless resolve known earlier other target]
      cases resolve other target with
      | ok answer => rfl
      | error cause => rfl
  · rfl

/-- The link that is stored does not depend on the calls, if the resolver is stateless. -/
theorem normalLink_fst
    (stateless : ∀ resolve, context.resolver = some resolve → resolve.IsStateless)
    (item : Option LinkTarget) (earlier other : List LinkTarget) :
    (normalLink context item earlier).1 = (normalLink context item other).1 := by
  cases item with
  | none => rfl
  | some target =>
    have same := target.stored_fst stateless earlier other
    rcases here : target.stored context earlier with ⟨rid, asked⟩
    rcases there : target.stored context other with ⟨rid', asked'⟩
    rw [here, there] at same
    have same : rid = rid' := same
    subst same
    rw [normalLink, Asking.run_bind here, Asking.run_bind there]
    rfl

namespace Steady

/-- A length is steady, whether there is one or not. -/
theorem length (n : Nat) : Steady (Recall.length n) := by
  rw [Recall.length]
  split
  · exact pure n
  · exact failure

theorem binary (bytes : List UInt8) : Steady (Recall.binary bytes) := (length _).map

theorem string (text : String) : Steady (Recall.string text) := (binary _).map

theorem custom (typeName : String) (stream : List UInt8) :
    Steady (Recall.custom context typeName stream) :=
  (string typeName).bind fun _ => (binary stream).bind fun _ =>
    (answer context.registry).bind fun _ => (answer _).map

include stateless

theorem links (items : List (Option LinkTarget)) : Steady (Recall.links context items) := by
  refine (length items.length).bind fun _ => ?_
  rw [← Recalling.mapM_asking]
  exact mapM (fun item => asking (normalLink_fst stateless item)) items

/-- The entry of a map of links. -/
theorem linkEntry (entry : String × Option LinkTarget) :
    Steady (Recall.linkEntry context entry) := by
  rw [Recall.linkEntry]
  refine (string entry.1).bind fun key => Steady.map ?_
  exact asking (normalLink_fst stateless entry.2)

theorem linkMap (entries : List (String × Option LinkTarget)) :
    Steady (Recall.linkMap context entries) :=
  (length entries.length).bind fun _ => mapM (linkEntry stateless) entries

/-- Each body that holds no others; the links among them ask the resolver. -/
theorem scalar (tag : TypeTag) (value : Value) : Steady (Recall.scalar context tag value) := by
  unfold Recall.scalar
  split
  · exact (string _).map
  · exact (binary _).map
  · exact (binary _).map
  · exact (answer _).bind fun _ => (answer _).map
  · next target => exact (asking (target.stored_fst stateless)).map
  · next record => exact (asking ((LinkTarget.record record).stored_fst stateless)).map
  · exact (links stateless _).map
  · exact (links stateless _).map
  · exact (links stateless _).map
  · exact (links stateless _).map
  · exact (linkMap stateless _).map
  · exact custom _ _
  · exact pure _

omit stateless in
theorem slot {inner : TypeTag → Recalling Value} (steady : ∀ tag, Steady (inner tag)) (value : Value)
    (tag : Except Unsupported TypeTag) : Steady (Recall.slot inner value tag) :=
  inSlot (pure none) fun tag => (steady tag).map

omit stateless in
theorem member {inner : BodyRecall} (steady : ∀ tag linked value, Steady (inner tag linked value))
    (pair : String × Value) : Steady (Recall.member inner pair) := by
  rw [Recall.member]
  exact (string pair.1).bind fun _ => (slot (fun tag => steady tag none pair.2) pair.2 _).map

omit stateless in
/-- A field: its heading asks for nothing, and its slot for what its body does. -/
theorem field {inner : BodyRecall} (steady : ∀ tag linked value, Steady (inner tag linked value))
    (className : Option String) (field : Field) :
    Steady (Recall.field context inner className field) := by
  have heading : Steady (Recall.heading context className field.name) := by
    rw [Recall.heading]
    split
    · exact pure ()
    · exact (length _).map
  rw [Recall.field]
  exact heading.bind fun _ => (slot (fun tag => steady tag _ field.value) field.value _).map

omit stateless in
theorem record {inner : BodyRecall} (steady : ∀ tag linked value, Steady (inner tag linked value))
    (record : Record) : Steady (Recall.record context inner record) := by
  rw [Recall.record]
  exact (string _).bind fun _ => (mapM (field steady record.className) _).map

/-- One level more of containers, given that the bodies inside them are recalled steadily. -/
theorem bodyWith {remember : Option BodyRecall} (deeper : ∀ inner, remember = some inner →
      ∀ tag linked value, Steady (inner tag linked value))
    (tag : TypeTag) (linked : Option TypeTag) (value : Value) :
    Steady (Recall.bodyWith context remember tag linked value) := by
  cases remember with
  | none =>
    unfold Recall.bodyWith
    dsimp only
    split
    case h_8 => exact scalar stateless tag value
    -- no level is left for a container
    all_goals exact failure
  | some inner =>
    have steady := deeper inner rfl
    have item (element : Value) : Steady (Recall.item inner linked element) := by
      rw [Recall.item]
      exact inSlot (pure Value.null) fun tag => steady tag none element
    have items (elements : List Value) : Steady (Recall.items inner linked elements) := by
      rw [Recall.items]
      exact (length _).bind fun _ => mapM item _
    have members (pairs : List (String × Value)) : Steady (Recall.members inner pairs) := by
      rw [Recall.members]
      exact (length _).bind fun _ => mapM (member steady) _
    unfold Recall.bodyWith
    dsimp only
    split
    · exact (record steady _).bind fun _ => answer _
    · exact (record steady _).bind fun _ => answer _
    · exact (items _).map
    · exact (items _).map
    · exact (items _).map
    · exact (items _).map
    · exact (members _).map
    · exact scalar stateless tag value

/-- Every body is recalled steadily, however deep it nests. -/
theorem body (room : Nat) : ∀ (tag : TypeTag) (linked : Option TypeTag) (value : Value),
    Steady (Recall.body context room tag linked value) := by
  induction room with
  | zero => exact bodyWith stateless fun inner none => by cases none
  | succ room ih =>
    refine bodyWith stateless fun inner same => ?_
    cases same
    exact ih

end Steady
end Recall

/-! ## Records in a row

The first record is written at an offset of its own, and the next one where it ended.  So an
induction over the records carries an offset for writing and a cursor for reading, and they move on
together. -/

namespace Record

/-- Appends the encodings of records one behind the other, and answers with the offset of each. -/
def encodeEach (context : Context) : List Record → Arena → (earlier : List LinkTarget) →
    Except CodecError (List Nat) × Arena
  | [], arena, _ => (.ok [], arena)
  | record :: rest, arena, earlier =>
    match record.encodeInto context arena earlier with
    | (.error e, arena, _) => (.error e, arena)
    | (.ok start, arena, calls) =>
      let later := encodeEach context rest arena (earlier ++ calls)
      (later.1.map (start :: ·), later.2)

/-- Decodes a record into a new one, and answers with it and with where the decoding ended. -/
def decodeNext (context : Context) (input : List UInt8) : Decoder (Record × Nat) := do
  let made ← (decodeFrom context input none).onNew
  let last ← Cursor.offset
  return (made, last)

/-- Puts the cursor at `start` and decodes records from there on, one behind the other. -/
def decodeEach (context : Context) (input : List UInt8) (start count : Nat) :
    Decoder (List (Record × Nat)) := do
  Cursor.seek input start
  Decoding.times (decodeNext context input) count

/-- The record that its own encoding is decoded to, which is a buffer of less than `2 ^ 63` bytes,
as any buffer in memory is. -/
def DecodesAlone (context : Context) (record made : Record) : Prop :=
  ∃ own last, record.encode context = .ok own ∧ own.length < 2 ^ 63 ∧
    decode context own none Record.new = .ok () ⟨last, made⟩

variable {context : Context} {record made : Record} {input bytes tail : List UInt8} {start : Nat}
  {earlier calls : List LinkTarget}

theorem onNew_decodeFrom (here : Cursor) : (decodeFrom context input none).onNew here
    = readingInto context input none Record.new here := by
  rw [Binder.onNew_eq, into_decodeFrom, bind_assoc]
  exact congrFun (bind_pure _) here

variable (built : ∀ schema, context.schema = some schema → schema.IsBuilt)
  (stateless : ∀ resolve, context.resolver = some resolve → resolve.IsStateless)
include built stateless

/-- What is decoded of a record on its own is recalled of it wherever it is written. -/
theorem DecodesAlone.recalled (formed : record.isWellFormed = true)
    (named : record.IsNamed context) (alone : record.DecodesAlone context made)
    (earlier : List LinkTarget) : ∃ last, record.recalled context earlier = some (made, last) := by
  obtain ⟨own, last, encoded, small, decoded⟩ := alone
  obtain ⟨calls, -, recalled⟩ := recalled_of_decode formed built named encoded small decoded
  exact Steady.record (Steady.body stateless context.options.maxDepth) record _ _ _ _ recalled

/-- A record that stands somewhere in a buffer is decoded there as it is on its own. -/
theorem DecodesAlone.next (formed : record.isWellFormed = true) (named : record.IsNamed context)
    (alone : record.DecodesAlone context made)
    (run : record.emission context start earlier = ⟨bytes, calls, .ok ()⟩)
    (holds : Holds input start bytes) (small : input.length < 2 ^ 63) (visited : Nat) :
    decodeNext context input ⟨start, visited⟩
      = .ok (made, start + bytes.length) ⟨start + bytes.length, bytes.length⟩ := by
  -- what is recalled does not depend on what was asked before this record
  obtain ⟨last, recalled⟩ := alone.recalled built stateless formed named earlier
  have coherent (schema : Snapshot) (known : context.schema = some schema) : schema.IsCoherent :=
    (built schema known).isCoherent
  have restores : Restores context True input _ _ _ :=
    restores_body coherent small context.options.maxDepth
  have back : ReadsBack True context.RefusesWith input _ start bytes _ :=
    recalls_emission restores coherent formed named run small fun _ =>
      Option.isSome_iff_exists.mpr ⟨_, recalled⟩
  have inside := holds.bound
  -- the reading ends behind the bytes with what is recalled, which is what the record decodes to
  -- alone
  obtain ⟨made', read, recalled'⟩ := (back holds 0 (by omega)).of_exact
  cases recalled.symm.trans recalled'
  rw [Nat.zero_add] at read
  rw [decodeNext]
  have whole : (decodeFrom context input none).onNew ⟨start, visited⟩
      = .ok made ⟨start + bytes.length, bytes.length⟩ := by
    rw [onNew_decodeFrom]
    exact read
  rw [run_bind_of_ok whole]
  rfl

omit built stateless in
/-- Records that were all written are the first one and the others behind it. -/
theorem encodeEach_cons {rest : List Record} {arena final : Arena} {starts : List Nat}
    (run : encodeEach context (record :: rest) arena earlier = (.ok starts, final)) :
    ∃ bytes calls starts', record.emission context arena.size earlier = ⟨bytes, calls, .ok ()⟩ ∧
      encodeEach context rest (arena.append bytes).2 (earlier ++ calls) = (.ok starts', final) ∧
      starts = arena.size :: starts' := by
  rw [encodeEach, encodeInto] at run
  rcases emitted : record.emission context arena.size earlier with ⟨bytes, calls, result⟩
  rw [emitted] at run
  cases result with
  | error e => cases run
  | ok _ =>
    -- the first record went through, and so did the rest behind it
    have run : ((encodeEach context rest (arena.append bytes).2 (earlier ++ calls)).1.map
        (arena.size :: ·), (encodeEach context rest (arena.append bytes).2
          (earlier ++ calls)).2) = (.ok starts, final) := run
    rcases later : encodeEach context rest (arena.append bytes).2 (earlier ++ calls)
      with ⟨outcome, final'⟩
    rw [later] at run
    cases outcome with
    | error e => cases run
    | ok starts' =>
      cases run
      exact ⟨bytes, calls, starts', rfl, later, rfl⟩

omit built stateless in
/-- What stood in the arena before stays there. -/
theorem encodeEach_grows : ∀ (records : List Record) {arena final : Arena}
    {earlier : List LinkTarget} {starts : List Nat},
    encodeEach context records arena earlier = (.ok starts, final) →
    ∃ more, final.toList = arena.toList ++ more := by
  intro records
  induction records with
  | nil =>
    intro arena final earlier starts run
    cases run
    exact ⟨[], (List.append_nil _).symm⟩
  | cons record rest ih =>
    intro arena final earlier starts run
    obtain ⟨bytes, calls, starts', -, later, -⟩ := encodeEach_cons run
    obtain ⟨more, grown⟩ := ih later
    refine ⟨bytes ++ more, ?_⟩
    rw [grown, Arena.toList_append, List.append_assoc]

omit built stateless in
/-- There is an offset for each record. -/
theorem length_encodeEach : ∀ (records : List Record) {arena final : Arena}
    {earlier : List LinkTarget} {starts : List Nat},
    encodeEach context records arena earlier = (.ok starts, final) →
    starts.length = records.length := by
  intro records
  induction records with
  | nil =>
    intro arena final earlier starts run
    cases run
    rfl
  | cons record rest ih =>
    intro arena final earlier starts run
    obtain ⟨bytes, calls, starts', -, later, rfl⟩ := encodeEach_cons run
    rw [List.length_cons, List.length_cons, ih later]

/-- Records in a row are decoded in a row; the induction is on the records, and the arena before
each of them says where it begins. -/
theorem times_decodeNext : ∀ (records : List Record) {mades : List Record} {arena final : Arena}
    {earlier : List LinkTarget} {starts : List Nat},
    (∀ record ∈ records, record.isWellFormed = true) →
    (∀ record ∈ records, record.IsNamed context) →
    List.Forall₂ (DecodesAlone context) records mades →
    encodeEach context records arena earlier = (.ok starts, final) →
    (final.toList ++ tail).length < 2 ^ 63 →
    starts.headD final.size = arena.size ∧ ∀ visited, ∃ visited',
      Decoding.times (decodeNext context (final.toList ++ tail)) records.length
        ⟨arena.size, visited⟩
        = .ok (mades.zip (starts ++ [final.size]).tail) ⟨final.size, visited'⟩ := by
  intro records
  induction records with
  | nil =>
    intro mades arena final earlier starts _ _ alone run _
    cases alone
    cases run
    exact ⟨rfl, fun visited => ⟨visited, rfl⟩⟩
  | cons record rest ih =>
    intro mades arena final earlier starts formed named alone run small
    cases alone with
    | @cons _ made _ mades alone others =>
      obtain ⟨bytes, calls, starts', emitted, later, rfl⟩ := encodeEach_cons run
      obtain ⟨more, grown⟩ := encodeEach_grows rest later
      -- later records only append, so the bytes of this one still stand where it began
      have holds : Holds (final.toList ++ tail) arena.size bytes := by
        refine ⟨arena.toList, more ++ tail, ?_, arena.length_toList⟩
        rw [grown, Arena.toList_append, List.append_assoc]
      have size : (arena.append bytes).2.size = arena.size + bytes.length := by
        rw [← Arena.length_toList, Arena.toList_append, List.length_append, Arena.length_toList]
      obtain ⟨first, walk⟩ := ih (fun other there => formed other (List.mem_cons_of_mem _ there))
        (fun other there => named other (List.mem_cons_of_mem _ there)) others later small
      refine ⟨rfl, fun visited => ?_⟩
      have next := alone.next built stateless (formed record List.mem_cons_self)
        (named record List.mem_cons_self) emitted holds small visited
      obtain ⟨visited', behind⟩ := walk bytes.length
      refine ⟨visited', ?_⟩
      rw [size] at first behind
      rw [List.length_cons, Decoding.times, run_bind_of_ok next, run_bind_of_ok behind]
      -- the record ends where the next one begins, or with the last one at the end
      have ends : starts' ++ [final.size]
          = (arena.size + bytes.length) :: (starts' ++ [final.size]).tail := by
        rw [← first]
        cases starts' <;> rfl
      rw [List.cons_append, List.tail_cons, ends]
      rfl

/-- **Records that stand back to back are decoded one behind the other.**  Each comes back as it
does on its own, and its decoding ends where the next record begins, or with the last one where all
end, whatever stands before the first and behind the last. -/
theorem decodeEach_encodeEach {records mades : List Record} {arena final : Arena}
    {starts : List Nat} (formed : ∀ record ∈ records, record.isWellFormed = true)
    (named : ∀ record ∈ records, record.IsNamed context)
    (alone : List.Forall₂ (DecodesAlone context) records mades)
    (run : encodeEach context records arena earlier = (.ok starts, final))
    (small : (final.toList ++ tail).length < 2 ^ 63) :
    starts.length = records.length ∧ ∃ visited,
      decodeEach context (final.toList ++ tail) (starts.headD final.size) records.length Cursor.start
        = .ok (mades.zip (starts ++ [final.size]).tail) ⟨final.size, visited⟩ := by
  obtain ⟨first, walk⟩ := times_decodeNext built stateless records formed named alone run small
  obtain ⟨more, grown⟩ := encodeEach_grows records run
  refine ⟨length_encodeEach records run, ?_⟩
  have inside : arena.size ≤ (final.toList ++ tail).length := by
    rw [grown, ← arena.length_toList]
    simp only [List.length_append]
    omega
  obtain ⟨visited, decoded⟩ := walk 0
  refine ⟨visited, ?_⟩
  rw [decodeEach, first, run_bind_of_ok (Cursor.run_seek _ inside)]
  exact decoded

omit built stateless in
/-- Two records of one field each, between two bytes before them and one behind. -/
theorem decodeEach_encodeEach_of_two :
    let first : Record := ⟨none, RecordId.empty, [⟨"a", .byte 5, none⟩], false⟩
    let second : Record := ⟨none, RecordId.empty, [⟨"b", .boolean true, none⟩], false⟩
    let made : Record := ⟨none, RecordId.empty, [⟨"a", .byte 5, some .byte⟩], false⟩
    let made' : Record := ⟨none, RecordId.empty, [⟨"b", .boolean true, some .boolean⟩], false⟩
    let final : Arena := ⟨#[9, 9, 0, 1, 97, 0, 0, 0, 11, 17, 0, 5, 0, 1, 98, 0, 0, 0, 21, 0, 0, 1]⟩
    encodeEach {} [first, second] ⟨#[9, 9]⟩ [] = (.ok [2, 12], final) ∧
      List.Forall₂ (DecodesAlone {}) [first, second] [made, made'] ∧ [2, 12].length = 2 ∧ ∃ visited,
        decodeEach {} (final.toList ++ [7]) 2 2 Cursor.start
          = .ok [(made, 12), (made', 22)] ⟨22, visited⟩ := by
  intro first second made made' final
  have run : encodeEach {} [first, second] ⟨#[9, 9]⟩ [] = (.ok [2, 12], final) :=
    Prod.ext (eq_ok_of_toOption (by decide +kernel)) (by decide +kernel)
  have alone : first.DecodesAlone {} made :=
    ⟨[0, 1, 97, 0, 0, 0, 9, 17, 0, 5], ⟨10, 10⟩, eq_ok_of_toOption (by decide +kernel), by decide, rfl⟩
  have alone' : second.DecodesAlone {} made' :=
    ⟨[0, 1, 98, 0, 0, 0, 9, 0, 0, 1], ⟨10, 10⟩, eq_ok_of_toOption (by decide +kernel), by decide, rfl⟩
  have both : List.Forall₂ (DecodesAlone {}) [first, second] [made, made'] :=
    .cons alone (.cons alone' .nil)
  have formed : ∀ record ∈ [first, second], record.isWellFormed = true := by
    intro record there
    simp only [List.mem_cons, List.not_mem_nil, or_false] at there
    rcases there with rfl | rfl <;> rfl
  have named : ∀ record ∈ [first, second], record.IsNamed {} := by
    unfold IsNamed
    decide
  exact ⟨run, both, decodeEach_encodeEach (fun _ none => by cases none)
    (fun _ none => by cases none) formed named both run (by decide)⟩

end Record
end DocumentCodec
