import DocumentCodec.Proofs.Lockstep
import DocumentCodec.Proofs.RoundTrip
/-!
# The limit for nesting

The writers and the readers count levels each on their own, so it has to be shown that they count
alike: whatever limit is set, a record can be written exactly if its encoding can be read, and else
both fail for the limit.

A writer with less room does what one with more room does, unless a value that it is given nests
deeper than its room; then it fails, and what a reader with as much room makes of the value is
nothing.  That is one dichotomy, `Alike`, between two writers and what is recalled, which does not
depend on where the value is written.  A reader with less room stays in step with one that has more,
so it can fail in one way only.
-/

namespace DocumentCodec

/-! ## Another limit

Everything but the levels is as it was, so only what asks for a level is looked at again. -/

/-- The context with another limit for nesting. -/
def Context.limited (context : Context) (limit : Nat) : Context :=
  { context with options := { context.options with maxDepth := limit } }

section Limited

variable (context : Context) (limit : Nat) (input : List UInt8)

theorem Encoding.writeBodyWith_limited :
    writeBodyWith (context.limited limit) = writeBodyWith context := rfl

theorem Recall.bodyWith_limited : bodyWith (context.limited limit) = bodyWith context := rfl

/-- Where nothing is excused, the limit alone makes no difference. -/
theorem Lockstep.limited {excused : Failure → Prop} :
    Lockstep excused context (context.limited limit) input input :=
  .of_context input (fun _ => Or.inl rfl) rfl rfl

/-- Given the reader for one level deeper, the limit is not looked at. -/
theorem Decoding.readBodyWith_limited (inner : Except CodecError BodyReader) :
    readBodyWith (context.limited limit) input inner = readBodyWith context input inner := by
  funext tag
  refine Follows.eq ((Lockstep.limited context limit input).bodyWith (fun read there => ?_)
    (fun e there => Or.inl there) tag)
  exact ⟨read, there, fun _ => .refl _⟩

/-- Nor is it where a record is read, given the reader for the bodies in it. -/
theorem Decoding.readRecordInto_limited (inner : BodyReader) (projection : Option (List String))
    (target : Record) : readRecordInto (context.limited limit) input inner projection target
      = readRecordInto context input inner projection target := by
  -- the fields are gone through in lockstep, with the one reader on both sides
  have walk (entries last bound : Nat) :
      readFields (context.limited limit) input inner projection entries last bound
        = readFields context input inner projection entries last bound := by
    have lock : Lockstep (fun _ => False) _ _ input input := .limited context limit input
    have follows := lock.fields (fun tag => .refl (inner tag)) projection entries last bound
    rw [Nat.sub_self] at follows
    exact follows.eq
  unfold readRecordInto readFieldsInto
  simp only [walk]

end Limited

/-! ## What becomes of less room

The two writers part only by a body that nests deeper than there is room for; and where they part,
the one with less room fails.  `Alike` keeps that together with what is recalled, which is nothing
then. -/

/-- The second of two encodings fails, and if the first one succeeds it is for the reason given. -/
def Refused {τ : Type} (e : CodecError) (lead follow : Except CodecError τ) : Prop :=
  ∃ reason, follow = .error reason ∧ ∀ t, lead = .ok t → reason = e

/-- The same is done and the same is recalled, or it is refused and nothing is recalled. -/
inductive Alike {α : Type} (same refused : Prop) (x x' : Recalling α) : Prop where
  | same (run : same) (recalled : x' = x)
  | refused (run : refused) (nothing : ∀ asked, x' asked = none)

namespace Recalling

variable {α β : Type} {asked : List LinkTarget}

/-- Where nothing is recalled first, nothing is recalled at all. -/
theorem bind_none_left {r : Recalling α} {f : α → Recalling β} (nothing : r asked = none) :
    (r >>= f) asked = none := by
  show (r asked >>= fun p => f p.1 p.2) = none
  rw [nothing]
  rfl

/-- Where nothing can be recalled behind it, nothing is recalled either. -/
theorem bind_none_right {r : Recalling α} {f : α → Recalling β}
    (nothing : ∀ a asked, f a asked = none) : (r >>= f) asked = none := by
  show (r asked >>= fun p => f p.1 p.2) = none
  cases r asked with
  | none => rfl
  | some p => exact nothing p.1 p.2

end Recalling

namespace Alike

variable {α β γ : Type} {same refused same' refused' : Prop} {x x' : Recalling α}

/-- What follows from running alike, and from being refused, may take their places. -/
theorem imp (alike : Alike same refused x x') (run : same → same')
    (fails : refused → refused') : Alike same' refused' x x' := by
  cases alike with
  | same first recalled => exact .same (run first) recalled
  | refused first nothing => exact .refused (fails first) nothing

/-- What is done with what was recalled is done on both sides. -/
theorem map {f : α → Recalling β} (alike : Alike same refused x x') :
    Alike same refused (x >>= f) (x' >>= f) := by
  cases alike with
  | same run recalled => exact .same run (by rw [recalled])
  | refused run nothing => exact .refused run fun asked => Recalling.bind_none_left (nothing asked)

/-- Something is recalled before. -/
theorem behind (front : Recalling γ) (alike : Alike same refused x x') :
    Alike same refused (front >>= fun _ => x) (front >>= fun _ => x') := by
  cases alike with
  | same run recalled => exact .same run (by rw [recalled])
  | refused run nothing =>
    exact .refused run fun asked => Recalling.bind_none_right fun _ => nothing

/-- Something is recalled before, and an answer is made of both. -/
theorem within (front : Recalling γ) {f : γ → α → Recalling β}
    (alike : Alike same refused x x') :
    Alike same refused (front >>= fun c => x >>= f c) (front >>= fun c => x' >>= f c) := by
  cases alike with
  | same run recalled => exact .same run (by rw [recalled])
  | refused run nothing =>
    exact .refused run fun asked => Recalling.bind_none_right fun _ asked =>
      Recalling.bind_none_left (nothing asked)

/-- One thing and then others: the others matter only if the one is done the same. -/
theorem cons {a : β} {rest : List β} {g g' : β → Recalling γ}
    (first : Alike same refused (g a) (g' a))
    (later : Alike same' refused' (rest.mapM g) (rest.mapM g')) :
    Alike (same ∧ same') (refused ∨ same ∧ refused') ((a :: rest).mapM g) ((a :: rest).mapM g') := by
  rw [List.mapM_cons, List.mapM_cons]
  cases first with
  | refused run nothing =>
    exact .refused (Or.inl run) fun asked => Recalling.bind_none_left (nothing asked)
  | same run recalled =>
    cases later with
    | same run' recalled' => exact .same ⟨run, run'⟩ (by rw [recalled, recalled'])
    | refused run' nothing =>
      exact .refused (Or.inr ⟨run, run'⟩) fun asked => Recalling.bind_none_right fun _ asked =>
        Recalling.bind_none_left (nothing asked)

end Alike

/-! ## Encoders in sequence

The encoder with less room does what the other one did, up to the first body that is refused. -/

namespace Encoder

variable {α β : Type} {e : CodecError} {start : Nat} {earlier : List LinkTarget}

/-- A sequence fails as its first part does, or else as its second. -/
theorem result_bind (x : Encoder α) (f : α → Encoder β) : ((x >>= f) start earlier).result
    = match (x start earlier).result with
      | .error reason => .error reason
      | .ok a => (f a (start + (x start earlier).bytes.length)
          (earlier ++ (x start earlier).calls)).result := by
  show (bind x f start earlier).result = _
  rw [bind]
  cases (x start earlier).result with
  | error reason => rfl
  | ok a => rfl

/-- Two encoders, the second of which is always refused. -/
def Refuses (e : CodecError) (lead follow : Encoder α) : Prop :=
  ∀ start earlier, Refused e (lead start earlier).result (follow start earlier).result

theorem refuses_fail (lead : Encoder α) : Refuses e lead (fail e) :=
  fun _ _ => ⟨e, rfl, fun _ _ => rfl⟩

/-- A sequence is refused with its first part. -/
theorem Refuses.bind {x x' : Encoder α} {f f' : α → Encoder β} (first : Refuses e x x') :
    Refuses e (x >>= f) (x' >>= f') := by
  intro start earlier
  -- if the sequence can be done without the limit, its first part can
  obtain ⟨reason, failed, why⟩ := first start earlier
  refine ⟨reason, by rw [result_bind, failed], fun b done => ?_⟩
  rw [result_bind] at done
  cases run : (x start earlier).result with
  | error other =>
    rw [run] at done
    cases done
  | ok a => exact why a run

/-- A sequence is refused with its second part, if the first one can be done. -/
theorem Refuses.after (x : Encoder α) {f f' : α → Encoder β} (second : ∀ a, Refuses e (f a) (f' a)) :
    Refuses e (x >>= f) (x >>= f') := by
  intro start earlier
  rw [result_bind, result_bind]
  cases run : (x start earlier).result with
  | error reason => exact ⟨reason, rfl, fun _ done => by cases done⟩
  | ok a => exact second a _ _

end Encoder

/-- Two writers of bodies, the second of which has less room, with what is recalled at either. -/
structure AlikeBodies (e : CodecError) (write write' : BodyWriter) (remember remember' : BodyRecall) :
    Prop where
  alike : ∀ field tag linked value,
    Alike (write' field tag linked value = write field tag linked value)
      (Encoder.Refuses e (write field tag linked value) (write' field tag linked value))
      (remember tag linked value) (remember' tag linked value)

namespace AlikeBodies

variable {e : CodecError} {write write' : BodyWriter} {remember remember' : BodyRecall}
  (bodies : AlikeBodies e write write' remember remember')
include bodies

/-! ## Lists and sets -/

/-- An element runs alike, or it is refused with its body and not recalled. -/
theorem item (field : String) (linked : Option TypeTag) (item : Value) :
    Alike (Encoding.writeItem write' field (linked.filter (·.isConcrete)) item
        = Encoding.writeItem write field (linked.filter (·.isConcrete)) item)
      (Encoder.Refuses e (Encoding.writeItem write field (linked.filter (·.isConcrete)) item)
        (Encoding.writeItem write' field (linked.filter (·.isConcrete)) item))
      (Recall.item remember linked item) (Recall.item remember' linked item) := by
  rw [Encoding.writeItem, Encoding.writeItem, Recall.item, Recall.item]
  cases null : item.isNull with
  | true =>
    rw [inSlot_of_null null, inSlot_of_null null]
    exact .same rfl rfl
  | false =>
    cases typed : linked.filter (·.isConcrete) <|> item.naturalTag with
    | none =>
      -- an element that has no tag is refused on both sides for that
      have choice : itemTag linked item = .error .untypedElement := by rw [itemTag, typed]
      rw [inSlot_of_error choice, inSlot_of_error choice]
      exact .same rfl rfl
    | some chosen =>
      have choice : itemTag linked item = .ok chosen := by rw [itemTag, typed]
      rw [inSlot_of_ok null choice, inSlot_of_ok null choice]
      refine (bodies.alike field chosen none item).imp (fun same => ?_) fun refuses => ?_
      · simp only [same]
      · -- its tag is written before its body is refused
        exact Encoder.Refuses.after (Encoder.byte chosen.id) fun _ => refuses

/-- Elements run alike one behind the other, until one of them is refused. -/
theorem forM (field : String) (linked : Option TypeTag) (items : List Value) :
    Alike (items.forM (Encoding.writeItem write' field (linked.filter (·.isConcrete)))
        = items.forM (Encoding.writeItem write field (linked.filter (·.isConcrete))))
      (Encoder.Refuses e (items.forM (Encoding.writeItem write field (linked.filter (·.isConcrete))))
        (items.forM (Encoding.writeItem write' field (linked.filter (·.isConcrete)))))
      (items.mapM (Recall.item remember linked)) (items.mapM (Recall.item remember' linked)) := by
  induction items with
  | nil => exact .same rfl rfl
  | cons item rest ih =>
    rw [Encoder.forM_cons, Encoder.forM_cons]
    refine ((bodies.item field linked item).cons ih).imp ?_ ?_
    · rintro ⟨same, later⟩
      rw [same, later]
    · rintro (refuses | ⟨same, refuses⟩)
      · exact refuses.bind
      · rw [same]
        exact Encoder.Refuses.after _ fun _ => refuses

/-- So does a list: its number and its tag are written before the first element. -/
theorem items (field : String) (linked : Option TypeTag) (items : List Value) :
    Alike (Encoding.writeItems write' field linked items = Encoding.writeItems write field linked items)
      (Encoder.Refuses e (Encoding.writeItems write field linked items)
        (Encoding.writeItems write' field linked items))
      (Recall.items remember linked items) (Recall.items remember' linked items) := by
  rw [Encoding.writeItems, Encoding.writeItems, Recall.items, Recall.items]
  refine ((bodies.forM field linked _).behind _).imp (fun same => ?_) fun refuses => ?_
  · rw [same]
  · exact Encoder.Refuses.after _ fun _ => Encoder.Refuses.after _ fun _ => refuses

end AlikeBodies

/-! ## Tables

A body that is refused ends the writing of the table, and the bodies before it are the same; so are
the labels, and the slots that were filled. -/

namespace Bodies

variable {e : CodecError} {start : Nat} {earlier : List LinkTarget}

/-- Bodies fail as the first one does, or else as those behind it. -/
theorem result_write_some (body : Encoder TypeTag) (rest : List (Option (Encoder TypeTag))) :
    (write (some body :: rest) start earlier).result
      = match (body start earlier).result with
        | .error reason => .error reason
        | .ok _ => (write rest (start + (body start earlier).bytes.length)
            (earlier ++ (body start earlier).calls)).result := by
  rw [write]
  cases (body start earlier).result with
  | error reason => rfl
  | ok tag => rfl

/-- Two lists of bodies, the second of which is always refused. -/
def Refuses (e : CodecError) (lead follow : List (Option (Encoder TypeTag))) : Prop :=
  ∀ start earlier, Refused e (write lead start earlier).result (write follow start earlier).result

/-- Bodies are refused with the first one. -/
theorem Refuses.cons {body body' : Encoder TypeTag} {rest rest' : List (Option (Encoder TypeTag))}
    (first : Encoder.Refuses e body body') : Refuses e (some body :: rest) (some body' :: rest') := by
  intro start earlier
  obtain ⟨reason, failed, why⟩ := first start earlier
  refine ⟨reason, by rw [result_write_some, failed], fun _ done => ?_⟩
  rw [result_write_some] at done
  cases run : (body start earlier).result with
  | error other =>
    rw [run] at done
    cases done
  | ok tag => exact why tag run

/-- Bodies are refused with those behind the first one, if that one can be written. -/
theorem Refuses.behind (body : Option (Encoder TypeTag)) {rest rest' : List (Option (Encoder TypeTag))}
    (later : Refuses e rest rest') : Refuses e (body :: rest) (body :: rest') := by
  intro start earlier
  cases body with
  | none => exact later start earlier
  | some body =>
    rw [result_write_some, result_write_some]
    cases run : (body start earlier).result with
    | error reason => exact ⟨reason, rfl, fun _ done => by cases done⟩
    | ok tag => exact later _ _

end Bodies

/-- Two entries, the second of which has a body that is always refused. -/
def Entry.Refuses (e : CodecError) (lead follow : Entry) : Prop :=
  ∃ body body', lead.body = some body ∧ follow.body = some body' ∧ Encoder.Refuses e body body'

/-- The size of a header does not depend on the writer for the bodies. -/
theorem Member.sizeAll_entry (write write' : BodyWriter) (members : List Member) :
    Entry.sizeAll (members.map (entry write')) = Entry.sizeAll (members.map (entry write)) := by
  induction members with
  | nil => rfl
  | cons member rest ih =>
    rw [List.map_cons, List.map_cons, Entry.sizeAll, Entry.sizeAll, ih]
    rfl

namespace AlikeBodies

variable {e : CodecError} {write write' : BodyWriter} {remember remember' : BodyRecall}
  (bodies : AlikeBodies e write write' remember remember')

include bodies in
/-- An entry runs alike, or it is refused with the body in its slot and not recalled. -/
theorem entry (member : Member) :
    Alike (member.entry write' = member.entry write)
      (Entry.Refuses e (member.entry write) (member.entry write'))
      (Recall.slot (fun tag => remember tag member.linked member.value) member.value member.tag)
      (Recall.slot (fun tag => remember' tag member.linked member.value) member.value member.tag) := by
  obtain ⟨field, label, pinned, value, tag, linked⟩ := member
  dsimp only [Member.entry]
  rw [Recall.slot, Recall.slot, Encoding.writeSlotBody, Encoding.writeSlotBody]
  cases null : value.isNull with
  | true =>
    -- an empty slot holds no level
    rw [inSlot_of_null null, inSlot_of_null null]
    exact .same rfl rfl
  | false =>
    cases tag with
    | error reason => exact .same rfl (by rw [inSlot_of_error rfl, inSlot_of_error rfl])
    | ok chosen =>
      rw [inSlot_of_ok null rfl, inSlot_of_ok null rfl]
      -- a body is written alike, or refused, and then the slot is refused with it
      refine (bodies.alike field chosen linked value).map.imp (fun same => ?_) fun refuses => ?_
      · simp only [same]
      · exact ⟨_, _, rfl, rfl, Encoder.Refuses.after Encoder.position fun _ => refuses.bind⟩

/-- All bodies are written alike, or one of them is refused. -/
theorem all {α β : Type} {member : α → Member} {g g' : α → Recalling β} : ∀ kept : List α,
    (∀ a ∈ kept, Alike ((member a).entry write' = (member a).entry write)
      (Entry.Refuses e ((member a).entry write) ((member a).entry write')) (g a) (g' a)) →
    Alike ((kept.map member).map (Member.entry write') = (kept.map member).map (Member.entry write))
      (Bodies.Refuses e (((kept.map member).map (Member.entry write)).map (·.body))
        (((kept.map member).map (Member.entry write')).map (·.body)))
      (kept.mapM g) (kept.mapM g') := by
  intro kept
  induction kept with
  | nil => exact fun _ => .same rfl rfl
  | cons a rest ih =>
    intro each
    have later := ih fun other there => each other (List.mem_cons_of_mem _ there)
    refine ((each a List.mem_cons_self).cons later).imp ?_ ?_
    · rintro ⟨same, later⟩
      simp only [List.map_cons, same, later]
    · simp only [List.map_cons]
      -- the first body that is refused ends them all; those in front of it are the same
      rintro (⟨body, body', leads, follows, refuses⟩ | ⟨same, refuses⟩)
      · rw [leads, follows]
        exact Bodies.Refuses.cons refuses
      · rw [same]
        exact refuses.behind _

/-- A table is written alike, or the body of one of its members is refused. -/
theorem table {α β : Type} {member : α → Member} {g g' : α → Recalling β} (head tail : List UInt8)
    (kept : List α)
    (each : ∀ a ∈ kept, Alike ((member a).entry write' = (member a).entry write)
      (Entry.Refuses e ((member a).entry write) ((member a).entry write')) (g a) (g' a)) :
    Alike (writeTable head ((kept.map member).map (Member.entry write')) tail
        = writeTable head ((kept.map member).map (Member.entry write)) tail)
      (Encoder.Refuses e (writeTable head ((kept.map member).map (Member.entry write)) tail)
        (writeTable head ((kept.map member).map (Member.entry write')) tail))
      (kept.mapM g) (kept.mapM g') := by
  refine (all kept each).imp (fun same => by rw [same]) fun refuses start earlier => ?_
  rw [writeTable, writeTable, Member.sizeAll_entry write write']
  exact refuses _ earlier

include bodies

/-- A map runs alike, or it is refused with one of its members. -/
theorem map (field : String) (pairs : List (String × Value)) :
    Alike (Encoding.writeMap write' field pairs = Encoding.writeMap write field pairs)
      (Encoder.Refuses e (Encoding.writeMap write field pairs) (Encoding.writeMap write' field pairs))
      (Recall.members remember pairs) (Recall.members remember' pairs) := by
  rw [Encoding.writeMap_eq, Encoding.writeMap_eq, Recall.members, Recall.members]
  exact (table _ _ _ fun pair _ => (bodies.entry (.ofPair field pair)).within _).behind _

/-- A record runs alike, or it is refused with one of its fields. -/
theorem record (context : Context) (record : Record) :
    Alike (Encoding.writeRecord context write' record = Encoding.writeRecord context write record)
      (Encoder.Refuses e (Encoding.writeRecord context write record)
        (Encoding.writeRecord context write' record))
      (Recall.record context remember record) (Recall.record context remember' record) := by
  rw [Encoding.writeRecord_eq, Encoding.writeRecord_eq, Recall.record, Recall.record]
  refine (table _ _ _ fun field _ => ?_).within _
  have alike := bodies.entry (.ofField context record.className field)
  simp only [Member.value_ofField, Member.tag_ofField, Member.linked_ofField] at alike
  exact alike.within _

/-- So does an embedded record: what is made of it in the end looks at no limit. -/
theorem embedded (context : Context) (record : Record) :
    Alike (Encoding.writeRecord context write' record = Encoding.writeRecord context write record)
      (Encoder.Refuses e (Encoding.writeRecord context write record)
        (Encoding.writeRecord context write' record))
      (Recall.embedded context remember record) (Recall.embedded context remember' record) :=
  (bodies.record context record).map

end AlikeBodies

/-! ## Level by level

The limit is met at a level of the writer, of the reader, and of what is recalled, and these are the
same levels. -/

/-- One level more of containers.  The second writer may have no level where the first one has
one. -/
theorem alike_bodyWith (context : Context) {e : CodecError} {inner inner' : Except CodecError BodyWriter}
    {remember remember' : Option BodyRecall}
    (deeper : ∀ write', inner' = .ok write' → ∃ write inside inside', inner = .ok write ∧
      remember = some inside ∧ remember' = some inside' ∧ AlikeBodies e write write' inside inside')
    (limited : ∀ reason, inner' = .error reason → reason = e ∧ remember' = none) :
    AlikeBodies e (Encoding.writeBodyWith context inner) (Encoding.writeBodyWith context inner')
      (Recall.bodyWith context remember) (Recall.bodyWith context remember') := by
  constructor
  intro field tag linked value
  cases flat : tag.isContainer with
  | false =>
    rw [Encoding.writeBodyWith_flat flat, Encoding.writeBodyWith_flat flat,
      Recall.bodyWith_flat flat, Recall.bodyWith_flat flat]
    exact .same rfl rfl
  | true =>
    cases inner' with
    | error reason =>
      obtain ⟨rfl, rfl⟩ := limited reason rfl
      -- a container is refused for the level, and any other value for its kind at every level
      cases tag with
      | embedded =>
        cases value with
        | embedded _ | serializable _ _ => exact .refused (Encoder.refuses_fail _) fun _ => rfl
        | _ => exact .same rfl rfl
      | embeddedList | embeddedSet =>
        cases value with
        | embeddedList _ | embeddedSet _ => exact .refused (Encoder.refuses_fail _) fun _ => rfl
        | _ => exact .same rfl rfl
      | embeddedMap =>
        cases value with
        | embeddedMap _ => exact .refused (Encoder.refuses_fail _) fun _ => rfl
        | _ => exact .same rfl rfl
      | _ => cases flat
    | ok write' =>
      obtain ⟨write, inside, inside', rfl, rfl, rfl, bodies⟩ := deeper write' rfl
      cases tag with
      | embedded =>
        cases value with
        | embedded record => exact bodies.embedded context record
        | serializable className record =>
          exact bodies.embedded context (Encoding.markedRecord className record)
        | _ => exact .same rfl rfl
      | embeddedList | embeddedSet =>
        cases value with
        | embeddedList items | embeddedSet items => exact (bodies.items field linked items).map
        | _ => exact .same rfl rfl
      | embeddedMap =>
        cases value with
        | embeddedMap pairs => exact (bodies.map field pairs).map
        | _ => exact .same rfl rfl
      | _ => cases flat

/-- A writer with some room against one with more, and what is recalled with as much of it. -/
theorem alike_body (context : Context) (limit more room : Nat) :
    AlikeBodies (context.limited limit).tooDeep (Encoding.writeBody context (room + more))
      (Encoding.writeBody (context.limited limit) room) (Recall.body context (room + more))
      (Recall.body (context.limited limit) room) := by
  induction room with
  | zero =>
    rw [Nat.zero_add, Encoding.writeBody, Encoding.writeBodyWith_limited, Recall.body,
      Recall.bodyWith_limited]
    -- there may be a level more for the first writer or none, which makes no difference here
    cases more with
    | zero | succ _ =>
      refine alike_bodyWith context (fun _ none => by cases none) fun reason there => ?_
      cases there
      exact ⟨rfl, rfl⟩
  | succ room ih =>
    rw [Nat.add_right_comm, Encoding.writeBody, Encoding.writeBody, Encoding.writeBodyWith_limited,
      Recall.body, Recall.body, Recall.bodyWith_limited]
    refine alike_bodyWith context (fun write' there => ?_) fun reason none => ?_
    · -- where the second writer has a level, the first one has the same and some more
      cases there
      exact ⟨_, _, _, rfl, rfl, rfl, ih⟩
    · cases none

/-- What was written with more room is read back with less, as far as that goes. -/
theorem restores_limited {context : Context} {exact : Prop} {input : List UInt8}
    (coherent : ∀ schema, context.schema = some schema → schema.IsCoherent)
    (small : input.length < 2 ^ 63) (limit more room : Nat) :
    Restores context exact input (Encoding.writeBody context (room + more))
      (Decoding.readBody (context.limited limit) input room)
      (Recall.body (context.limited limit) room) := by
  induction room with
  | zero =>
    rw [Nat.zero_add, Decoding.readBody, Decoding.readBodyWith_limited, Recall.body,
      Recall.bodyWith_limited]
    cases more with
    -- neither has a level left
    | zero => exact restores_bodyWith coherent small fun write none => by cases none
    | succ more =>
      -- only the writer has one: the reader refuses the container for its depth
      exact restores_bodyWith coherent small fun write _ => Or.inr ⟨_, rfl, rfl, rfl⟩
  | succ room ih =>
    rw [Nat.add_right_comm, Encoding.writeBody, Decoding.readBody, Decoding.readBodyWith_limited,
      Recall.body, Recall.bodyWith_limited]
    refine restores_bodyWith coherent small fun write there => Or.inl ⟨_, _, rfl, rfl, ?_⟩
    cases there
    exact ih

/-! ## Whole records -/

namespace Record

variable {context : Context} {record : Record} {bytes : List UInt8} {limit : Nat}

/-- Under a lower limit a record is written and recalled alike, or it is refused and nothing is
recalled of it. -/
theorem emission_limited (context : Context) (record : Record)
    (lower : limit ≤ context.options.maxDepth) :
    Alike (record.emission (context.limited limit) = record.emission context)
      (Encoder.Refuses (context.limited limit).tooDeep (record.emission context)
        (record.emission (context.limited limit)))
      (record.recalled context) (record.recalled (context.limited limit)) := by
  have alike := (alike_body context limit (context.options.maxDepth - limit) limit).record
    context record
  rw [Nat.add_sub_cancel' lower] at alike
  exact alike

/-- Under a lower limit the encoding is decoded to what is recalled then. -/
theorem readingInto_limited {exact : Prop} (formed : record.isWellFormed = true)
    (built : ∀ schema, context.schema = some schema → schema.IsBuilt)
    (named : record.IsNamed context) (run : record.encode context = .ok bytes)
    (small : bytes.length < 2 ^ 63) (lower : limit ≤ context.options.maxDepth)
    (exactly : exact → (record.recalled (context.limited limit) []).isSome = true) :
    Ends exact (context.limited limit).RefusesWith ⟨bytes.length, bytes.length⟩
      (fun _ => (record.recalled (context.limited limit) []).isSome = true)
      (readingInto (context.limited limit) bytes none Record.new Cursor.start) := by
  have coherent (schema : Snapshot) (known : context.schema = some schema) : schema.IsCoherent :=
    (built schema known).isCoherent
  have restores : Restores context exact bytes _ _ _ :=
    restores_limited coherent small limit (context.options.maxDepth - limit) limit
  rw [Nat.add_sub_cancel' lower] at restores
  have ends := ends_encode restores coherent formed named run small exactly
  rw [← Decoding.readRecordInto_limited context limit] at ends
  refine ends.mono rfl fun made fact => ?_
  obtain ⟨calls, -, recalled⟩ := fact
  exact Option.isSome_iff_exists.mpr ⟨_, recalled⟩

/-- A decoding under a lower limit has the same outcome, or it fails for that limit. -/
theorem follows_limited (context : Context) (input : List UInt8)
    (lower : limit ≤ context.options.maxDepth) :
    Follows (· = .codec (context.limited limit).tooDeep) (decodeFrom context input none)
      (decodeFrom (context.limited limit) input none) := by
  have lock : Lockstep (· = .codec (context.limited limit).tooDeep) _ _ input input :=
    .limited context limit input
  exact lock.decodeFrom lower (fun _ => rfl) none

/-- **The nesting limit is the same on both sides.**  Take a record whose encoding can be decoded
under some limit.  Under any other one, either it is encoded to the same bytes and these are decoded
to the same record; or the record and its bytes are both refused, for the level past the limit. -/
theorem encode_decode_limited (formed : record.isWellFormed = true)
    (built : ∀ schema, context.schema = some schema → schema.IsBuilt)
    (named : record.IsNamed context) (run : record.encode context = .ok bytes)
    (small : bytes.length < 2 ^ 63) {state : Binding}
    (decoded : decode context bytes none Record.new = .ok () state) (limit : Nat) :
    (record.encode (context.limited limit) = .ok bytes ∧
      decode (context.limited limit) bytes none Record.new = .ok () state) ∨
    (record.encode (context.limited limit) = .error (.nestingTooDeep (limit + 1) limit) ∧
      ∃ partial', decode (context.limited limit) bytes none Record.new
        = .error (.codec (.nestingTooDeep (limit + 1) limit)) partial') := by
  obtain ⟨calls, emitted⟩ := encode_eq_ok run
  rcases Nat.le_total limit context.options.maxDepth with lower | higher
  · have follows := (follows_limited context bytes lower).run ⟨Cursor.start, Record.new⟩
    cases record.emission_limited context lower with
    | same same recalled =>
      -- what is recalled is the same, so the bytes are decoded
      refine Or.inl ⟨?_, ?_⟩
      · rw [encode, same]
        exact run
      · obtain ⟨_, -, made⟩ := recalled_of_decode formed built named run small decoded
        have ends : Ends True _ _ _ _ :=
          readingInto_limited formed built named run small lower fun _ => by
            rw [recalled, made]
            rfl
        obtain ⟨made', read, -⟩ := ends.of_exact
        have again := (decodeFrom_ok_iff (context.limited limit) bytes none).mpr read
        rcases follows with same | ⟨_, _, failed, -⟩
        · exact same.trans decoded
        · cases again.symm.trans failed
    | refused refuses nothing =>
      refine Or.inr ⟨?_, ?_⟩
      · obtain ⟨reason, failed, why⟩ := refuses 0 []
        rw [why () (by rw [emitted])] at failed
        show (record.emission (context.limited limit) 0 []).result.map _ = _
        rw [failed]
        rfl
      · rcases follows with same | ⟨_, partial', failed, rfl⟩
        · -- if the bytes were decoded, something would be recalled
          have ends : Ends False _ _ _ _ :=
            readingInto_limited formed built named run small lower False.elim
          rw [(decodeFrom_ok_iff (context.limited limit) bytes none).mp (same.trans decoded),
            nothing []] at ends
          cases ends.2
        · exact ⟨partial', failed⟩
  · -- under the first limit, which is the lower one now, nothing is refused
    have follows := (follows_limited (context.limited limit) bytes higher).run
      ⟨Cursor.start, Record.new⟩
    refine Or.inl ⟨?_, ?_⟩
    · cases record.emission_limited (context.limited limit) higher with
      | same same recalled =>
        rw [encode, ← same]
        exact run
      | refused refuses nothing =>
        obtain ⟨reason, failed, -⟩ := refuses 0 []
        cases failed.symm.trans (congrArg (·.result) emitted)
    · rcases follows with same | ⟨_, _, failed, -⟩
      · exact same.symm.trans decoded
      · cases decoded.symm.trans failed

/-- A list in a record in a map takes three levels; the same record as the target of a link takes
none. -/
theorem encode_decode_limited_of_three_levels :
    let context : Context := { resolver := some fun _ _ => .ok ⟨3, 7⟩ }
    let inner : Record := ⟨none, RecordId.empty, [⟨"l", .embeddedList [.byte 1], none⟩], false⟩
    let record : Record := ⟨some "C", RecordId.empty,
      [⟨"m", .embeddedMap [("a", .embedded inner)], none⟩, ⟨"e", .embedded inner, some .link⟩], false⟩
    let bytes : List UInt8 := [1, 67, 1, 109, 0, 0, 0, 17, 12, 1, 101, 0, 0, 0, 39, 13, 0, 1, 7, 1, 97,
      0, 0, 0, 26, 9, 0, 1, 108, 0, 0, 0, 35, 10, 0, 1, 23, 17, 1, 3, 7]
    let made : Record := ⟨some "C", RecordId.empty,
      [⟨"m", .embeddedMap [("a", .embedded ⟨none, RecordId.empty,
          [⟨"l", .embeddedList [.byte 1], some .embeddedList⟩], true⟩)], some .embeddedMap⟩,
        ⟨"e", .link (.identity ⟨3, 7⟩), some .link⟩], false⟩
    record.encode context = .ok bytes ∧
      decode (context.limited 3) bytes none Record.new
        = .ok () ⟨⟨bytes.length, bytes.length⟩, made⟩ ∧
      record.encode (context.limited 2) = .error (.nestingTooDeep 3 2) ∧
      ∃ partial', decode (context.limited 2) bytes none Record.new
        = .error (.codec (.nestingTooDeep 3 2)) partial' := by
  intro context inner record bytes made
  have run : record.encode context = .ok bytes := eq_ok_of_toOption (by decide +kernel)
  have named : record.IsNamed context := by
    unfold IsNamed
    decide
  have built (schema : Snapshot) (known : context.schema = some schema) : schema.IsBuilt := by
    cases known
  have recalled : record.recalled context [] = some (made, [.record inner]) := by
    subst made record inner context
    rfl
  have decoded := decode_of_recalled rfl built named run (by decide) recalled
  have both := encode_decode_limited rfl built named run (by decide) decoded
  refine ⟨run, ?_, ?_⟩
  · rcases both 3 with ⟨-, deep⟩ | ⟨failed, -⟩
    · exact deep
    · have enough : (record.encode (context.limited 3)).toOption.isSome = true := by decide +kernel
      rw [failed] at enough
      cases enough
  · rcases both 2 with ⟨done, -⟩ | failed
    · have shallow : (record.encode (context.limited 2)).toOption.isSome = false := by decide +kernel
      rw [done] at shallow
      cases shallow
    · exact failed

end Record
end DocumentCodec
