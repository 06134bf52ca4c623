import DocumentCodec.Proofs.Projection
/-!
# Filling a record in several passes

The same bytes may be decoded into the same record more than once, each time with another
projection and at last with none.  A pass steps over what an earlier one bound, by the size of its
slot, and binds what it is asked for of the rest.  So the passes share out among themselves what a
single decoding of everything would have bound, and only its order is theirs.

A pass is compared with the full decoding into the record as it was in the beginning, in two steps:
the full decoding into the record as it is now binds what no earlier pass bound
(`refilled_fields`), and of that a projection selects what it asks for (`selected_fields`).
-/

namespace DocumentCodec

/-! ## What each pass takes

Each pass takes what it asks for of what is left, so all passes together take everything, if the
last one asks for all. -/

/-- The fields as the passes share them out: each takes those it asks for of what the passes before
it left. -/
def portions : (passes : List (Option (List String))) → (fields : List Field) → List (List Field)
  | [], _ => []
  | pass :: passes, fields =>
    fields.filter (Decoding.isWanted pass ·.name) ::
      portions passes (fields.filter (!Decoding.isWanted pass ·.name))

/-- With a last pass that asks for everything nothing is left over, and nothing is taken twice. -/
theorem flatten_portions_perm (projections : List (List String)) :
    ∀ fields : List Field,
      (portions (projections.map some ++ [none]) fields).flatten.Perm fields := by
  induction projections with
  | nil =>
    intro fields
    simp [portions, Decoding.isWanted]
  | cons wanted projections ih =>
    intro fields
    rw [List.map_cons, List.cons_append, portions, List.flatten_cons]
    have rest := ih (fields.filter (!Decoding.isWanted (some wanted) ·.name))
    exact (rest.append_left _).trans (List.filter_append_perm (Decoding.isWanted _ ·.name) fields)

namespace Decoding

variable {context : Context} {input : List UInt8} {inner : BodyReader}

/-! ## A walk into a record that was filled in part

Two walks over one header, into targets that hold different fields: the one whose target holds more
reads less. -/

/-- Without a projection the records on both sides may be anything. -/
theorem Abreast.onto {whole some : Cursor} {target chosen : Record}
    (abreast : Abreast input [] [] whole some target chosen) (target' chosen' : Record) :
    Abreast input [] [] whole some target' chosen' where
  place := abreast.place
  budget := abreast.budget
  within := abreast.within
  agree := by simp
  distinct := List.nodup_nil
  asked := by simp
  there := by simp

/-- What a walk over the header binds to a record that already has the fields `held` besides: the
rest, in the same order.  The induction is on the room for entries. -/
theorem refilled_fields {room : Nat} (paid : PaidReader context input room inner)
    (held : List String) :
    ∀ (entries last bound last₁ : Nat) (target made : Record) (here there : Cursor)
      (less bound₁ : Nat) (chosen : Record) (here₁ : Cursor),
    readFieldsInto context input inner none entries last bound target here
      = .ok (last₁, made) there →
    Abreast input [] [] here here₁ target chosen → less ≤ last →
    (∀ name, chosen.contains name = (target.contains name || held.contains name)) →
    ∃ less₁ filled there₁ added,
      readFieldsInto context input inner none entries less bound₁ chosen here₁
        = .ok (less₁, filled) there₁ ∧
      Grown target made added ∧
      Grown chosen filled (added.filter fun field => !held.contains field.name) ∧
      there₁.position ≤ there.position ∧ less₁ ≤ last₁ := by
  intro entries
  induction entries with
  | zero =>
    intro last bound last₁ target made here there less bound₁ chosen here₁ run
    cases run
  | succ entries ih =>
    intro last bound last₁ target made here there less bound₁ chosen here₁ run abreast nearer agree
    cases readFieldsInto_cases context input run with
    | ended read done =>
      cases done
      obtain ⟨there₁, read₁, abreast⟩ := abreast.read metered_heading read
      exact ⟨less, chosen, there₁, [], readFieldsInto_ended context input read₁, Grown.refl _,
        Grown.refl _, Nat.le_of_eq abreast.place, nearer⟩
    | known read known skip rest =>
      -- both step over it
      obtain ⟨headed₁, read₁, abreast⟩ := abreast.read metered_heading read
      obtain ⟨next₁, skip₁, abreast⟩ := abreast.read (Metered.skip _) skip
      rw [readFieldsInto_over context input read₁ (by simp [agree, known]) skip₁]
      exact ih _ _ _ _ _ _ _ _ _ _ _ rest abreast nearer agree
    | @fresh heading _ _ placed read fresh slot rest =>
      obtain ⟨headed₁, read₁, abreast⟩ := abreast.read metered_heading read
      by_cases before : heading.name ∈ held
      · -- the full walk binds it, here it is there already
        obtain ⟨next₁, skip₁, abreast⟩ := abreast.skip paid slot
        rw [readFieldsInto_over context input read₁ (by simp [agree, before]) skip₁]
        have agree : ∀ name, chosen.contains name
            = ((target.bind heading.name (Placed.valueOf placed) (placed.map (·.tag))).contains name
              || held.contains name) := by
          intro name
          rw [agree, Record.contains_bind]
          by_cases same : heading.name = name
          · simp [← same, before]
          · simp [same]
        obtain ⟨less₁, filled, there₁, added, run₁, grown, grown₁, behind, nearer₁⟩ :=
          ih _ _ _ _ _ _ _ _ _ _ _ rest (abreast.onto _ _)
            (Nat.le_trans nearer (Nat.le_max_left _ _)) agree
        refine ⟨less₁, filled, there₁, _, run₁, grown.bind, ?_, behind, nearer₁⟩
        rw [List.filter_cons_of_neg (by simp [before])]
        exact grown₁
      · -- both bind it
        obtain ⟨next₁, slot₁, abreast⟩ := abreast.read (metered_slot paid _) slot
        rw [readFieldsInto_binds context input read₁ (by simp [isWanted, agree, fresh, before]) slot₁]
        have agree : ∀ name,
            (chosen.bind heading.name (Placed.valueOf placed) (placed.map (·.tag))).contains name
            = ((target.bind heading.name (Placed.valueOf placed) (placed.map (·.tag))).contains name
              || held.contains name) := by
          intro name
          rw [Record.contains_bind, Record.contains_bind, agree, Bool.or_right_comm]
        have nearer : max less (Placed.endOf placed) ≤ max last (Placed.endOf placed) := by omega
        obtain ⟨less₁, filled, there₁, added, run₁, grown, grown₁, behind, nearer₁⟩ :=
          ih _ _ _ _ _ _ _ _ (bound₁ + 1) _ _ rest (abreast.onto _ _) nearer agree
        refine ⟨less₁, filled, there₁, _, run₁, grown.bind, ?_, behind, nearer₁⟩
        rw [List.filter_cons_of_pos (by simp [before])]
        exact grown₁.bind

/-- Any pass over the header: what it binds is what it is asked for and does not have yet. -/
theorem passed_fields {room : Nat} (paid : PaidReader context input room inner)
    {held : List String} {entries last : Nat} {target made chosen : Record} {start ended : Cursor}
    (walk : readFieldsInto context input inner none entries 0 0 target start
      = .ok (last, made) ended)
    (within : start.visited ≤ input.length)
    (agree : ∀ name, chosen.contains name = (target.contains name || held.contains name))
    (projection : Option (List String)) :
    ∃ less picked ended₁ added,
      readFieldsInto context input inner projection entries 0 0 chosen start
        = .ok (less, picked) ended₁ ∧
      Grown target made added ∧
      Grown chosen picked
        ((added.filter (!held.contains ·.name)).filter (isWanted projection ·.name)) ∧
      ended₁.position ≤ ended.position ∧ less ≤ last := by
  -- first the whole header once more over the fields that were chosen, which leaves out what they
  -- hold
  have abreast : Abreast input [] [] start start target chosen :=
    ⟨rfl, Nat.le_refl _, within, by simp, List.nodup_nil, by simp, by simp⟩
  obtain ⟨less, filled, ended₁, added, walk₁, grown, grown₁, behind, nearer⟩ :=
    refilled_fields paid held _ _ _ _ _ _ _ _ 0 0 _ _ walk abreast (Nat.le_refl 0) agree
  cases projection with
  | none => exact ⟨less, filled, ended₁, added, walk₁, grown, by simpa [isWanted] using grown₁,
      behind, nearer⟩
  | some wanted =>
    -- and then only what is asked for of that
    have abreast : Abreast input wanted [] start start chosen chosen :=
      ⟨rfl, Nat.le_refl _, within, by simp, List.nodup_nil, by simp, by simp⟩
    obtain ⟨less₂, picked, ended₂, added₁, walk₂, grown₂, grown₃, behind₂, nearer₂⟩ :=
      selected_fields paid wanted _ _ _ _ _ _ _ _ _ [] _ _ walk₁ abreast (Nat.le_refl 0)
    -- both walks started from the same fields, so what they added is the same
    have same : added₁ = added.filter fun field => !held.contains field.name := by
      have twice := grown₁.symm.trans grown₂
      simpa using (congrArg Record.fields twice).symm
    subst same
    exact ⟨less₂, picked, ended₂, added, walk₂, grown, grown₃, by omega, by omega⟩

/-- A walk over a header keeps the names distinct. -/
theorem walk_distinct : ∀ (entries last bound last₁ : Nat) (target made : Record)
    (here there : Cursor),
    readFieldsInto context input inner none entries last bound target here
      = .ok (last₁, made) there →
    target.fieldNames.Nodup → made.fieldNames.Nodup := by
  intro entries
  induction entries with
  | zero =>
    intro last bound last₁ target made here there run
    cases run
  | succ entries ih =>
    intro last bound last₁ target made here there run distinct
    cases readFieldsInto_cases context input run with
    | ended _ done =>
      cases done
      exact distinct
    | known _ _ _ rest => exact ih _ _ _ _ _ _ _ rest distinct
    | fresh _ fresh _ rest =>
      -- only a name that is not there is bound
      exact ih _ _ _ _ _ _ _ rest (Record.nodup_append target _ _ _ distinct fresh)

end Decoding

/-! ## One pass

A pass is the walk over what is left, and then the projection of that. -/

/-- The class name that is read for a record does not depend on its fields. -/
theorem Binder.named_with_fields (className : String) (record : Record) (fields : List Field) :
    named className { record with fields := fields }
      = { named className record with fields := fields } := by
  unfold named
  split <;> rfl

theorem Binder.named_named (className : String) (record : Record) :
    named className (named className record) = named className record := by
  unfold named
  split <;> rfl

namespace Record

/-- The record between two passes: its head is that of the target or the one that decoding gives it,
and it has the fields of the target and those of the names `held`. -/
structure Partly (target full : Record) (held : List String) (partly : Record) : Prop where
  head : partly = { target with fields := partly.fields } ∨
    partly = { full with fields := partly.fields }
  names : ∀ name, partly.contains name = (target.contains name || held.contains name)

variable {context : Context} {input : List UInt8} {target : Record} {here : Cursor}
  {full : Binding}

open Decoding in
/-- **What one pass does** where decoding everything into the target goes through: it goes through
on whatever was filled in part, and adds what it asks for and is not there yet. -/
theorem decodeFrom_partly
    (whole : decodeFrom context input none ⟨here, target⟩ = .ok () full) :
    ∃ added, full.target.fields = target.fields ++ added ∧
      (target.fieldNames.Nodup → full.target.fieldNames.Nodup) ∧
      ∀ held partly projection, Partly target full.target held partly →
        ∃ passed, decodeFrom context input projection ⟨here, partly⟩ = .ok () passed ∧
          passed.target = { full.target with
            fields := partly.fields
              ++ (added.filter (!held.contains ·.name)).filter (isWanted projection ·.name) } := by
  obtain ⟨there, made⟩ := full
  have run := (decodeFrom_ok_iff context input none).mp whole
  rw [readingInto, readRecordInto] at run
  obtain ⟨className, start, name, run⟩ := run_bind_eq_ok.mp run
  obtain ⟨⟨last, walked⟩, ended, walk, run⟩ := run_bind_eq_ok.mp run
  obtain ⟨_, there', finished, same⟩ := run_bind_eq_ok.mp run
  cases same
  obtain ⟨-, -, -, within, -⟩ := Metered.string.ok name
  obtain ⟨⟨-, inside⟩, -, added, grown, -⟩ := walk_fields _ _ _ _ _ _ _ _ walk
  refine ⟨added, ?_, fun distinct => ?_, ?_⟩
  · have fields := congrArg Record.fields grown
    rwa [Binder.named_fields] at fields
  · refine walk_distinct _ _ _ _ _ _ _ _ walk ?_
    rwa [fieldNames, Binder.named_fields]
  · intro held partly projection state
    have agree : ∀ name, (Binder.named className partly).contains name
        = ((Binder.named className target).contains name || held.contains name) := by
      simpa only [contains, Binder.named_fields] using state.names
    obtain ⟨less, picked, ended₁, added₁, walk₁, grown₁, grown₂, behind, nearer⟩ :=
      passed_fields (paid_body context input context.options.maxDepth) walk
        (within (Nat.zero_le _)) agree projection
    obtain rfl : added = added₁ := by
      simpa using congrArg Record.fields (grown.symm.trans grown₁)
    obtain ⟨back, finished₁, -⟩ :=
      finish_behind finished (inside (Cursor.inside_string name)) behind nearer
    refine ⟨⟨back, picked⟩, ?_, ?_⟩
    · refine (decodeFrom_ok_iff context input projection).mpr ?_
      rw [readingInto, readRecordInto, run_bind_of_ok name, run_bind_of_ok walk₁]
      dsimp only
      rw [run_bind_of_ok finished₁]
      rfl
    · -- reading the class name again gives the head that the full decoding gave
      rw [Grown] at grown
      have again : Binder.named className made = made := by
        rw [grown, Binder.named_with_fields, Binder.named_named]
      have head : Binder.named className partly = { made with fields := partly.fields } := by
        rcases state.head with same | same
        · rw [same, Binder.named_with_fields, grown]
        · rw [same, Binder.named_with_fields]
          show { Binder.named className made with fields := partly.fields } = _
          rw [again]
      show picked = _
      rw [grown₂, head]

end Record

/-! ## Pass after pass

What is left over for the next pass is what neither this one nor one before it has bound. -/

/-- A pass adds the names of the fields that it binds. -/
theorem Record.Partly.add {target full partly : Record} {held : List String}
    (state : Partly target full held partly) (bound : List Field) :
    Partly target full (held ++ bound.map (·.name))
      { full with fields := partly.fields ++ bound } where
  head := Or.inr rfl
  names name := by
    have before := state.names name
    simp only [contains] at before ⊢
    rw [List.any_append, before, Bool.or_assoc]
    congr 1
    rw [Bool.eq_iff_iff]
    simp

/-- Decodes the same bytes once for each of the passes, always from the same place, into the record
that the pass before left. -/
def Record.decodeInTurn (context : Context) (input : List UInt8) (here : Cursor) :
    (passes : List (Option (List String))) → Binder Unit
  | [] => pure ()
  | pass :: passes => do
    modify fun binding => { binding with cursor := here }
    decodeFrom context input pass
    decodeInTurn context input here passes

namespace Record

variable {context : Context} {input : List UInt8} {target : Record} {here : Cursor}
  {full : Binding}

/-- The passes after the first one begin with what it left, from the same place in the input. -/
theorem decodeInTurn_cons {pass : Option (List String)} {passes : List (Option (List String))}
    {there : Cursor} {passed : Binding}
    (run : decodeFrom context input pass ⟨here, target⟩ = .ok () passed) :
    decodeInTurn context input here (pass :: passes) ⟨there, target⟩
      = decodeInTurn context input here passes passed := by
  show (decodeFrom context input pass >>= fun _ => decodeInTurn context input here passes)
    ⟨here, target⟩ = _
  exact run_bind_of_ok run

/-- What is left over for the passes to come is what this one was left and did not ask for. -/
theorem filter_left_over (added : List Field) (held : List String)
    (projection : Option (List String)) :
    let left := added.filter (!held.contains ·.name)
    let bound := left.filter (Decoding.isWanted projection ·.name)
    added.filter (!(held ++ bound.map (·.name)).contains ·.name)
      = left.filter (!Decoding.isWanted projection ·.name) := by
  intro left bound
  rw [List.filter_filter]
  refine List.filter_congr fun field there => ?_
  -- a field is left over if it was not held before and was not asked for now
  by_cases before : field.name ∈ held
  · simp [before]
  · have inside : field ∈ left := by simp [left, there, before]
    by_cases asked : Decoding.isWanted projection field.name = true
    · have now : field ∈ bound := List.mem_filter.mpr ⟨inside, asked⟩
      have named : field.name ∈ bound.map (·.name) := List.mem_map_of_mem now
      simp [before, asked, named]
    · have never : field.name ∉ bound.map (·.name) := by
        rintro known
        obtain ⟨other, picked, same⟩ := List.mem_map.mp known
        exact asked (same ▸ (List.mem_filter.mp picked).2)
      simp [before, asked, never]

/-- The passes that are left take their portions of what is left over.  The induction is on the
passes; `Partly` is the invariant of the record between them. -/
theorem decodeInTurn_partly {added : List Field}
    (pass : ∀ held partly projection, Partly target full.target held partly →
      ∃ passed, decodeFrom context input projection ⟨here, partly⟩ = .ok () passed ∧
        passed.target = { full.target with
          fields := partly.fields ++ (added.filter (!held.contains ·.name)).filter
            (Decoding.isWanted projection ·.name) })
    (passes : List (Option (List String))) :
    ∀ (held : List String) (partly : Record) (there : Cursor),
      Partly target full.target held partly →
      ∃ filled, decodeInTurn context input here passes ⟨there, partly⟩ = .ok () filled ∧
        (passes ≠ [] → filled.target = { full.target with fields := filled.target.fields }) ∧
        filled.target.fields = partly.fields
          ++ (portions passes (added.filter (!held.contains ·.name))).flatten := by
  induction passes with
  | nil =>
    intro held partly there state
    exact ⟨⟨there, partly⟩, rfl, fun some => absurd rfl some, by simp [portions]⟩
  | cons projection passes ih =>
    intro held partly there state
    obtain ⟨passed, run, same⟩ := pass held partly projection state
    obtain ⟨cursor, record⟩ := passed
    dsimp only at same
    subst same
    obtain ⟨filled, rest, head, fields⟩ := ih _ _ cursor (state.add _)
    refine ⟨filled, (decodeInTurn_cons run).trans rest, fun _ => ?_, ?_⟩
    · -- after the last pass the head is the one it left
      by_cases last : passes = []
      · subst last
        cases rest
        rfl
      · exact head last
    · rw [fields, filter_left_over, portions, List.flatten_cons, List.append_assoc]

/-- **Filling a record in several passes gives the same record.**  Whatever the input, the context,
the place to begin at and the target, so long as the names in it are distinct and decoding
everything into it goes through: any number of passes over the same bytes goes through, each adding,
in the order of the header, what it asks for of the fields that the passes before it left.  Once a
last pass has asked for everything, the record has the class name and all else that the one decoding
gives it, and the same fields: the added ones in another order, no name twice, and under each name
the same value and the same pinned type. -/
theorem decodeInTurn_fills (context : Context) (input : List UInt8) (target : Record)
    (here : Cursor) (full : Binding) (distinct : target.fieldNames.Nodup)
    (whole : decodeFrom context input none ⟨here, target⟩ = .ok () full) :
    ∃ added, full.target.fields = target.fields ++ added ∧
      (∀ passes, ∃ filled,
        decodeInTurn context input here passes ⟨here, target⟩ = .ok () filled ∧
        filled.target.fields = target.fields ++ (portions passes added).flatten) ∧
      ∀ projections : List (List String), ∃ filled,
        decodeInTurn context input here (projections.map some ++ [none]) ⟨here, target⟩
          = .ok () filled ∧
        filled.target = { full.target with
          fields := target.fields ++ (portions (projections.map some ++ [none]) added).flatten } ∧
        filled.target.fields.Perm full.target.fields ∧
        filled.target.fieldNames.Nodup ∧
        ∀ name, filled.target.entry? name = full.target.entry? name := by
  obtain ⟨added, grown, unique, pass⟩ := decodeFrom_partly whole
  have start : Partly target full.target [] target := ⟨Or.inl (by cases target; rfl), by simp⟩
  have passes := fun passes => decodeInTurn_partly pass passes [] target here start
  -- at first nothing is held, so everything is still to be added
  have everything : added.filter (!([] : List String).contains ·.name) = added := by
    simp
  rw [everything] at passes
  refine ⟨added, grown, fun each => ?_, fun projections => ?_⟩
  · obtain ⟨filled, run, -, fields⟩ := passes each
    exact ⟨filled, run, fields⟩
  · obtain ⟨filled, run, head, fields⟩ := passes (projections.map some ++ [none])
    -- the portions of passes that end with everything are all there was, in another order
    have perm : filled.target.fields.Perm full.target.fields := by
      rw [fields, grown]
      exact (flatten_portions_perm projections added).append_left _
    have names : filled.target.fieldNames.Nodup :=
      (perm.map Field.name).nodup_iff.mpr (unique distinct)
    refine ⟨filled, run, ?_, perm, names, fun name => ?_⟩
    · rw [← fields]
      exact head (by simp)
    · apply Option.ext
      intro field
      rw [entry?_eq_some_iff names, entry?_eq_some_iff (unique distinct), perm.mem_iff]

/-- A record with a field `z` is given `b` first, which is asked for twice, and `a` at the end. -/
theorem decodeInTurn_fills_two :
    let input : List UInt8 := [0, 1, 97, 0, 0, 0, 16, 17, 1, 98, 0, 0, 0, 17, 17, 0, 5, 6]
    let target : Record := ⟨none, RecordId.empty, [⟨"z", .null, none⟩], false⟩
    let a : Field := ⟨"a", .byte 5, some .byte⟩
    let b : Field := ⟨"b", .byte 6, some .byte⟩
    let full : Binding := ⟨⟨18, 18⟩, ⟨none, RecordId.empty, target.fields ++ [a, b], false⟩⟩
    target.fieldNames.Nodup ∧
      decodeFrom {} input none ⟨Cursor.start, target⟩ = .ok () full ∧
      ∃ filled, decodeInTurn {} input Cursor.start [some ["b"], some ["c", "b"], none]
          ⟨Cursor.start, target⟩ = .ok () filled ∧
        filled.target.fields = target.fields ++ [b, a] ∧
        ∀ name, filled.target.entry? name = full.target.entry? name := by
  intro input target a b full
  have distinct : target.fieldNames.Nodup := by decide
  have whole : decodeFrom {} input none ⟨Cursor.start, target⟩ = .ok () full := by
    subst full target input
    rfl
  obtain ⟨added, grown, -, fills⟩ :=
    decodeInTurn_fills {} input target Cursor.start full distinct whole
  obtain rfl : [a, b] = added := List.append_cancel_left grown
  obtain ⟨filled, run, same, -, -, found⟩ := fills [["b"], ["c", "b"]]
  exact ⟨distinct, whole, filled, run, congrArg Record.fields same, found⟩

end Record
end DocumentCodec
