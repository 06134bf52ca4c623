import DocumentCodec.Proofs.Bounded
import Mathlib.Data.List.Perm.Subperm
/-!
# Selective decoding

Decoding with a projection binds what decoding without one binds, less the fields that were not
asked for.  The two walks over a header go side by side: at every entry they stand at the same
place, and the one that reads fewer bodies has at least as much of its budget left, so whatever the
other reads it can read too.

The walk with a projection stops as soon as it bound as many fields as names were asked for.  The
names that it bound are all different and all asked for, so by then none is left.
-/

namespace DocumentCodec

/-! ## Readings that go forward

The readings between two entries never jump, so the cursor only goes on, and never beyond the end of
the input. -/

/-- The reading leaves the cursor at or behind its place, and inside the input. -/
structure Forward {α : Type} (input : List UInt8) (read : Decoder α) : Prop where
  run : ∀ {here there a}, read here = .ok a there →
    here.position ≤ there.position ∧
    (here.position ≤ input.length → there.position ≤ input.length)

namespace Forward

variable {α β : Type} {input : List UInt8}

theorem pure {a : α} : Forward input (Pure.pure a : Decoder α) where
  run same := by
    cases same
    exact ⟨Nat.le_refl _, id⟩

theorem throw {e : Failure} : Forward input (MonadExcept.throw e : Decoder α) where
  run same := by cases same

theorem malformed {offset : Nat} {reason : Malformation} :
    Forward input (Decoder.malformed offset reason : Decoder α) := throw

/-- Two readings that go forward are one that does. -/
theorem bind {read : Decoder α} {f : α → Decoder β} (first : Forward input read)
    (second : ∀ a, Forward input (f a)) : Forward input (read >>= f) where
  run := by
    intro here there b same
    obtain ⟨a, mid, run₁, run₂⟩ := run_bind_eq_ok.mp same
    obtain ⟨on, kept⟩ := first.run run₁
    obtain ⟨on', kept'⟩ := (second a).run run₂
    exact ⟨Nat.le_trans on on', fun inside => kept' (kept inside)⟩

/-- A reading that depends on where it stands goes forward if it does from everywhere. -/
theorem offset_bind {f : Nat → Decoder β} (second : ∀ here, Forward input (f here)) :
    Forward input (Cursor.offset >>= f) where
  run := by
    intro here there b same
    rw [run_bind_of_ok (Cursor.run_offset here)] at same
    exact (second here.position).run same

/-- To take bytes goes as far forward as there are bytes taken, and only where they are. -/
theorem take (count : Nat) : Forward input (Cursor.take input count) where
  run := by
    intro here there bytes same
    obtain ⟨left, -, -, rfl⟩ := Cursor.of_take_ok input same
    exact ⟨Nat.le_add_right _ _, fun _ => left⟩

theorem skip (count : Nat) : Forward input (Cursor.skip input count) :=
  (take count).bind fun _ => pure

/-- A varint goes forward by its own bytes. -/
theorem varint : Forward input (Cursor.varint input) := by
  rw [Cursor.varint_eq]
  refine offset_bind fun start => ?_
  cases Varint.decode (input.drop start) with
  | error cause => exact malformed
  | ok word => exact (skip word.2).bind fun _ => pure

/-- So does a number that has to fit into 32 bits. -/
theorem varint32 : Forward input (Cursor.varint32 input) := by
  refine offset_bind fun start => (varint.bind fun _ => pure).bind fun v => ?_
  split
  · exact pure
  · exact malformed

end Forward

/-- What ends with bytes that were taken ends inside the input. -/
theorem Cursor.inside_string {input : List UInt8} {here there : Cursor} {text : String}
    (run : Cursor.string input here = .ok text there) : there.position ≤ input.length := by
  rw [Cursor.string, run_bind_of_ok (Cursor.run_offset here)] at run
  obtain ⟨bytes, taken, binary, run⟩ := run_bind_eq_ok.mp run
  obtain ⟨count, counted, -, take⟩ := run_bind_eq_ok.mp binary
  -- the bytes of the text were taken from the input
  obtain ⟨left, -, -, rfl⟩ := Cursor.of_take_ok input take
  cases spelled : Utf8.decode bytes with
  | error cause =>
    rw [spelled] at run
    cases run
  | ok made =>
    rw [spelled] at run
    cases run
    exact left

namespace Decoding

variable {context : Context} {input : List UInt8} {inner : BodyReader}

/-- The heading of a field is read without a jump. -/
theorem forward_heading : Forward input (readHeading context input) := by
  refine Forward.offset_bind fun start => Forward.varint32.bind fun lead => ?_
  dsimp only
  split
  · exact Forward.pure
  · split
    · refine (Forward.take _).bind fun bytes => ?_
      cases Utf8.decode bytes with
      | error cause => exact Forward.malformed
      | ok name => exact Forward.pure
    · cases property? context (Int32.ofInt (-lead.toInt - 1)) with
      | none => exact Forward.throw
      | some property => exact Forward.pure

/-! ## Slots

A slot is as long whether its body is read or not: after a body the cursor is back behind the slot.
-/

/-- The cursor is put back where the jump began. -/
theorem position_at {tag : TypeTag} {target : Nat} {here there : Cursor} {placed : Placed}
    (run : readAt input inner tag target here = .ok placed there) :
    there.position = here.position := by
  rw [readAt, run_bind_of_ok (Cursor.run_offset here)] at run
  obtain ⟨_, jumped, -, run⟩ := run_bind_eq_ok.mp run
  obtain ⟨value, ended, -, run⟩ := run_bind_eq_ok.mp run
  rw [run_bind_of_ok (Cursor.run_offset ended)] at run
  obtain ⟨_, back, seek, run⟩ := run_bind_eq_ok.mp run
  obtain ⟨-, rfl⟩ := Cursor.of_seek_ok input seek
  cases run
  rfl

/-- Behind the pointer there is a tag just if none is pinned, so the reader has passed over a slot
of the size that a reader who skips it expects. -/
theorem position_slotTag {pinned : Option TypeTag} {here there : Cursor} {tag : TypeTag}
    (run : readSlotTag input pinned here = .ok tag there) (inside : here.position ≤ input.length) :
    4 + there.position = here.position + Slot.size pinned.isSome ∧
    there.position ≤ input.length := by
  cases pinned with
  | some tag =>
    cases run
    exact ⟨Nat.add_comm _ _, inside⟩
  | none =>
    rw [readSlotTag, Cursor.tag, run_bind_of_ok (Cursor.run_offset here)] at run
    obtain ⟨number, next, byte, run⟩ := run_bind_eq_ok.mp run
    obtain ⟨bytes, taken, take, same⟩ := run_bind_eq_ok.mp byte
    obtain ⟨left, -, -, rfl⟩ := Cursor.of_take_ok input take
    cases same
    -- a byte is taken, and it has to be a tag's
    cases known : TypeTag.ofId? (bytes.headD 0) with
    | none =>
      rw [known] at run
      cases run
    | some tag =>
      rw [known] at run
      cases run
      refine ⟨?_, left⟩
      show 4 + (here.position + 1) = here.position + 5
      omega

/-- Whatever body it points at, a slot is left right behind its own bytes. -/
theorem position_slot {pinned : Option TypeTag} {here there : Cursor} {placed : Option Placed}
    (run : readSlot input inner pinned here = .ok placed there) :
    there.position = here.position + Slot.size pinned.isSome ∧
    there.position ≤ input.length := by
  rw [readSlot, run_bind_of_ok (Cursor.run_offset here)] at run
  obtain ⟨word, next, pointer, run⟩ := run_bind_eq_ok.mp run
  obtain ⟨bytes, taken, take, same⟩ := run_bind_eq_ok.mp pointer
  obtain ⟨left, -, -, rfl⟩ := Cursor.of_take_ok input take
  cases same
  obtain ⟨tag, tagged, readTag, run⟩ := run_bind_eq_ok.mp run
  obtain ⟨place, inside⟩ := position_slotTag readTag left
  have place : tagged.position = here.position + Slot.size pinned.isSome := by
    have there : 4 + tagged.position = here.position + 4 + Slot.size pinned.isSome := place
    omega
  split at run
  · cases run
    exact ⟨place, inside⟩
  · split at run
    · cases run
    · -- the reader of a body comes back to where it jumped from
      obtain ⟨body, back, jump, same⟩ := run_bind_eq_ok.mp run
      cases same
      rw [position_at jump]
      exact ⟨place, inside⟩

/-! ## One walk

Without a projection the walk binds every field whose name is not there yet, and the cursor only
goes on. -/

/-- A walk over a header goes forward, its furthest end too, and what it adds was not there. -/
theorem walk_fields :
    ∀ (entries last bound last' : Nat) (target made : Record) (here there : Cursor),
    readFieldsInto context input inner none entries last bound target here
      = .ok (last', made) there →
    (here.position ≤ there.position ∧
      (here.position ≤ input.length → there.position ≤ input.length)) ∧ last ≤ last' ∧
    ∃ added, Grown target made added ∧ ∀ field ∈ added, target.contains field.name = false := by
  intro entries
  induction entries with
  | zero =>
    -- the walk that may read no entry fails
    intro last bound last' target made here there run
    cases run
  | succ entries ih =>
    intro last bound last' target made here there run
    cases readFieldsInto_cases context input run with
    | ended read done =>
      cases done
      exact ⟨forward_heading.run read, Nat.le_refl _, [], Grown.refl _,
        fun field none => by cases none⟩
    | known read _ skip rest =>
      -- a field that is bound already: its slot is stepped over
      obtain ⟨on, kept⟩ := forward_heading.run read
      obtain ⟨on', kept'⟩ := (Forward.skip _).run skip
      obtain ⟨⟨on'', kept''⟩, far, later⟩ := ih _ _ _ _ _ _ _ rest
      exact ⟨⟨by omega, fun inside => kept'' (kept' (kept inside))⟩, far, later⟩
    | fresh read absent slot rest =>
      -- a field that is read: wherever its body lies, the walk goes on behind its slot
      obtain ⟨on, -⟩ := forward_heading.run read
      obtain ⟨place, inside⟩ := position_slot slot
      obtain ⟨⟨on'', kept''⟩, far, added, grown, new⟩ := ih _ _ _ _ _ _ _ rest
      refine ⟨⟨by omega, fun _ => kept'' inside⟩, Nat.le_trans (Nat.le_max_left _ _) far,
        _, grown.bind, ?_⟩
      intro field there
      rcases List.mem_cons.mp there with rfl | later
      · exact absent
      · have both := new field later
        rw [Record.contains_bind, Bool.or_eq_false_iff] at both
        exact both.1

/-- The cursor ends at the furthest end of a body or where it was, whichever is further on; so a
walk that ended no later and reached no further ends no later here. -/
theorem finish_behind {last less : Nat} {here there here' : Cursor}
    (run : finish input last here = .ok () there) (inside : here.position ≤ input.length)
    (behind : here'.position ≤ here.position) (nearer : less ≤ last) :
    ∃ there', finish input less here' = .ok () there' ∧ there'.position ≤ there.position := by
  rw [finish, run_bind_of_ok (Cursor.run_offset here)] at run
  -- wherever the full walk ends, the furthest body of the other one lies no further
  have ends : less ≤ there.position ∧ there.position ≤ input.length ∧
      here.position ≤ there.position := by
    split at run
    · next short =>
      obtain ⟨reached, rfl⟩ := Cursor.of_seek_ok input run
      exact ⟨nearer, reached, Nat.le_of_lt short⟩
    · cases run
      exact ⟨by omega, inside, Nat.le_refl _⟩
  rw [finish, run_bind_of_ok (Cursor.run_offset here')]
  split
  · exact ⟨_, Cursor.run_seek input (by omega), ends.1⟩
  · exact ⟨here', rfl, by omega⟩

/-! ## Two walks side by side

The induction is on the entries of the walk without a projection.  At each of them the other walk
reads the same heading, and then reads the body too, steps over the slot, or has stopped before. -/

/-- What ties the walk with a projection to the walk without one between two entries: it stands
at the same place with at least as much of the budget left, the fields that were asked for are
there in both records or in neither, and `taken`, the names that it bound, are among them. -/
structure Abreast (input : List UInt8) (wanted taken : List String) (whole some : Cursor)
    (target chosen : Record) : Prop where
  place : some.position = whole.position
  budget : some.visited ≤ whole.visited
  within : whole.visited ≤ input.length
  agree : ∀ name ∈ wanted, chosen.contains name = target.contains name
  distinct : taken.Nodup
  asked : ∀ name ∈ taken, name ∈ wanted
  there : ∀ name ∈ taken, target.contains name = true

namespace Abreast

variable {wanted taken : List String} {whole some : Cursor} {target chosen : Record}

/-- What the full walk reads the other one can read too, and gets the same. -/
theorem read {α : Type} {read : Decoder α} {post : Nat → α → Prop} {a : α} {whole' : Cursor}
    (abreast : Abreast input wanted taken whole some target chosen)
    (metered : Metered input read post) (run : read whole = .ok a whole') :
    ∃ some', read some = .ok a some' ∧ Abreast input wanted taken whole' some' target chosen := by
  obtain ⟨spent, price, -, kept, again⟩ := metered.ok run
  have start : some = ⟨whole.position, some.visited⟩ := by rw [← abreast.place]
  refine ⟨⟨whole'.position, some.visited + spent⟩, ?_, ?_⟩
  · rw [start]
    exact again some.visited abreast.budget
  · refine { abreast with place := rfl, budget := ?_, within := kept abreast.within }
    rw [price]
    exact Nat.add_le_add_right abreast.budget spent

/-- Where the full walk reads a slot the other one can step over it. -/
theorem skip {room : Nat} {pinned : Option TypeTag} {placed : Option Placed} {whole' : Cursor}
    (abreast : Abreast input wanted taken whole some target chosen)
    (paid : PaidReader context input room inner)
    (run : readSlot input inner pinned whole = .ok placed whole') :
    ∃ some', Cursor.skip input (Slot.size pinned.isSome) some = .ok () some' ∧
      Abreast input wanted taken whole' some' target chosen := by
  -- reading the slot cost its own bytes at least, which is what stepping over it costs
  obtain ⟨spent, price, ⟨cost, -⟩, kept, -⟩ := (metered_slot paid pinned).ok run
  obtain ⟨place, inside⟩ := position_slot run
  have within := kept abreast.within
  have before := abreast.place
  have budget := abreast.budget
  refine ⟨⟨some.position + Slot.size pinned.isSome, some.visited + Slot.size pinned.isSome⟩, ?_, ?_⟩
  · exact Cursor.run_skip input (by omega) (by omega)
  · refine { abreast with place := ?_, budget := ?_, within := within }
    · show some.position + Slot.size pinned.isSome = whole'.position
      omega
    · show some.visited + Slot.size pinned.isSome ≤ whole'.visited
      omega

/-- The full walk binds a field that was not asked for. -/
theorem leave (abreast : Abreast input wanted taken whole some target chosen) {name : String}
    (value : Value) (pinned : Option TypeTag) (unwanted : name ∉ wanted) :
    Abreast input wanted taken whole some (target.bind name value pinned) chosen where
  place := abreast.place
  budget := abreast.budget
  within := abreast.within
  agree other asked := by
    have differs : name ≠ other := fun same => unwanted (same ▸ asked)
    rw [Record.contains_bind, decide_eq_false differs, Bool.or_false]
    exact abreast.agree other asked
  distinct := abreast.distinct
  asked := abreast.asked
  there other known := by rw [Record.contains_bind, abreast.there other known, Bool.true_or]

/-- Both walks bind a field that was asked for and not there yet. -/
theorem both (abreast : Abreast input wanted taken whole some target chosen) {name : String}
    (value : Value) (pinned : Option TypeTag) (asked : name ∈ wanted)
    (fresh : target.contains name = false) :
    Abreast input wanted (name :: taken) whole some (target.bind name value pinned)
      (chosen.bind name value pinned) where
  place := abreast.place
  budget := abreast.budget
  within := abreast.within
  agree other wants := by
    rw [Record.contains_bind, Record.contains_bind, abreast.agree other wants]
  distinct := by
    -- a name taken before is bound, and this one was not
    refine List.nodup_cons.mpr ⟨fun known => ?_, abreast.distinct⟩
    rw [abreast.there name known] at fresh
    cases fresh
  asked other known := by
    rcases List.mem_cons.mp known with rfl | before
    · exact asked
    · exact abreast.asked other before
  there other known := by
    rw [Record.contains_bind]
    rcases List.mem_cons.mp known with rfl | before
    · rw [decide_eq_true rfl, Bool.or_true]
    · rw [abreast.there other before, Bool.true_or]

/-- As many different names as were asked for are all that were asked for. -/
theorem nothing_left (abreast : Abreast input wanted taken whole some target chosen)
    (enough : wanted.length ≤ taken.length) : ∀ name ∈ wanted, target.contains name = true := by
  intro name wants
  have sub : taken.Subperm wanted := abreast.distinct.subperm abreast.asked
  have perm : taken.Perm wanted := sub.perm_of_length_le enough
  exact abreast.there name (perm.mem_iff.mpr wants)

end Abreast

theorem isWanted_eq_true {wanted : List String} {name : String} (asked : name ∈ wanted) :
    isWanted (some wanted) name = true :=
  List.contains_iff_mem.mpr asked

theorem isWanted_eq_false {wanted : List String} {name : String} (unwanted : name ∉ wanted) :
    isWanted (some wanted) name = false :=
  Bool.eq_false_iff.mpr fun found => unwanted (List.contains_iff_mem.mp found)

/-- **What the walk with a projection does when the one without succeeds.**  The induction is on
the room for entries, which both walks use up alike; `Abreast` is the invariant. -/
theorem selected_fields {room : Nat} (paid : PaidReader context input room inner)
    (wanted : List String) :
    ∀ (entries last bound last₁ : Nat) (target made : Record) (here there : Cursor)
      (less : Nat) (taken : List String) (chosen : Record) (here₁ : Cursor),
    readFieldsInto context input inner none entries last bound target here
      = .ok (last₁, made) there →
    Abreast input wanted taken here here₁ target chosen → less ≤ last →
    ∃ less₁ picked there₁ added,
      readFieldsInto context input inner (some wanted) entries less taken.length chosen here₁
        = .ok (less₁, picked) there₁ ∧
      Grown target made added ∧
      Grown chosen picked (added.filter fun field => wanted.contains field.name) ∧
      there₁.position ≤ there.position ∧ less₁ ≤ last₁ := by
  intro entries
  induction entries with
  | zero =>
    intro last bound last₁ target made here there less taken chosen here₁ run
    cases run
  | succ entries ih =>
    intro last bound last₁ target made here there less taken chosen here₁ run abreast nearer
    cases readFieldsInto_cases context input run with
    | ended read done =>
      cases done
      obtain ⟨there₁, read₁, abreast⟩ := abreast.read metered_heading read
      exact ⟨less, chosen, there₁, [], readFieldsInto_ended context input read₁, Grown.refl _,
        Grown.refl _, Nat.le_of_eq abreast.place, nearer⟩
    | @known heading _ _ read known skip rest =>
      -- both step over it: asked for, it is there on the other side too
      have skipped :
          (!isWanted (some wanted) heading.name || chosen.contains heading.name) = true := by
        by_cases asked : heading.name ∈ wanted
        · rw [abreast.agree _ asked, known, Bool.or_true]
        · rw [isWanted_eq_false asked, Bool.not_false, Bool.true_or]
      obtain ⟨headed₁, read₁, abreast⟩ := abreast.read metered_heading read
      obtain ⟨next₁, skip₁, abreast⟩ := abreast.read (Metered.skip _) skip
      rw [readFieldsInto_over context input read₁ skipped skip₁]
      exact ih _ _ _ _ _ _ _ _ _ _ _ rest abreast nearer
    | @fresh heading _ _ placed read fresh slot rest =>
      obtain ⟨headed₁, read₁, abreast⟩ := abreast.read metered_heading read
      by_cases asked : heading.name ∈ wanted
      · -- both bind it
        have bound :
            (!isWanted (some wanted) heading.name || chosen.contains heading.name) = false := by
          rw [abreast.agree _ asked, fresh, isWanted_eq_true asked]
          rfl
        obtain ⟨next₁, slot₁, abreast⟩ := abreast.read (metered_slot paid _) slot
        rw [readFieldsInto_binds context input read₁ bound slot₁]
        have abreast := abreast.both (Placed.valueOf placed) (placed.map (·.tag)) asked fresh
        have nearer : max less (Placed.endOf placed) ≤ max last (Placed.endOf placed) :=
          Nat.max_le.mpr ⟨Nat.le_trans nearer (Nat.le_max_left _ _), Nat.le_max_right _ _⟩
        have kept : wanted.contains heading.name = true := isWanted_eq_true asked
        dsimp only
        by_cases enough : wanted.length ≤ taken.length + 1
        · -- the one stops here, and nothing that was asked for is left for the other to bind
          obtain ⟨⟨on, -⟩, far, added, grown, new⟩ := walk_fields _ _ _ _ _ _ _ _ rest
          have rest : added.filter (fun field => wanted.contains field.name) = [] := by
            refine List.filter_eq_nil_iff.mpr fun field later asked => ?_
            have old := abreast.nothing_left enough _ (List.contains_iff_mem.mp asked)
            rw [new field later] at old
            cases old
          rw [if_pos enough]
          refine ⟨_, _, next₁, _, rfl, grown.bind, ?_, ?_, Nat.le_trans nearer far⟩
          · rw [List.filter_cons_of_pos (p := fun field : Field => wanted.contains field.name) kept,
              rest]
            exact (Grown.refl _).bind
          · rw [abreast.place]
            exact on
        · obtain ⟨less₁, picked, there₁, added, run₁, grown, grown₁, behind, nearer₁⟩ :=
            ih _ _ _ _ _ _ _ _ _ _ _ rest abreast nearer
          rw [if_neg enough]
          refine ⟨less₁, picked, there₁, _, run₁, grown.bind, ?_, behind, nearer₁⟩
          rw [List.filter_cons_of_pos (p := fun field : Field => wanted.contains field.name) kept]
          exact grown₁.bind
      · -- the full walk binds it and the other steps over it
        have skipped :
            (!isWanted (some wanted) heading.name || chosen.contains heading.name) = true := by
          rw [isWanted_eq_false asked, Bool.not_false, Bool.true_or]
        obtain ⟨next₁, skip₁, abreast⟩ := abreast.skip paid slot
        rw [readFieldsInto_over context input read₁ skipped skip₁]
        have abreast := abreast.leave (Placed.valueOf placed) (placed.map (·.tag)) asked
        obtain ⟨less₁, picked, there₁, added, run₁, grown, grown₁, behind, nearer₁⟩ :=
          ih _ _ _ _ _ _ _ _ _ _ _ rest abreast (Nat.le_trans nearer (Nat.le_max_left _ _))
        refine ⟨less₁, picked, there₁, _, run₁, grown.bind, ?_, behind, nearer₁⟩
        have dropped : ¬wanted.contains heading.name = true := fun found =>
          asked (List.contains_iff_mem.mp found)
        rw [List.filter_cons_of_neg (p := fun field : Field => wanted.contains field.name) dropped]
        exact grown₁

end Decoding

/-! ## Whole decodings -/

open Decoding in
/-- **Selective decoding is full decoding, filtered.**  Whatever the input, the context, the place
to begin at, the target and the names asked for are: where decoding everything succeeds, so does
decoding with the projection; the target's own fields come first in both, then the fields that
were added, here those of them that were asked for, with class name and all else alike; and it
does not leave the cursor further on. -/
theorem Record.decodeFrom_projection (context : Context) (input : List UInt8)
    (wanted : List String) (target : Record) (here : Cursor) (full : Binding)
    (whole : Record.decodeFrom context input none ⟨here, target⟩ = .ok () full) :
    ∃ selected added,
      Record.decodeFrom context input (some wanted) ⟨here, target⟩ = .ok () selected ∧
      full.target.fields = target.fields ++ added ∧
      selected.target = { full.target with
        fields := target.fields ++ added.filter fun field => wanted.contains field.name } ∧
      selected.cursor.position ≤ full.cursor.position := by
  obtain ⟨there, made⟩ := full
  have run := (Record.decodeFrom_ok_iff context input none).mp whole
  rw [Record.readingInto, readRecordInto] at run
  obtain ⟨className, start, name, run⟩ := run_bind_eq_ok.mp run
  obtain ⟨⟨last, walked⟩, ended, walk, run⟩ := run_bind_eq_ok.mp run
  obtain ⟨_, there', finished, same⟩ := run_bind_eq_ok.mp run
  cases same
  obtain ⟨-, -, -, kept, -⟩ := Metered.string.ok name
  obtain ⟨⟨-, inside⟩, -, -⟩ := walk_fields _ _ _ _ _ _ _ _ walk
  -- both walks begin at the same place, in the same target
  have abreast : Abreast input wanted [] start start (Binder.named className target)
      (Binder.named className target) :=
    ⟨rfl, Nat.le_refl _, kept (Nat.zero_le _), fun _ _ => rfl, List.nodup_nil,
      fun _ none => (by cases none), fun _ none => (by cases none)⟩
  obtain ⟨less, picked, ended', added, walk', grown, grown', behind, nearer⟩ :=
    selected_fields (paid_body context input context.options.maxDepth) wanted _ _ _ _ _ _ _ _ _ _ _ _
      walk abreast (Nat.le_refl 0)
  rw [List.length_nil] at walk'
  -- the one that stops early has come less far, and its furthest body ends no later
  obtain ⟨back, finished', place⟩ :=
    finish_behind finished (inside (Cursor.inside_string name)) behind nearer
  refine ⟨⟨back, picked⟩, added, ?_, ?_, ?_, place⟩
  · refine (Record.decodeFrom_ok_iff context input (some wanted)).mpr ?_
    rw [Record.readingInto, readRecordInto, run_bind_of_ok name, run_bind_of_ok walk']
    dsimp only
    rw [run_bind_of_ok finished']
    rfl
  · show made.fields = _
    rw [grown, Binder.named]
    split <;> rfl
  · show picked = _
    rw [grown', grown, Binder.named]
    split <;> rfl

/-- Of the fields `a` and `b` only `a` is asked for. -/
theorem Record.decodeFrom_projection_of_two :
    let input : List UInt8 := [0, 1, 97, 0, 0, 0, 16, 17, 1, 98, 0, 0, 0, 17, 17, 0, 5, 6]
    let full : Binding := ⟨⟨18, 18⟩,
      ⟨none, RecordId.empty, [⟨"a", .byte 5, some .byte⟩, ⟨"b", .byte 6, some .byte⟩], false⟩⟩
    Record.decodeFrom {} input none ⟨Cursor.start, Record.new⟩ = .ok () full ∧
      ∃ selected added,
        Record.decodeFrom {} input (some ["a"]) ⟨Cursor.start, Record.new⟩ = .ok () selected ∧
        full.target.fields = [] ++ added ∧
        selected.target = { full.target with
          fields := [] ++ added.filter fun field => ["a"].contains field.name } ∧
        selected.cursor.position ≤ full.cursor.position := by
  intro input full
  have whole : Record.decodeFrom {} input none ⟨Cursor.start, Record.new⟩ = .ok () full := by
    subst full input
    rfl
  exact ⟨whole, Record.decodeFrom_projection {} input ["a"] Record.new Cursor.start full whole⟩

end DocumentCodec
