import DocumentCodec.Equality
import Mathlib.Algebra.Field.Rat
import Mathlib.Algebra.GroupWithZero.Basic
import Mathlib.Logic.Function.Basic
import Mathlib.Tactic.Ring
/-!
# Equality is a partial equivalence

Equality goes through both values side by side and compares what it meets, numbers by what they are
worth.  That it is symmetric and transitive is seen at once when it is put another way: every value
has a standard form, in which a number is written in one fixed way and nothing is pinned or owned,
and two values are equal when neither holds a NaN and their standard forms are the same.

Only this is proved by recursion over the values (`Value.same_iff`).  What an equation of forms
restricted to some of the values satisfies, equality then does as well.
-/

namespace DocumentCodec

/-! ## Numbers

Two numbers are compared by what they are worth; a NaN is worth nothing, so it equals not even
itself.  One form is picked for each worth, and the numbers are compared by that. -/

namespace Decimal

/-- The number that a decimal is. -/
def toRat (number : Decimal) : ℚ := number.unscaled * 10 ^ (-number.scale.toInt)

/-- With the scales apart, the finer unscaled part has the more zeros. -/
theorem scaled_eq_iff {fine coarse scale scale' : Int} (apart : 0 ≤ scale - scale') :
    (fine : ℚ) * 10 ^ (-scale) = coarse * 10 ^ (-scale') ↔
      fine = coarse * (Nat.pow 10 (scale - scale').toNat : Nat) := by
  obtain ⟨zeros, far⟩ := Int.eq_ofNat_of_zero_le apart
  have shift : -scale' = zeros + -scale := by omega
  have unit : (10 : ℚ) ^ (-scale) ≠ 0 := zpow_ne_zero _ (by norm_num)
  rw [far, Int.toNat_natCast, shift, zpow_add₀ (by norm_num), zpow_natCast, ← mul_assoc,
    mul_left_inj' unit]
  constructor
  · intro same
    exact_mod_cast same
  · intro same
    exact_mod_cast same

/-- Decimals are equal when they are one number. -/
theorem sameValue_iff (a b : Decimal) : a.sameValue b = true ↔ a.toRat = b.toRat := by
  unfold sameValue
  dsimp only
  split
  · next finer => rw [sameShifted_iff, toRat, toRat, scaled_eq_iff finer]
  · next coarser =>
    rw [sameShifted_iff, toRat, toRat, eq_comm (a := _ * _), scaled_eq_iff (by omega)]
    rw [Int.neg_sub]

instance : Nonempty Decimal := ⟨⟨0, 0⟩⟩

/-- The decimal that stands for all those of its value. -/
noncomputable def standard (number : Decimal) : Decimal := Function.invFun toRat number.toRat

/-- Two decimals have one standard form exactly if they are the same number. -/
theorem standard_eq_iff (a b : Decimal) : a.standard = b.standard ↔ a.toRat = b.toRat := by
  -- a standard form is a decimal of the same number, whichever it is
  have back (number : Decimal) : number.standard.toRat = number.toRat :=
    Function.invFun_eq ⟨number, rfl⟩
  constructor
  · intro same
    rw [← back a, same, back]
  · intro same
    rw [standard, same, standard]

end Decimal

/-- With one of them in the place of all that stand for it, things are compared as such. -/
theorem placed_eq_iff {α : Type} (stands : α → Bool) {one : α} (itself : stands one = true) (a b : α) :
    (if stands a then one else a) = (if stands b then one else b) ↔
      a = b ∨ stands a = true ∧ stands b = true := by
  by_cases first : stands a = true
  · by_cases second : stands b = true
    · rw [if_pos first, if_pos second]
      exact iff_of_true rfl (Or.inr ⟨first, second⟩)
    · -- one of both is placed: the other is not, so it neither equals it nor lies there too
      rw [if_pos first, if_neg second]
      constructor
      · intro same
        exact absurd (same ▸ itself) second
      · rintro (same | ⟨-, both⟩)
        · exact absurd (same ▸ first) second
        · exact absurd both second
  · rw [if_neg first]
    by_cases second : stands b = true
    · rw [if_pos second]
      constructor
      · intro same
        exact absurd (same ▸ itself) first
      · rintro (same | ⟨both, -⟩)
        · exact absurd (same ▸ second) first
        · exact absurd both first
    · rw [if_neg second]
      exact ⟨Or.inl, fun same => same.resolve_right fun both => first both.1⟩

/-- Two words spell the same number if neither spells none and they are one word, or both spell a
zero. -/
theorem FloatFormat.sameValue_iff (format : FloatFormat) (a b : Nat) :
    format.sameValue a b = true ↔ format.isNaN a = false ∧ format.isNaN b = false ∧
      (a = b ∨ format.isZero a = true ∧ format.isZero b = true) := by
  rw [sameValue, Bool.and_eq_true, Bool.and_eq_true, Bool.not_eq_true', Bool.not_eq_true',
    Bool.or_eq_true, beq_iff_eq, Bool.and_eq_true, and_assoc]

namespace FloatWord

/-- A single-precision number, of the two zeros the positive one. -/
def standardSingle (word : UInt32) : UInt32 :=
  if FloatFormat.single.isZero word.toNat then 0 else word

/-- A double-precision number, of the two zeros the positive one. -/
def standardDouble (word : UInt64) : UInt64 :=
  if FloatFormat.double.isZero word.toNat then 0 else word

/-- For 32-bit words: the standard form puts the positive zero in the place of both. -/
theorem sameSingle_iff (a b : UInt32) : sameSingle a b = true ↔
    FloatFormat.single.isNaN a.toNat = false ∧ FloatFormat.single.isNaN b.toNat = false ∧
      standardSingle a = standardSingle b := by
  have zero : FloatFormat.single.isZero (0 : UInt32).toNat = true := by decide
  rw [sameSingle, FloatFormat.sameValue_iff, standardSingle, standardSingle,
    placed_eq_iff (fun word : UInt32 => FloatFormat.single.isZero word.toNat) zero,
    UInt32.toNat_inj]

/-- For 64-bit words, likewise. -/
theorem sameDouble_iff (a b : UInt64) : sameDouble a b = true ↔
    FloatFormat.double.isNaN a.toNat = false ∧ FloatFormat.double.isNaN b.toNat = false ∧
      standardDouble a = standardDouble b := by
  have zero : FloatFormat.double.isZero (0 : UInt64).toNat = true := by decide
  rw [sameDouble, FloatFormat.sameValue_iff, standardDouble, standardDouble,
    placed_eq_iff (fun word : UInt64 => FloatFormat.double.isZero word.toNat) zero,
    UInt64.toNat_inj]

end FloatWord

/-! ## What a value holds

The parts of a value are the value itself and everything in it, the records behind its links
included.  A NaN among them makes the value unequal to itself. -/

mutual

/-- The value and all values in it, those of records that are only linked to included. -/
def Value.parts : Value → List Value
  | .embedded record => .embedded record :: record.parts
  | .embeddedList items => .embeddedList items :: partsOfItems items
  | .embeddedSet items => .embeddedSet items :: partsOfItems items
  | .embeddedMap members => .embeddedMap members :: partsOfMembers members
  | .link target => .link target :: target.parts
  | .linkList items => .linkList items :: partsOfLinks items
  | .linkSet items => .linkSet items :: partsOfLinks items
  | .linkMap entries => .linkMap entries :: partsOfLinkEntries entries
  | .serializable className record => .serializable className record :: record.parts
  | value => [value]
termination_by structural x => x

/-- The values in the record that a link points at. -/
def LinkTarget.parts : LinkTarget → List Value
  | .identity _ => []
  | .record record => record.parts
termination_by structural x => x

/-- The values in a field. -/
def Field.parts : Field → List Value
  | ⟨_, value, _⟩ => value.parts
termination_by structural x => x

/-- The values in a record. -/
def Record.parts : Record → List Value
  | ⟨_, _, fields, _⟩ => partsOfFields fields
termination_by structural x => x

/-- The values in a list of values. -/
def partsOfItems : List Value → List Value
  | [] => []
  | item :: rest => item.parts ++ partsOfItems rest
termination_by structural x => x

/-- The values in a map. -/
def partsOfMembers : List (String × Value) → List Value
  | [] => []
  | (_, value) :: rest => value.parts ++ partsOfMembers rest
termination_by structural x => x

/-- The values in a link element. -/
def partsOfLink : Option LinkTarget → List Value
  | none => []
  | some target => target.parts
termination_by structural x => x

/-- The values in a list of links. -/
def partsOfLinks : List (Option LinkTarget) → List Value
  | [] => []
  | item :: rest => partsOfLink item ++ partsOfLinks rest
termination_by structural x => x

/-- The values in a map of links. -/
def partsOfLinkEntries : List (String × Option LinkTarget) → List Value
  | [] => []
  | (_, item) :: rest => partsOfLink item ++ partsOfLinkEntries rest
termination_by structural x => x

/-- The values in a list of fields. -/
def partsOfFields : List Field → List Value
  | [] => []
  | field :: rest => field.parts ++ partsOfFields rest
termination_by structural x => x

end

/-- The value is a floating-point number that is none. -/
def Value.isNaN : Value → Bool
  | .float word => FloatFormat.single.isNaN word.toNat
  | .double word => FloatFormat.double.isNaN word.toNat
  | _ => false

/-! ## Forms of a value -/

/-- How the numbers in a value are to be written. -/
structure NumberForms where
  single : UInt32 → UInt32
  double : UInt64 → UInt64
  decimal : Decimal → Decimal

/-- As they are. -/
def NumberForms.kept : NumberForms := ⟨id, id, id⟩

/-- One form for all numbers that are equal. -/
noncomputable def NumberForms.standard : NumberForms :=
  ⟨FloatWord.standardSingle, FloatWord.standardDouble, Decimal.standard⟩

section

variable (forms : NumberForms)

mutual

/-- The value with its numbers in these forms, and with nothing in it pinned or owned. -/
def Value.recast : Value → Value
  | .float word => .float (forms.single word)
  | .double word => .double (forms.double word)
  | .decimal number => .decimal (forms.decimal number)
  | .embedded record => .embedded record.recast
  | .embeddedList items => .embeddedList (recastItems items)
  | .embeddedSet items => .embeddedSet (recastItems items)
  | .embeddedMap members => .embeddedMap (recastMembers members)
  | .link target => .link target.recast
  | .linkList items => .linkList (recastLinks items)
  | .linkSet items => .linkSet (recastLinks items)
  | .linkMap entries => .linkMap (recastLinkEntries entries)
  | .serializable className record => .serializable className record.recast
  | value => value
termination_by structural x => x

/-- The target, the record that it holds recast. -/
def LinkTarget.recast : LinkTarget → LinkTarget
  | .identity rid => .identity rid
  | .record record => .record record.recast
termination_by structural x => x

/-- The field with its value recast, and pinned to nothing. -/
def Field.recast : Field → Field
  | ⟨name, value, _⟩ => ⟨name, value.recast, none⟩
termination_by structural x => x

/-- The record with its fields recast, and without an owner. -/
def Record.recast : Record → Record
  | ⟨className, identity, fields, _⟩ => ⟨className, identity, recastFields fields, false⟩
termination_by structural x => x

/-- The values of a list, recast. -/
def recastItems : List Value → List Value
  | [] => []
  | item :: rest => item.recast :: recastItems rest
termination_by structural x => x

/-- The values of a map, recast. -/
def recastMembers : List (String × Value) → List (String × Value)
  | [] => []
  | (key, value) :: rest => (key, value.recast) :: recastMembers rest
termination_by structural x => x

/-- The link element, its target recast. -/
def recastLink : Option LinkTarget → Option LinkTarget
  | none => none
  | some target => some target.recast
termination_by structural x => x

/-- The links of a list, recast. -/
def recastLinks : List (Option LinkTarget) → List (Option LinkTarget)
  | [] => []
  | item :: rest => recastLink item :: recastLinks rest
termination_by structural x => x

/-- The links of a map, recast. -/
def recastLinkEntries : List (String × Option LinkTarget) → List (String × Option LinkTarget)
  | [] => []
  | (key, item) :: rest => (key, recastLink item) :: recastLinkEntries rest
termination_by structural x => x

/-- The fields of a record, recast. -/
def recastFields : List Field → List Field
  | [] => []
  | field :: rest => field.recast :: recastFields rest
termination_by structural x => x

end

end

/-- The value with nothing in it pinned or owned. -/
def Value.bare (value : Value) : Value := value.recast .kept

/-- The record with nothing in it pinned or owned, and without an owner. -/
def Record.bare (record : Record) : Record := record.recast .kept

/-! ## Equality by standard forms

Once equality is an equation of forms, its laws are those of equations. -/

/-- Neither holds a NaN, and their standard forms are the same. -/
def SameForm {α : Type} (parts : α → List Value) (recast : NumberForms → α → α) (a b : α) : Prop :=
  (∀ part ∈ parts a, part.isNaN = false) ∧ (∀ part ∈ parts b, part.isNaN = false) ∧
    recast .standard a = recast .standard b

namespace SameForm

variable {α : Type} {parts : α → List Value} {recast : NumberForms → α → α} {a b c : α}

theorem symm (formed : SameForm parts recast a b) : SameForm parts recast b a :=
  ⟨formed.2.1, formed.1, formed.2.2.symm⟩

theorem trans (formed : SameForm parts recast a b) (next : SameForm parts recast b c) :
    SameForm parts recast a c :=
  ⟨formed.1, next.2.1, formed.2.2.trans next.2.2⟩

theorem self_iff : SameForm parts recast a a ↔ ∀ part ∈ parts a, part.isNaN = false :=
  ⟨fun formed => formed.1, fun ordinary => ⟨ordinary, ordinary, rfl⟩⟩

theorem false_iff (differ : recast .standard a ≠ recast .standard b) :
    false = true ↔ SameForm parts recast a b :=
  iff_of_false Bool.false_ne_true fun formed => differ formed.2.2

/-! ### What is built from parts -/

variable {β : Type} {partsOf : β → List Value} {recastOf : NumberForms → β → β}

/-- What is wrapped up is compared as it is. -/
theorem wrap_iff (wrap : β → α) (injective : ∀ {x y}, wrap x = wrap y → x = y)
    (ordinary : ∀ x, (∀ part ∈ parts (wrap x), part.isNaN = false) ↔
      ∀ part ∈ partsOf x, part.isNaN = false)
    (form : ∀ x, recast .standard (wrap x) = wrap (recastOf .standard x)) {x y : β} :
    SameForm partsOf recastOf x y ↔ SameForm parts recast (wrap x) (wrap y) := by
  rw [SameForm, SameForm, ordinary, ordinary, form, form]
  exact and_congr_right' (and_congr_right' ⟨congrArg wrap, injective⟩)

/-- What bears a key is compared with the key. -/
theorem keyed_iff {key key' : String} : key = key' ∧ SameForm parts recast a b ↔
    SameForm (fun pair : String × α => parts pair.2)
      (fun forms pair => (pair.1, recast forms pair.2)) (key, a) (key', b) := by
  rw [SameForm, SameForm, Prod.mk.injEq, and_left_comm, and_left_comm (a := key = key')]

/-- Lists are compared one behind the other. -/
theorem cons_iff {partsOf : List α → List Value} {recastOf : NumberForms → List α → List α}
    (first : ∀ a as, partsOf (a :: as) = parts a ++ partsOf as)
    (form : ∀ a as, recastOf .standard (a :: as) = recast .standard a :: recastOf .standard as)
    {as bs : List α} : SameForm parts recast a b ∧ SameForm partsOf recastOf as bs ↔
      SameForm partsOf recastOf (a :: as) (b :: bs) := by
  rw [SameForm, SameForm, SameForm, first, first, form, form, List.forall_mem_append,
    List.forall_mem_append, List.cons.injEq]
  constructor
  · rintro ⟨⟨left, right, same⟩, lefts, rights, sames⟩
    exact ⟨⟨left, lefts⟩, ⟨right, rights⟩, same, sames⟩
  · rintro ⟨⟨left, lefts⟩, ⟨right, rights⟩, same, sames⟩
    exact ⟨⟨left, right, same⟩, lefts, rights, sames⟩

/-- A value that holds others is compared as what it holds. -/
theorem held (wrap : β → Value) (injective : ∀ {x y}, wrap x = wrap y → x = y)
    (held : ∀ x, (wrap x).parts = wrap x :: partsOf x) (number : ∀ x, (wrap x).isNaN = false)
    (form : ∀ x, (wrap x).recast .standard = wrap (recastOf .standard x)) {x y : β} :
    SameForm partsOf recastOf x y ↔ SameForm Value.parts Value.recast (wrap x) (wrap y) := by
  refine wrap_iff wrap injective (fun x => ?_) form
  rw [held, List.forall_mem_cons]
  exact and_iff_right (number x)

/-- What holds no others and is no number is compared as it is. -/
theorem leaf [BEq β] [LawfulBEq β] (wrap : β → Value)
    (injective : ∀ {x y}, wrap x = wrap y → x = y) (alone : ∀ x, (wrap x).parts = [wrap x])
    (number : ∀ x, (wrap x).isNaN = false) (form : ∀ x, (wrap x).recast .standard = wrap x)
    {x y : β} : (x == y) = true ↔ SameForm Value.parts Value.recast (wrap x) (wrap y) := by
  have itself : SameForm (fun _ => []) (fun _ x => x) x y ↔ x = y := by
    rw [SameForm]
    exact ⟨fun formed => formed.2.2, fun same => ⟨nofun, nofun, same⟩⟩
  rw [beq_iff_eq, ← itself]
  exact held wrap injective alone number form

/-- A number is compared in its standard form, unless it is none. -/
theorem number {same : β → β → Bool} {none : β → Bool} {standard : β → β}
    (wrap : β → Value) (compared : ∀ x y, same x y = true ↔
      none x = false ∧ none y = false ∧ standard x = standard y)
    (injective : ∀ {x y}, wrap x = wrap y → x = y) (alone : ∀ x, (wrap x).parts = [wrap x])
    (number : ∀ x, (wrap x).isNaN = none x)
    (form : ∀ x, (wrap x).recast .standard = wrap (standard x))
    {x y : β} : same x y = true ↔ SameForm Value.parts Value.recast (wrap x) (wrap y) := by
  rw [compared, SameForm, alone, alone, List.forall_mem_singleton, List.forall_mem_singleton, number,
    number, form, form]
  exact and_congr_right' (and_congr_right' ⟨congrArg wrap, injective⟩)

end SameForm

mutual

/-- Values are equal just if they have one standard form and no NaN. -/
theorem Value.same_iff : ∀ a b : Value, a.same b = true ↔ SameForm Value.parts Value.recast a b
  -- values of two kinds differ and so do their standard forms; of one kind, they are compared by
  -- what they hold, as their forms are
  | .null, b => by
    cases b with
    | null => exact iff_of_true rfl (SameForm.self_iff.mpr (List.forall_mem_singleton.mpr rfl))
    | _ => exact SameForm.false_iff nofun
  | .transient, b => by
    cases b with
    | transient => exact iff_of_true rfl (SameForm.self_iff.mpr (List.forall_mem_singleton.mpr rfl))
    | _ => exact SameForm.false_iff nofun
  | .boolean v, b => by
    cases b with
    | boolean v' =>
      exact SameForm.leaf .boolean Value.boolean.inj (fun _ => rfl) (fun _ => rfl) fun _ => rfl
    | _ => exact SameForm.false_iff nofun
  | .byte v, b => by
    cases b with
    | byte v' =>
      exact SameForm.leaf .byte Value.byte.inj (fun _ => rfl) (fun _ => rfl) fun _ => rfl
    | _ => exact SameForm.false_iff nofun
  | .short v, b => by
    cases b with
    | short v' =>
      exact SameForm.leaf .short Value.short.inj (fun _ => rfl) (fun _ => rfl) fun _ => rfl
    | _ => exact SameForm.false_iff nofun
  | .integer v, b => by
    cases b with
    | integer v' =>
      exact SameForm.leaf .integer Value.integer.inj (fun _ => rfl) (fun _ => rfl) fun _ => rfl
    | _ => exact SameForm.false_iff nofun
  | .long v, b => by
    cases b with
    | long v' =>
      exact SameForm.leaf .long Value.long.inj (fun _ => rfl) (fun _ => rfl) fun _ => rfl
    | _ => exact SameForm.false_iff nofun
  | .string text, b => by
    cases b with
    | string text' =>
      exact SameForm.leaf .string Value.string.inj (fun _ => rfl) (fun _ => rfl) fun _ => rfl
    | _ => exact SameForm.false_iff nofun
  | .binary bytes, b => by
    cases b with
    | binary bytes' =>
      exact SameForm.leaf .binary Value.binary.inj (fun _ => rfl) (fun _ => rfl) fun _ => rfl
    | _ => exact SameForm.false_iff nofun
  | .date millis, b => by
    cases b with
    | date millis' =>
      exact SameForm.leaf .date Value.date.inj (fun _ => rfl) (fun _ => rfl) fun _ => rfl
    | _ => exact SameForm.false_iff nofun
  | .dateTime millis, b => by
    cases b with
    | dateTime millis' =>
      exact SameForm.leaf .dateTime Value.dateTime.inj (fun _ => rfl) (fun _ => rfl) fun _ => rfl
    | _ => exact SameForm.false_iff nofun
  | .linkBag bytes, b => by
    cases b with
    | linkBag bytes' =>
      exact SameForm.leaf .linkBag Value.linkBag.inj (fun _ => rfl) (fun _ => rfl) fun _ => rfl
    | _ => exact SameForm.false_iff nofun
  | .custom name stream, b => by
    cases b with
    | custom name' stream' =>
      exact SameForm.leaf (x := (name, stream)) (y := (name', stream'))
        (fun pair => .custom pair.1 pair.2)
        (fun same => Prod.ext (Value.custom.inj same).1 (Value.custom.inj same).2)
        (fun _ => rfl) (fun _ => rfl) fun _ => rfl
    | _ => exact SameForm.false_iff nofun
  | .float word, b => by
    cases b with
    | float word' =>
      exact SameForm.number .float FloatWord.sameSingle_iff Value.float.inj (fun _ => rfl)
        (fun _ => rfl) fun _ => rfl
    | _ => exact SameForm.false_iff nofun
  | .double word, b => by
    cases b with
    | double word' =>
      exact SameForm.number .double FloatWord.sameDouble_iff Value.double.inj (fun _ => rfl)
        (fun _ => rfl) fun _ => rfl
    | _ => exact SameForm.false_iff nofun
  | .decimal number, b => by
    cases b with
    | decimal number' =>
      have compared (x y : Decimal) : x.sameValue y = true ↔
          false = false ∧ false = false ∧ x.standard = y.standard := by
        rw [Decimal.sameValue_iff, ← Decimal.standard_eq_iff]
        exact ⟨fun same => ⟨rfl, rfl, same⟩, fun same => same.2.2⟩
      exact SameForm.number .decimal compared Value.decimal.inj (fun _ => rfl) (fun _ => rfl)
        fun _ => rfl
    | _ => exact SameForm.false_iff nofun
  | .embedded record, b => by
    cases b with
    | embedded record' =>
      exact (record.same_iff record').trans
        (SameForm.held .embedded Value.embedded.inj (fun _ => rfl) (fun _ => rfl) fun _ => rfl)
    | _ => exact SameForm.false_iff nofun
  | .embeddedList items, b => by
    cases b with
    | embeddedList items' =>
      exact (sameItems_iff items items').trans
        (SameForm.held .embeddedList Value.embeddedList.inj (fun _ => rfl) (fun _ => rfl) fun _ => rfl)
    | _ => exact SameForm.false_iff nofun
  | .embeddedSet items, b => by
    cases b with
    | embeddedSet items' =>
      exact (sameItems_iff items items').trans
        (SameForm.held .embeddedSet Value.embeddedSet.inj (fun _ => rfl) (fun _ => rfl) fun _ => rfl)
    | _ => exact SameForm.false_iff nofun
  | .embeddedMap members, b => by
    cases b with
    | embeddedMap members' =>
      exact (sameEntries_iff members members').trans
        (SameForm.held .embeddedMap Value.embeddedMap.inj (fun _ => rfl) (fun _ => rfl) fun _ => rfl)
    | _ => exact SameForm.false_iff nofun
  | .link target, b => by
    cases b with
    | link target' =>
      exact (target.same_iff target').trans
        (SameForm.held .link Value.link.inj (fun _ => rfl) (fun _ => rfl) fun _ => rfl)
    | _ => exact SameForm.false_iff nofun
  | .linkList items, b => by
    cases b with
    | linkList items' =>
      exact (sameLinks_iff items items').trans
        (SameForm.held .linkList Value.linkList.inj (fun _ => rfl) (fun _ => rfl) fun _ => rfl)
    | _ => exact SameForm.false_iff nofun
  | .linkSet items, b => by
    cases b with
    | linkSet items' =>
      exact (sameLinks_iff items items').trans
        (SameForm.held .linkSet Value.linkSet.inj (fun _ => rfl) (fun _ => rfl) fun _ => rfl)
    | _ => exact SameForm.false_iff nofun
  | .linkMap entries, b => by
    cases b with
    | linkMap entries' =>
      exact (sameLinkEntries_iff entries entries').trans
        (SameForm.held .linkMap Value.linkMap.inj (fun _ => rfl) (fun _ => rfl) fun _ => rfl)
    | _ => exact SameForm.false_iff nofun
  | .serializable className record, b => by
    cases b with
    | serializable className' record' =>
      refine Bool.and_eq_true_iff.trans ?_
      rw [beq_iff_eq, record.same_iff record', SameForm.keyed_iff]
      refine SameForm.held (fun pair : String × Record => .serializable pair.1 pair.2) ?_ ?_ ?_ ?_
      · exact fun same => Prod.ext (Value.serializable.inj same).1 (Value.serializable.inj same).2
      · exact fun _ => rfl
      · exact fun _ => rfl
      · exact fun _ => rfl
    | _ => exact SameForm.false_iff nofun
termination_by structural x => x

/-- Targets of different sorts have no form in common; those of one sort are compared by what they
hold. -/
theorem LinkTarget.same_iff : ∀ a b : LinkTarget,
    a.same b = true ↔ SameForm LinkTarget.parts LinkTarget.recast a b
  | .identity rid, .identity rid' => by
    simp [LinkTarget.same, SameForm, LinkTarget.parts, LinkTarget.recast]
  | .record record, .record record' => by
    refine (record.same_iff record').trans ?_
    exact SameForm.wrap_iff LinkTarget.record LinkTarget.record.inj (fun _ => by rfl) fun _ => by rfl
  | .identity _, .record _ => SameForm.false_iff nofun
  | .record _, .identity _ => SameForm.false_iff nofun
termination_by structural x => x

theorem Field.same_iff : ∀ a b : Field, a.same b = true ↔ SameForm Field.parts Field.recast a b
  | ⟨name, value, _⟩, ⟨name', value', _⟩ => by
    simp [Field.same, value.same_iff value', SameForm, Field.parts, Field.recast, and_left_comm]
termination_by structural x => x

theorem Record.same_iff : ∀ a b : Record, a.same b = true ↔ SameForm Record.parts Record.recast a b
  | ⟨className, identity, fields, _⟩, ⟨className', identity', fields', _⟩ => by
    simp [Record.same, sameFields_iff fields fields', SameForm, Record.parts, Record.recast,
      and_left_comm, and_assoc]
termination_by structural x => x

/-- Lists are compared element by element, and the shorter one is never the same as the longer. -/
theorem sameItems_iff : ∀ as bs : List Value,
    sameItems as bs = true ↔ SameForm partsOfItems recastItems as bs
  | [], [] => iff_of_true rfl (SameForm.self_iff.mpr nofun)
  | a :: as, b :: bs => by
    rw [sameItems, Bool.and_eq_true, a.same_iff b, sameItems_iff as bs]
    exact SameForm.cons_iff (fun _ _ => rfl) (fun _ _ => rfl)
  | [], _ :: _ => SameForm.false_iff nofun
  | _ :: _, [] => SameForm.false_iff nofun
termination_by structural x => x

/-- Maps are compared entry by entry, by key and value: their entries are in order. -/
theorem sameEntries_iff : ∀ as bs : List (String × Value),
    sameEntries as bs = true ↔ SameForm partsOfMembers recastMembers as bs
  | [], [] => iff_of_true rfl (SameForm.self_iff.mpr nofun)
  | (k, a) :: as, (l, b) :: bs => by
    rw [sameEntries, Bool.and_eq_true, Bool.and_eq_true, beq_iff_eq, a.same_iff b,
      sameEntries_iff as bs, SameForm.keyed_iff]
    exact SameForm.cons_iff (fun _ _ => rfl) (fun _ _ => rfl)
  | [], _ :: _ => SameForm.false_iff nofun
  | _ :: _, [] => SameForm.false_iff nofun
termination_by structural x => x

/-- An absent link is the same as an absent one only. -/
theorem sameLink_iff : ∀ a b : Option LinkTarget,
    sameLink a b = true ↔ SameForm partsOfLink recastLink a b
  | none, none => iff_of_true rfl (SameForm.self_iff.mpr nofun)
  | some a, some b => by
    refine (a.same_iff b).trans ?_
    exact SameForm.wrap_iff some Option.some.inj (fun _ => by rfl) fun _ => by rfl
  | none, some _ => SameForm.false_iff nofun
  | some _, none => SameForm.false_iff nofun
termination_by structural x => x

/-- Lists of links are compared link by link. -/
theorem sameLinks_iff : ∀ as bs : List (Option LinkTarget),
    sameLinks as bs = true ↔ SameForm partsOfLinks recastLinks as bs
  | [], [] => iff_of_true rfl (SameForm.self_iff.mpr nofun)
  | a :: as, b :: bs => by
    rw [sameLinks, Bool.and_eq_true, sameLink_iff a b, sameLinks_iff as bs]
    exact SameForm.cons_iff (fun _ _ => rfl) (fun _ _ => rfl)
  | [], _ :: _ => SameForm.false_iff nofun
  | _ :: _, [] => SameForm.false_iff nofun
termination_by structural x => x

/-- Maps of links are compared entry by entry. -/
theorem sameLinkEntries_iff : ∀ as bs : List (String × Option LinkTarget),
    sameLinkEntries as bs = true ↔ SameForm partsOfLinkEntries recastLinkEntries as bs
  | [], [] => iff_of_true rfl (SameForm.self_iff.mpr nofun)
  | (k, a) :: as, (l, b) :: bs => by
    rw [sameLinkEntries, Bool.and_eq_true, Bool.and_eq_true, beq_iff_eq, sameLink_iff a b,
      sameLinkEntries_iff as bs, SameForm.keyed_iff]
    exact SameForm.cons_iff (fun _ _ => rfl) (fun _ _ => rfl)
  | [], _ :: _ => SameForm.false_iff nofun
  | _ :: _, [] => SameForm.false_iff nofun
termination_by structural x => x

/-- The fields of two records are compared in their order, by name and value. -/
theorem sameFields_iff : ∀ as bs : List Field,
    sameFields as bs = true ↔ SameForm partsOfFields recastFields as bs
  | [], [] => iff_of_true rfl (SameForm.self_iff.mpr nofun)
  | a :: as, b :: bs => by
    rw [sameFields, Bool.and_eq_true, a.same_iff b, sameFields_iff as bs]
    exact SameForm.cons_iff (fun _ _ => rfl) (fun _ _ => rfl)
  | [], _ :: _ => SameForm.false_iff nofun
  | _ :: _, [] => SameForm.false_iff nofun
termination_by structural x => x

end

/-! ## Pinned types and owners

Equality looks at values and names only, so a record that is compared with its pins and owners taken
away compares the same. -/

mutual

/-- A value is equal to what it is equal to without its pins and owners. -/
theorem Value.same_recast_kept : ∀ a b : Value, (a.recast .kept).same b = a.same b
  | .embedded record, b => by
    cases b with
    | embedded record' => exact record.same_recast_kept record'
    | _ => rfl
  | .embeddedList items, b => by
    cases b with
    | embeddedList items' => exact sameItems_recast_kept items items'
    | _ => rfl
  | .embeddedSet items, b => by
    cases b with
    | embeddedSet items' => exact sameItems_recast_kept items items'
    | _ => rfl
  | .embeddedMap members, b => by
    cases b with
    | embeddedMap members' => exact sameEntries_recast_kept members members'
    | _ => rfl
  | .link target, b => by
    cases b with
    | link target' => exact target.same_recast_kept target'
    | _ => rfl
  | .linkList items, b => by
    cases b with
    | linkList items' => exact sameLinks_recast_kept items items'
    | _ => rfl
  | .linkSet items, b => by
    cases b with
    | linkSet items' => exact sameLinks_recast_kept items items'
    | _ => rfl
  | .linkMap entries, b => by
    cases b with
    | linkMap entries' => exact sameLinkEntries_recast_kept entries entries'
    | _ => rfl
  | .serializable className record, b => by
    cases b with
    | serializable className' record' =>
      exact congrArg (className == className' && ·) (record.same_recast_kept record')
    | _ => rfl
  -- nothing that holds no record has a mark to keep
  | .null, _ | .transient, _ | .boolean _, _ | .byte _, _ | .short _, _ | .integer _, _
  | .long _, _ | .float _, _ | .double _, _ | .string _, _ | .binary _, _ | .date _, _
  | .dateTime _, _ | .decimal _, _ | .linkBag _, _ | .custom _ _, _ => rfl
termination_by structural x => x

theorem LinkTarget.same_recast_kept : ∀ a b : LinkTarget, (a.recast .kept).same b = a.same b
  | .identity _, _ => rfl
  | .record record, .record record' => record.same_recast_kept record'
  | .record _, .identity _ => rfl
termination_by structural x => x

theorem Field.same_recast_kept : ∀ a b : Field, (a.recast .kept).same b = a.same b
  | ⟨name, value, _⟩, ⟨name', value', _⟩ =>
    congrArg (name == name' && ·) (value.same_recast_kept value')
termination_by structural x => x

theorem Record.same_recast_kept : ∀ a b : Record, (a.recast .kept).same b = a.same b
  | ⟨className, identity, fields, _⟩, ⟨className', identity', fields', _⟩ =>
    congrArg (className == className' && identity == identity' && ·)
      (sameFields_recast_kept fields fields')
termination_by structural x => x

/-- Recasting the elements of a list, numbers kept, changes no comparison. -/
theorem sameItems_recast_kept : ∀ as bs : List Value,
    sameItems (recastItems .kept as) bs = sameItems as bs
  | [], _ => rfl
  | _ :: _, [] => rfl
  | a :: as, b :: bs => congrArg₂ and (a.same_recast_kept b) (sameItems_recast_kept as bs)
termination_by structural x => x

/-- The same for the entries of a map. -/
theorem sameEntries_recast_kept : ∀ as bs : List (String × Value),
    sameEntries (recastMembers .kept as) bs = sameEntries as bs
  | [], _ => rfl
  | _ :: _, [] => rfl
  | (k, a) :: as, (l, b) :: bs =>
    congrArg₂ and (congrArg (k == l && ·) (a.same_recast_kept b)) (sameEntries_recast_kept as bs)
termination_by structural x => x

/-- The same for a link. -/
theorem sameLink_recast_kept : ∀ a b : Option LinkTarget,
    sameLink (recastLink .kept a) b = sameLink a b
  | none, _ => rfl
  | some _, none => rfl
  | some a, some b => a.same_recast_kept b
termination_by structural x => x

/-- The same for a list of links. -/
theorem sameLinks_recast_kept : ∀ as bs : List (Option LinkTarget),
    sameLinks (recastLinks .kept as) bs = sameLinks as bs
  | [], _ => rfl
  | _ :: _, [] => rfl
  | a :: as, b :: bs => congrArg₂ and (sameLink_recast_kept a b) (sameLinks_recast_kept as bs)
termination_by structural x => x

/-- The same for the entries of a map of links. -/
theorem sameLinkEntries_recast_kept : ∀ as bs : List (String × Option LinkTarget),
    sameLinkEntries (recastLinkEntries .kept as) bs = sameLinkEntries as bs
  | [], _ => rfl
  | _ :: _, [] => rfl
  | (k, a) :: as, (l, b) :: bs =>
    congrArg₂ and (congrArg (k == l && ·) (sameLink_recast_kept a b))
      (sameLinkEntries_recast_kept as bs)
termination_by structural x => x

/-- The same for the fields of a record, whatever they are pinned to. -/
theorem sameFields_recast_kept : ∀ as bs : List Field,
    sameFields (recastFields .kept as) bs = sameFields as bs
  | [], _ => rfl
  | _ :: _, [] => rfl
  | a :: as, b :: bs => congrArg₂ and (a.same_recast_kept b) (sameFields_recast_kept as bs)
termination_by structural x => x

end

/-! ## Partial equivalence -/

/-- Equality is symmetric and transitive, is reflexive on what holds no NaN and nowhere else, and
does not tell apart what is the same when it is bare. -/
structure IsPartialEquivalence {α : Type} [BEq α] (parts : α → List Value) (bare : α → α) : Prop where
  symm : ∀ a b : α, (a == b) = (b == a)
  trans : ∀ a b c : α, (a == b) = true → (b == c) = true → (a == c) = true
  self_iff : ∀ a : α, (a == a) = true ↔ ∀ part ∈ parts a, part.isNaN = false
  congr_bare : ∀ a b c : α, bare a = bare b → (a == c) = (b == c)

/-- A comparison of forms is symmetric and transitive as equality is, and nothing but a number that
is none differs from itself. -/
theorem IsPartialEquivalence.of_sameForm {α : Type} [BEq α] {parts : α → List Value}
    {recast : NumberForms → α → α} (formed : ∀ a b : α, (a == b) = true ↔ SameForm parts recast a b)
    (kept : ∀ a b : α, (recast .kept a == b) = (a == b)) :
    IsPartialEquivalence parts (recast .kept) where
  symm a b := by
    rw [Bool.eq_iff_iff, formed, formed]
    exact ⟨SameForm.symm, SameForm.symm⟩
  trans a b c first second := (formed a c).mpr (((formed a b).mp first).trans ((formed b c).mp second))
  self_iff a := (formed a a).trans SameForm.self_iff
  congr_bare a b c same := by rw [← kept a, same, kept b]

theorem Field.same_eq (a b : Field) : a.same b = (a.name == b.name && a.value == b.value) := by
  cases a
  cases b
  rfl

/-- Records are compared by their class, their identity and their fields; whether they are embedded
is not looked at. -/
theorem Record.beq_eq (a b : Record) : (a == b) =
    (a.className == b.className && a.identity == b.identity && sameFields a.fields b.fields) := by
  cases a
  cases b
  rfl

/-- Fields are the same if their names and values are, pair by pair; what they are pinned to is not
looked at. -/
theorem sameFields_iff_forall₂ {as bs : List Field} : sameFields as bs = true ↔
    List.Forall₂ (fun a b => a.name = b.name ∧ (a.value == b.value) = true) as bs := by
  induction as generalizing bs with
  | nil =>
    cases bs with
    | nil => exact iff_of_true rfl .nil
    | cons b bs => exact iff_of_false Bool.false_ne_true nofun
  | cons a as ih =>
    cases bs with
    | nil => exact iff_of_false Bool.false_ne_true nofun
    | cons b bs =>
      rw [sameFields, a.same_eq b, List.forall₂_cons, Bool.and_eq_true, Bool.and_eq_true,
        beq_iff_eq, ih]

/-- **Equality is a partial equivalence,** on values and on records.  What is compared of two
records at the top is compared in just this way at every depth: class names, identities, and one
behind the other the names and the values of their fields. -/
theorem equality_isPartialEquivalence :
    IsPartialEquivalence Value.parts Value.bare ∧ IsPartialEquivalence Record.parts Record.bare ∧
    ∀ a b : Record, (a == b) = true ↔ a.className = b.className ∧ a.identity = b.identity ∧
      List.Forall₂ (fun a b => a.name = b.name ∧ (a.value == b.value) = true) a.fields b.fields := by
  refine ⟨.of_sameForm Value.same_iff Value.same_recast_kept,
    .of_sameForm Record.same_iff Record.same_recast_kept, fun a b => ?_⟩
  rw [a.beq_eq b, Bool.and_eq_true, Bool.and_eq_true, beq_iff_eq, beq_iff_eq, sameFields_iff_forall₂,
    and_assoc]

/-- Numbers are compared by what they are worth, and a NaN differs from itself at any depth. -/
example : (Value.float 0x80000000 == .float 0) = true ∧
    (Value.decimal ⟨10, 1⟩ == .decimal ⟨1, 0⟩) = true ∧
    (Value.embeddedList [.double 0x7FF8000000000000] == .embeddedList [.double 0x7FF8000000000000])
      = false := by
  decide

end DocumentCodec
