import DocumentCodec.Proofs.Resolution
/-!
# What encoders fail for

An encoder that is put together from others fails where one of them does, for the same reason and at
the same place: what was written before it stays, so the offset at which the encoding ends is that
of the failure.  `FailsOnly` keeps the two together, the reason and the offset; and since the offset
is absolute, it is the same for a part as for the whole, and nothing has to be shifted where parts
are put one behind the other.
-/

namespace DocumentCodec

namespace Encoder

variable {α β : Type}

/-- Where the encoder fails, wherever its bytes stand, the offset at which it ends and the reason
are known. -/
def FailsOnly (known : Nat → CodecError → Prop) (x : Encoder α) : Prop :=
  ∀ start earlier e, (x start earlier).result = .error e →
    known (start + (x start earlier).bytes.length) e

namespace FailsOnly

variable {known more : Nat → CodecError → Prop} {x : Encoder α} {f : α → Encoder β}

theorem mono (fails : FailsOnly known x) (among : ∀ last e, known last e → more last e) :
    FailsOnly more x :=
  fun start earlier e failed => among _ e (fails start earlier e failed)

/-! ## Sequences -/

theorem pure (a : α) : FailsOnly known (Pure.pure a : Encoder α) :=
  fun _ _ _ failed => nomatch failed

theorem emit (bytes : List UInt8) : FailsOnly known (Encoder.emit bytes) :=
  fun _ _ _ failed => nomatch failed

theorem position : FailsOnly known Encoder.position := fun _ _ _ failed => nomatch failed

/-- A failure at once is among the known ones. -/
theorem fail {e : CodecError} (is : ∀ last, known last e) :
    FailsOnly known (Encoder.fail e : Encoder α) := by
  intro start earlier e' failed
  cases failed
  exact is _

/-- Sequences: where the first part goes through, the second one ends where the whole does. -/
theorem bind (first : FailsOnly known x) (second : ∀ a, FailsOnly known (f a)) :
    FailsOnly known (x >>= f) := by
  intro start earlier e failed
  have own := first start earlier
  rcases run : x start earlier with ⟨bytes, calls, result⟩
  rw [run] at own
  cases result with
  | error e' =>
    rw [bind_of_error run] at failed ⊢
    cases failed
    exact own e rfl
  | ok a =>
    rw [bind_of_ok run] at failed ⊢
    have later := second a (start + bytes.length) (earlier ++ calls) e failed
    rw [List.length_append, ← Nat.add_assoc]
    exact later

/-- Elements one after the other. -/
theorem forM {write : α → Encoder Unit} (items : List α)
    (each : ∀ item ∈ items, FailsOnly known (write item)) :
    FailsOnly known (items.forM write) := by
  induction items with
  | nil => exact pure ()
  | cons item rest ih =>
    rw [forM_cons]
    exact (each item List.mem_cons_self).bind fun _ =>
      ih fun other there => each other (List.mem_cons_of_mem _ there)

/-! ## Links -/

section Links

variable {context : Context}
  (unresolved : ∀ last rid problem, known last (.linkResolutionFailure rid problem))
include unresolved

/-- A link fails for want of an identity only. -/
theorem link (target : LinkTarget) : FailsOnly known (Link.write context target) := by
  refine bind (fun start earlier e failed => ?_) fun rid => (emit _).bind fun _ => emit _
  rw [Link.resolve_eq] at failed
  have verdict : Link.verdict context earlier (some target) = .error e := failed
  obtain ⟨_, problem, -, rfl, -, -⟩ := Link.of_verdict_error verdict
  exact unresolved _ _ problem

theorem linkElement : ∀ item, FailsOnly known (Link.writeElement context item)
  | some target => link unresolved target
  | none => (emit _).bind fun _ => emit _

theorem links (items : List (Option LinkTarget)) :
    FailsOnly known (Encoding.writeLinks context items) :=
  (emit _).bind fun _ => forM items fun item _ => linkElement unresolved item

theorem linkMap (entries : List (String × Option LinkTarget)) :
    FailsOnly known (Encoding.writeLinkMap context entries) :=
  (emit _).bind fun _ => forM entries fun entry _ =>
    (emit _).bind fun _ => linkElement unresolved entry.2

end Links

/-! ## Tables

A table fails for one of its bodies, and what was written until then are the slots and the bodies
before it; so the offset is that of the failing body's end. -/

/-- A body for a slot fails as it is written, or because the slot cannot hold where it began; then
the encoding ends further on than a slot can point. -/
theorem slotBody {write : Encoder Unit} (written : FailsOnly known write) {field : String}
    {value : Value} (tag : TypeTag) (beyond : ∀ last, Slot.maxPointer < last →
      known last (.unsupportedValue field value.kind .beyondPointers)) :
    FailsOnly known (Encoder.position >>= fun start => write >>= fun _ =>
      Encoding.checkPointer field value start >>= fun _ => Pure.pure tag) := by
  intro start earlier e
  -- the place that is checked is where the body begins
  rw [position_bind]
  have own := written start earlier
  rcases run : write start earlier with ⟨bytes, calls, result⟩
  rw [run] at own
  cases result with
  | error e' =>
    rw [bind_of_error run]
    intro failed
    cases failed
    exact own e rfl
  | ok _ =>
    rw [bind_of_ok run]
    unfold Encoding.checkPointer
    by_cases far : Slot.maxPointer < start
    · rw [if_pos far]
      intro failed
      cases failed
      exact beyond _ (by omega)
    · rw [if_neg far]
      exact fun failed => nomatch failed

variable {write : BodyWriter}

/-- The body of a member fails for want of a tag, or as a body for a slot does. -/
theorem member {member : Member} {body : Encoder TypeTag}
    (there : (member.entry write).body = some body)
    (untyped : ∀ reason, member.tag = .error reason →
      ∀ last, known last (.unsupportedValue member.field member.value.kind reason))
    (written : ∀ tag, member.tag = .ok tag →
      FailsOnly known (write member.field tag member.linked member.value))
    (beyond : ∀ last, Slot.maxPointer < last →
      known last (.unsupportedValue member.field member.value.kind .beyondPointers)) :
    FailsOnly known body := by
  unfold Member.entry Encoding.writeSlotBody at there
  split at there
  · cases there
  · cases there
    cases chosen : member.tag with
    | error reason => exact position.bind fun _ => fail (untyped reason chosen)
    | ok tag => exact slotBody (written tag chosen) tag beyond

/-- Bodies one behind the other fail only as one of them does. -/
theorem bodies (members : List Member)
    (each : ∀ member ∈ members, ∀ body, (member.entry write).body = some body →
      FailsOnly known body) : ∀ (start : Nat) (earlier : List LinkTarget) (e : CodecError),
    let written := Bodies.write ((members.map (Member.entry write)).map (·.body)) start earlier
    written.result = .error e → known (start + written.bytes.length) e := by
  induction members with
  | nil => exact fun _ _ _ failed => nomatch failed
  | cons first rest ih =>
    have others := ih fun member inside => each member (List.mem_cons_of_mem _ inside)
    intro start earlier e
    rw [List.map_cons, List.map_cons]
    cases there : (first.entry write).body with
    -- a null value has no body, and the bodies behind it begin where it stands
    | none => exact others start earlier e
    | some body =>
      rw [Bodies.write]
      -- either this body fails, and none behind it is written, or one of those fails
      have own := each first List.mem_cons_self body there start earlier
      rcases run : body start earlier with ⟨bytes, calls, result⟩
      rw [run] at own
      cases result with
      | error e' =>
        intro _ failed
        cases failed
        exact own e rfl
      | ok tag =>
        intro written failed
        have later := others _ _ e failed
        show known (start + (bytes ++ _ : List UInt8).length) e
        rw [List.length_append, ← Nat.add_assoc]
        exact later

/-- A table fails only as one of its bodies does. -/
theorem table (head tail : List UInt8) (members : List Member)
    (each : ∀ member ∈ members, ∀ body, (member.entry write).body = some body →
      FailsOnly known body) :
    FailsOnly known (writeTable head (members.map (Member.entry write)) tail) := by
  intro start earlier e failed
  have later := bodies members each (start + (head.length
    + Entry.sizeAll (members.map (Member.entry write)) + tail.length)) earlier e failed
  show known (start + (_ ++ _ : List UInt8).length) e
  rw [List.length_append, List.length_append, List.length_append, Entry.length_encodeAll,
    ← Nat.add_assoc]
  exact later

end FailsOnly
end Encoder
end DocumentCodec
