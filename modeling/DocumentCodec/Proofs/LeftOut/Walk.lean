import DocumentCodec.Proofs.Layout
import DocumentCodec.Proofs.LeftOut.Repeats
/-!
# Walks over a header

A reader that walks over the header of a table needs the header itself and the bodies that it asks
for, and it spends its budget on these alone.  `Walk` says of such a walk, standing anywhere in the
header, that two inputs agree on what is still needed and that the budget allows all of it.  That is
said of the seats ahead only, so a walk behind its first seat is a walk again, whether the body of
that seat was read or stepped over.
-/

namespace DocumentCodec

/-! ## Seats ahead

Seats stand in the order of their slots and their bodies in the same order, so what is ahead of one
is behind all before it. -/

/-- How many bytes the body of a seat has. -/
def Seat.extent (seat : Seat) : Nat := (seat.body.map fun span => span.last - span.start).getD 0

/-- The slot of a seat that was written is inside the buffer. -/
theorem Seat.IsWritten.inside {write : BodyWriter} {buffer : List UInt8} {seat : Seat}
    (written : seat.IsWritten write buffer) :
    seat.slot + Slot.size seat.member.pinned ≤ buffer.length := by
  cases written with
  | written body positive filled there =>
    have bound := filled.bound
    rw [Slot.length_encode] at bound
    exact bound

/-- The labels and slots end behind where they begin. -/
theorem Seated.le {buffer : List UInt8} : ∀ {seats : List Seat} {here there : Nat},
    Seated buffer here seats there → here ≤ there := by
  intro seats
  induction seats with
  | nil => exact fun seated => Nat.le_of_eq seated
  | cons seat rest ih =>
    rintro here there ⟨-, slot, later⟩
    have behind := ih later
    omega

/-- Behind the body of a seat, if it has one, stand the bodies of the others. -/
theorem Consecutive.behind {seat : Seat} {rest : List Seat} {here there : Nat}
    (all : Consecutive here ((seat :: rest).filterMap (·.body)) there) :
    Consecutive (here + seat.extent) (rest.filterMap (·.body)) there := by
  rw [Seat.extent]
  cases body : seat.body with
  | none =>
    rw [List.filterMap_cons_none body] at all
    exact all
  | some span =>
    rw [List.filterMap_cons_some body] at all
    obtain ⟨rfl, some, later⟩ := all
    show Consecutive (span.start + (span.last - span.start)) _ _
    rwa [Nat.add_sub_of_le (Nat.le_of_lt some)]

/-! ## Walks

`Walk` is what has to be known before a seat for the seat to be passed, and it is known before the
next one again. -/

/-- What a walk over the header of a table needs to know, standing at `here` with `visited` bytes
handed out, before the bodies from `place` on: the seats were written, the inputs agree on the
header and on the bodies that are needed, and there is enough of the budget left, with `spare` bytes
more. -/
structure Walk (write : BodyWriter) (input other : List UInt8) (needed : Seat → Prop)
    (slotsEnd last spare : Nat) (seats : List Seat) (here place visited : Nat) : Prop where
  written : ∀ seat ∈ seats, seat.IsWritten write input
  seated : Seated input here seats slotsEnd
  bodies : Consecutive place (seats.filterMap (·.body)) last
  headed : AgreeOn input other here slotsEnd
  agree : ∀ seat ∈ seats, needed seat → ∀ span ∈ seat.body,
    AgreeOn input other span.start span.last
  room : visited + (slotsEnd - here) + (last - place) + spare ≤ input.length

namespace Walk

variable {write : BodyWriter} {input other : List UInt8} {needed : Seat → Prop}
  {slotsEnd last spare : Nat} {seat : Seat} {seats : List Seat} {here place visited : Nat}

/-- The label of the first seat stands where the walk does. -/
theorem label (walk : Walk write input other needed slotsEnd last spare (seat :: seats) here place
      visited) :
    Holds input here seat.member.label ∧
      AgreeOn input other here (here + seat.member.label.length) ∧
      visited + seat.member.label.length ≤ input.length := by
  obtain ⟨label, slot, seated⟩ := walk.seated
  have low := seated.le
  have room := walk.room
  exact ⟨label, walk.headed.mono (Nat.le_refl _) (by omega), by omega⟩

/-- The slot of the first seat stands behind its label. -/
theorem slot (walk : Walk write input other needed slotsEnd last spare (seat :: seats) here place
      visited) :
    seat.slot = here + seat.member.label.length ∧
      AgreeOn input other seat.slot (seat.slot + Slot.size seat.member.pinned) ∧
      visited + seat.member.label.length + Slot.size seat.member.pinned + seat.extent
        ≤ input.length := by
  obtain ⟨label, slot, seated⟩ := walk.seated
  have low := seated.le
  have high := walk.bodies.behind.le
  have room := walk.room
  exact ⟨slot, walk.headed.mono (by omega) low, by omega⟩

/-- Behind the first slot the walk goes on, whether its body was read or not. -/
theorem rest (walk : Walk write input other needed slotsEnd last spare (seat :: seats) here place
      visited) {spent : Nat} (few : spent ≤ seat.extent) :
    Walk write input other needed slotsEnd last spare seats
      (here + seat.member.label.length + Slot.size seat.member.pinned) (place + seat.extent)
      (visited + seat.member.label.length + Slot.size seat.member.pinned + spent) := by
  obtain ⟨label, slot, seated⟩ := walk.seated
  rw [slot] at seated
  -- the seats behind need less of the header and less of the budget
  have low := seated.le
  have high := walk.bodies.behind.le
  have room := walk.room
  exact {
    written := fun other there => walk.written other (List.mem_cons_of_mem _ there)
    seated := seated
    bodies := walk.bodies.behind
    headed := walk.headed.mono (by omega) (Nat.le_refl _)
    agree := fun other there => walk.agree other (List.mem_cons_of_mem _ there)
    room := by omega }

end Walk

/-- A walk over a whole table that was written. -/
theorem Region.walk {write : BodyWriter} {input other : List UInt8} {needed : Seat → Prop}
    {region : Region} {visited : Nat} (written : ∀ seat ∈ region.seats, seat.IsWritten write input)
    (laid : region.IsLaidOut input) (headed : AgreeOn input other region.start region.headerEnd)
    (agree : ∀ seat ∈ region.seats, needed seat → ∀ span ∈ seat.body,
      AgreeOn input other span.start span.last)
    (room : visited + (region.last - region.start) ≤ input.length) :
    Walk write input other needed region.slotsEnd region.last region.tail.length region.seats
      (region.start + region.head.length) region.headerEnd (visited + region.head.length) := by
  have low := laid.seats.le
  have high := laid.bodies.le
  have ends : region.headerEnd = region.slotsEnd + region.tail.length := rfl
  exact ⟨written, laid.seats, laid.bodies, headed.mono (by omega) (by omega), agree, by omega⟩

/-- Where the inputs agree on all of a table, they agree on what any walk over it needs. -/
theorem Region.walk_whole {write : BodyWriter} {input other : List UInt8} {region : Region}
    (needed : Seat → Prop) (visited : Nat)
    (written : ∀ seat ∈ region.seats, seat.IsWritten write input)
    (laid : region.IsLaidOut input) (agree : AgreeOn input other region.start region.last)
    (room : visited + (region.last - region.start) ≤ input.length) :
    Walk write input other needed region.slotsEnd region.last region.tail.length region.seats
      (region.start + region.head.length) region.headerEnd (visited + region.head.length) := by
  have low := laid.seats.le
  have high := laid.bodies.le
  have ends : region.headerEnd = region.slotsEnd + region.tail.length := rfl
  refine region.walk written laid (agree.mono (Nat.le_refl _) high) ?_ room
  intro seat there _ span body
  have within := laid.bodies.bounds (List.mem_filterMap.mpr ⟨seat, there, body⟩)
  exact agree.mono (by omega) within.2.2

end DocumentCodec
