import DocumentCodec.Proofs.Headings
import DocumentCodec.Proofs.Writing
import DocumentCodec.Proofs.Zone
/-!
# Days

A date is stored as the number of its local day, and what is read back is the instant at which that
day is said to begin.  What the zone answers on the way is arithmetic; here it is said of the bytes
that are written, of what is read from them, and of the bytes that are written for that.
-/

namespace DocumentCodec

/-! ## Days that are written and read -/

/-- Wherever it stands and however deep, the value is written as the day of that number. -/
def Encoding.WritesDay (context : Context) (value : Value) (day : Int64) : Prop :=
  ∀ (room : Nat) (field : String) (linked : Option TypeTag) (start : Nat),
    Encoder.Writes (writeBody context room field .date linked value) start (Varint.encodeSigned day)

/-- Wherever it stands and however deep, the day of that number is read as the instant. -/
def Decoding.ReadsDay (context : Context) (day begins : Int64) : Prop :=
  ∀ (input : List UInt8) (room place : Nat),
    ReadsBack True Failure.Unsaid input (readBody context input room .date) place
      (Varint.encodeSigned day)
      (· = .date begins)

open Encoding Decoding

variable {context : Context} {value : Value} {millis day begins : Int64}

/-- Every value that counts milliseconds is written as its local day. -/
theorem Encoding.writesDay (instant : value.millis? = some millis) :
    WritesDay context value (context.options.zone.dayNumber millis) := by
  intro room field linked start earlier
  rw [writeBody_flat rfl]
  cases value with
  | date v => cases instant; rfl
  | dateTime v => cases instant; rfl
  | long v => cases instant; rfl
  | _ => cases instant

/-- A day number that the zone has a start for is read as that start. -/
theorem Decoding.readsDay (found : context.options.zone.startOfDay? day = some begins) :
    ReadsDay context day begins := by
  intro input room place
  rw [readBody_flat context input rfl]
  refine .offset_bind ((ReadsBack.signedVarint day).check fun read same => ?_)
  subst same
  rw [found]
  exact .pure rfl

/-- A day that was read begins with the instant that the zone says. -/
theorem Decoding.startOfDay_of_readBody {input : List UInt8} {room : Nat} {here there : Cursor}
    {made : Value} (holds : Holds input here.position (Varint.encodeSigned day))
    (run : readBody context input room .date here = .ok made there) :
    there.position = here.position + (Varint.encodeSigned day).length ∧
      ∃ begins, context.options.zone.startOfDay? day = some begins ∧ made = .date begins := by
  have back : ReadsBack False Failure.Unsaid input (readDate context input) here.position
      (Varint.encodeSigned day) fun made =>
        ∃ begins, context.options.zone.startOfDay? day = some begins ∧ made = .date begins := by
    refine .offset_bind ((ReadsBack.signedVarint day).check fun read same => ?_)
    subst same
    cases found : context.options.zone.startOfDay? read with
    | none => exact fun _ _ _ => ⟨id, Or.inl rfl⟩
    | some begins => exact .pure ⟨begins, rfl, rfl⟩
  rw [readBody_flat context input rfl] at run
  exact back.of_ok (metered_date 0 0) holds run

/-! ## Days under a fixed offset

The three answers of the zone are the same, so a day comes back as itself, even where a sum stops at
an end of the instants. -/

/-- **Under a fixed offset a date is the local midnight of its instant.**  Whatever of the three
kinds the instant has, it is written as the number of its local day.  If that is read back at all,
the answer is written as the same day again and is no later than the instant; and unless a sum stops
at an end of the instants, the answer is a whole number of local days, and the instant is less than
a day behind. -/
theorem midnight_of_fixed {offset : Int64} (fixed : context.options.zone = Zone.fixed offset)
    (instant : value.millis? = some millis) :
    let day := context.options.zone.dayNumber millis
    WritesDay context value day ∧ ∀ {input : List UInt8} {room : Nat} {here there : Cursor}
      {made : Value}, Holds input here.position (Varint.encodeSigned day) →
      readBody context input room .date here = .ok made there → ∃ begins, made = .date begins ∧
        there.position = here.position + (Varint.encodeSigned day).length ∧
        (∀ again : Value, again.millis? = some begins → WritesDay context again day) ∧
        begins.toInt ≤ millis.toInt ∧
        (Signed.Fits64 (millis.toInt + offset.toInt) →
          Signed.Fits64 (day.toInt * Zone.millisPerDay - offset.toInt) →
          millis.toInt < begins.toInt + Zone.millisPerDay ∧
            Zone.millisPerDay ∣ begins.toInt + offset.toInt) := by
  intro day
  refine ⟨writesDay instant, fun holds run => ?_⟩
  obtain ⟨place, begins, found, rfl⟩ := startOfDay_of_readBody holds run
  refine ⟨begins, rfl, place, fun again instant' => ?_, Zone.startOfDay_le fixed found,
    Zone.startOfDay_midnight fixed found⟩
  have same : context.options.zone.dayNumber begins = day := Zone.dayNumber_startOfDay fixed found
  rw [← same]
  exact writesDay instant'

/-- Five hours behind, the last millisecond before the epoch lies in the day that began nineteen
hours before the epoch. -/
theorem midnight_of_evening :
    let context : Context := { options := { zone := .ofHours (-5) } }
    let bytes : List UInt8 := [255, 255, 255, 255, 255, 255, 255, 255, 255, 1]
    WritesDay context (.long (-1)) (-1) ∧
      readBody context bytes 0 .date ⟨0, 0⟩ = .ok (.date (-68400000)) ⟨10, 10⟩ ∧
      WritesDay context (.date (-68400000)) (-1) ∧
      (-1 : Int) < -68400000 + Zone.millisPerDay ∧ Zone.millisPerDay ∣ -68400000 + -18000000 := by
  intro context bytes
  have fixed : context.options.zone = Zone.fixed (-18000000) := rfl
  have run : readBody context bytes 0 .date ⟨0, 0⟩ = .ok (.date (-68400000)) ⟨10, 10⟩ := by
    subst context bytes
    rfl
  have instant : (Value.long (-1)).millis? = some (-1) := rfl
  have day : context.options.zone.dayNumber (-1) = -1 := by decide
  have holds : Holds bytes 0 (Varint.encodeSigned (-1)) := Holds.whole bytes
  obtain ⟨written, back⟩ := midnight_of_fixed fixed instant
  rw [day] at written back
  obtain ⟨begins, same, -, again, -, near⟩ := back holds run
  cases same
  obtain ⟨late, whole⟩ := near (by decide) (by decide)
  exact ⟨written, run, again _ rfl, late, whole⟩

/-! ## Days under a zone that changes

The second answer of the zone and the third may differ, so the day that is written again may be
another one; it is by how many days the offset has changed. -/

/-- **How far a day moves when it is read and written again.**  Away from the ends of the instants,
and where local time is less than a day ahead or behind, every date comes back; and it is written
again as a day that is off by the whole days from what the zone says of the universal midnight to
what it says of the instant that came back.  So the day stays just if the second answer is not below
the first, and less than a day above it. -/
theorem day_again (moderate : context.options.zone.IsModerate) (low : -2 ^ 62 ≤ millis.toInt)
    (high : millis.toInt ≤ 2 ^ 62) (instant : value.millis? = some millis) :
    let zone := context.options.zone
    let day := zone.dayNumber millis
    ∃ midnight begins again : Int64, midnight.toInt = day.toInt * Zone.millisPerDay ∧
      WritesDay context value day ∧ ReadsDay context day begins ∧
      WritesDay context (.date begins) again ∧
      again.toInt = day.toInt + ((zone.offsetAt begins).toInt - (zone.offsetAt midnight).toInt)
        / Zone.millisPerDay ∧
      (again = day ↔ (zone.offsetAt midnight).toInt ≤ (zone.offsetAt begins).toInt ∧
        (zone.offsetAt begins).toInt < (zone.offsetAt midnight).toInt + Zone.millisPerDay) := by
  obtain ⟨midnight, begins, whole, found, moved⟩ := moderate.startOfDay low high
  refine ⟨midnight, begins, _, whole, writesDay instant, readsDay found, writesDay rfl, moved, ?_⟩
  rw [← Int64.toInt_inj, moved, Zone.millisPerDay]
  omega

/-- A zone that goes an hour ahead at the epoch. -/
def Zone.aheadFromEpoch : Zone := ⟨fun instant => if instant < 0 then 0 else 3600000⟩

/-- Both offsets of this zone are within a day. -/
theorem Zone.isModerate_aheadFromEpoch : aheadFromEpoch.IsModerate := by
  intro instant
  rw [aheadFromEpoch, millisPerDay]
  dsimp only
  split <;> decide

/-- In the zone that goes ahead at the epoch, the day of the epoch is written again as the day
before: what was read back as its beginning lies before the zone goes ahead. -/
theorem day_again_aheadFromEpoch :
    let context : Context := { options := { zone := .aheadFromEpoch } }
    ∃ midnight begins again : Int64, midnight.toInt = 0 ∧ WritesDay context (.date 0) 0 ∧
      ReadsDay context 0 begins ∧ WritesDay context (.date begins) again ∧ again.toInt = 0
        + ((Zone.aheadFromEpoch.offsetAt begins).toInt
          - (Zone.aheadFromEpoch.offsetAt midnight).toInt) / Zone.millisPerDay := by
  intro context
  have moderate : context.options.zone.IsModerate := Zone.isModerate_aheadFromEpoch
  have instant : (Value.date 0).millis? = some 0 := rfl
  have day : context.options.zone.dayNumber 0 = 0 := by decide
  obtain ⟨midnight, begins, again, whole, written, back, moved, days, -⟩ :=
    day_again moderate (by decide) (by decide) instant
  rw [day] at whole written back days
  exact ⟨midnight, begins, again, whole, written, back, moved, days⟩

/-- A day need not stay: local time is less than a day ahead, the epoch is far from the ends of the
instants, and the day that was written for it is not the one that is written again. -/
theorem day_moves :
    let context : Context := { options := { zone := .aheadFromEpoch } }
    context.options.zone.IsModerate ∧ WritesDay context (.date 0) 0 ∧
      ReadsDay context 0 (-3600000) ∧ WritesDay context (.date (-3600000)) (-1) ∧
      ¬WritesDay context (.date (-3600000)) 0 := by
  intro context
  have written : WritesDay context (.date 0) _ := writesDay rfl
  have moved : WritesDay context (.date (-3600000)) _ := writesDay rfl
  rw [show context.options.zone.dayNumber 0 = 0 by decide] at written
  rw [show context.options.zone.dayNumber (-3600000) = -1 by decide] at moved
  have back : ReadsDay context 0 (-3600000) := readsDay (by decide)
  refine ⟨Zone.isModerate_aheadFromEpoch, written, back, moved, fun stays => ?_⟩
  have other := (moved 0 "" none 0 []).symm.trans (stays 0 "" none 0 [])
  exact absurd (congrArg Emission.bytes other) (by decide)

end DocumentCodec
