import DocumentCodec.Zone
import Mathlib.Algebra.Ring.Int.Defs
/-!
# Days of a zone

What is read back of an instant is the one at which its local day is said to begin, if there is one.
The zone is asked three times on the way from a day to the day of its beginning: for the instant,
for the universal midnight of the day's number, and for the instant at which the day begins.

With a fixed offset the three answers are the same, and so are the days, also where a sum stops at
an end of the instants.  With a zone that changes the second and the third answer may differ, and by
as many whole days as they do the day moves.
-/

namespace DocumentCodec.Zone

variable {zone : Zone} {millis : Int64}

/-- The first universal midnight that is a 64-bit instant. -/
def firstMidnight : Int := -106751991167 * millisPerDay

/-- A day has no midnight just if local time is before the first one. -/
theorem startOfDay?_dayNumber_eq_none : zone.startOfDay? (zone.dayNumber millis) = none ↔
    millis.toInt + (zone.offsetAt millis).toInt < firstMidnight := by
  rw [startOfDay?_eq_none, toInt_dayNumber, firstMidnight, millisPerDay]
  omega

/-- In universal time the instant at which a day begins lies in that day. -/
theorem dayNumber_of_startOfDay {day begins : Int64} (found : utc.startOfDay? day = some begins) :
    utc.dayNumber begins = day := by
  obtain ⟨⟨low, high⟩, rfl⟩ := startOfDay?_eq_some.mp found
  refine Int64.toInt_inj.mp ?_
  rw [toInt_dayNumber, Signed.toInt_saturate, offsetAt_utc, offsetAt_utc, Int64.toInt_zero]
  rw [millisPerDay] at low high ⊢
  omega

/-! ## A fixed offset

Where the offset does not change, the beginning of a day lies on that day, and no later than the
instant that the day was asked for. -/

section Fixed

variable {offset begins : Int64} (fixed : zone = Zone.fixed offset)
  (found : zone.startOfDay? (zone.dayNumber millis) = some begins)
include fixed found

/-- The instant at which a day begins, before the sum of it stops at an end of the instants. -/
theorem startOfDay_of_fixed :
    let midnight := (zone.dayNumber millis).toInt * millisPerDay
    Signed.Fits64 midnight ∧ begins.toInt = max (-9223372036854775808)
      (min (midnight - offset.toInt) 9223372036854775807) := by
  subst fixed
  obtain ⟨fits, rfl⟩ := startOfDay?_eq_some.mp found
  exact ⟨fits, Signed.toInt_saturate _⟩

/-- Where local time is ahead by a fixed amount, the instant at which a day is said to begin lies in
that day, even when either sum stops at an end of the instants. -/
theorem dayNumber_startOfDay : zone.dayNumber begins = zone.dayNumber millis := by
  obtain ⟨low, high⟩ := Signed.fits64_toInt millis
  obtain ⟨low', high'⟩ := Signed.fits64_toInt offset
  obtain ⟨⟨fits, fits'⟩, begun⟩ := startOfDay_of_fixed fixed found
  subst fixed
  refine Int64.toInt_inj.mp ?_
  rw [toInt_dayNumber, begun]
  rw [toInt_dayNumber, millisPerDay] at fits fits' ⊢
  simp only [offsetAt_fixed] at fits fits' ⊢
  omega

/-- It is no later than any instant of the day. -/
theorem startOfDay_le : begins.toInt ≤ millis.toInt := by
  obtain ⟨low, high⟩ := Signed.fits64_toInt millis
  obtain ⟨⟨fits, fits'⟩, begun⟩ := startOfDay_of_fixed fixed found
  subst fixed
  rw [begun]
  rw [toInt_dayNumber, offsetAt_fixed, millisPerDay] at fits fits' ⊢
  omega

/-- Where neither sum stops, it is the local midnight before the instant. -/
theorem startOfDay_midnight (near : Signed.Fits64 (millis.toInt + offset.toInt))
    (near' : Signed.Fits64 ((zone.dayNumber millis).toInt * millisPerDay - offset.toInt)) :
    millis.toInt < begins.toInt + millisPerDay ∧ millisPerDay ∣ begins.toInt + offset.toInt := by
  obtain ⟨-, begun⟩ := startOfDay_of_fixed fixed found
  subst fixed
  rw [toInt_dayNumber, offsetAt_fixed, millisPerDay] at near' begun
  rw [begun, millisPerDay]
  omega

end Fixed

/-! ## A zone that changes -/

/-- Local time is less than a day ahead of universal time, and less than a day behind. -/
def IsModerate (zone : Zone) : Prop :=
  ∀ instant, -millisPerDay < (zone.offsetAt instant).toInt ∧
    (zone.offsetAt instant).toInt < millisPerDay

/-- Away from the ends of the instants every day begins, and the day of the instant at which it is
said to begin is off by the whole days between two answers of the zone. -/
theorem IsModerate.startOfDay (moderate : zone.IsModerate) (low : -2 ^ 62 ≤ millis.toInt)
    (high : millis.toInt ≤ 2 ^ 62) : ∃ midnight begins : Int64,
      midnight.toInt = (zone.dayNumber millis).toInt * millisPerDay ∧
      zone.startOfDay? (zone.dayNumber millis) = some begins ∧
      (zone.dayNumber begins).toInt = (zone.dayNumber millis).toInt
        + ((zone.offsetAt begins).toInt - (zone.offsetAt midnight).toInt) / millisPerDay := by
  obtain ⟨behind, ahead⟩ := moderate millis
  have day := zone.toInt_dayNumber millis
  have fits : Signed.Fits64 ((zone.dayNumber millis).toInt * millisPerDay) := by
    rw [day]
    rw [millisPerDay] at behind ahead ⊢
    constructor <;> omega
  -- midnight as if the zone had no offset, which the offset there then corrects
  obtain ⟨midnight, same⟩ : ∃ midnight, midnight = Int64.ofInt ((zone.dayNumber millis).toInt
    * millisPerDay) := ⟨_, rfl⟩
  have whole : midnight.toInt = (zone.dayNumber millis).toInt * millisPerDay := by
    rw [same, Signed.toInt_ofInt fits]
  obtain ⟨behind', ahead'⟩ := moderate midnight
  obtain ⟨begins, starts⟩ : ∃ begins, begins = Signed.saturate (midnight.toInt
    - (zone.offsetAt midnight).toInt) := ⟨_, rfl⟩
  -- no sum stops so far from the ends
  have begun : begins.toInt = midnight.toInt - (zone.offsetAt midnight).toInt := by
    rw [starts, Signed.toInt_saturate, whole, day]
    rw [millisPerDay] at *
    omega
  obtain ⟨behind'', ahead''⟩ := moderate begins
  refine ⟨midnight, begins, whole, ?_, ?_⟩
  · rw [startOfDay?_eq_some, ← same, ← whole]
    exact ⟨whole ▸ fits, starts⟩
  · rw [toInt_dayNumber, begun, whole, day]
    rw [millisPerDay] at *
    omega

end DocumentCodec.Zone
