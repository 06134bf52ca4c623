import DocumentCodec.Number.Signed
/-!
# Time zones and days

An instant is a count of milliseconds since the epoch, and a zone says by how many milliseconds
local time is ahead of it at each instant.  A date is stored as the number of its local day, so
what is read back is the midnight with which that day begins.

Sums of an instant and an offset stop at the ends of the signed 64-bit words instead of wrapping.
-/

namespace DocumentCodec

/-- A time zone: the offset of local time, in milliseconds, at each instant. -/
structure Zone where
  offsetAt : Int64 → Int64

namespace Zone

/-- Local time is universal time. -/
def utc : Zone := ⟨fun _ => 0⟩

/-- Local time is ahead by the same number of milliseconds at every instant. -/
def fixed (millis : Int64) : Zone := ⟨fun _ => millis⟩

/-- A fixed offset in minutes. -/
def ofMinutes (minutes : Int64) : Zone := fixed (minutes * 60000)

/-- A fixed offset in hours. -/
def ofHours (hours : Int64) : Zone := ofMinutes (hours * 60)

/-- The milliseconds of a day. -/
def millisPerDay : Int := 86400000

/-- The number of the local day of an instant; days before the epoch are negative. -/
def dayNumber (zone : Zone) (millis : Int64) : Int64 :=
  let localMillis := Signed.saturate (millis.toInt + (zone.offsetAt millis).toInt)
  Int64.ofInt (localMillis.toInt / millisPerDay)

/-- The instant at which a local day begins, by the offset that holds at the universal midnight of
the same number; `none` if that midnight is no 64-bit instant. -/
def startOfDay? (zone : Zone) (day : Int64) : Option Int64 :=
  let midnight := day.toInt * millisPerDay
  if Signed.Fits64 midnight then
    some (Signed.saturate (midnight - (zone.offsetAt (Int64.ofInt midnight)).toInt))
  else none

/-! ## Small lemmas -/

@[simp] theorem offsetAt_fixed (millis instant : Int64) : (fixed millis).offsetAt instant = millis :=
  rfl

@[simp] theorem offsetAt_utc (instant : Int64) : utc.offsetAt instant = 0 := rfl

variable (zone : Zone)

/-- The number of a day has room in its word, for it is that of a 64-bit instant. -/
theorem toInt_dayNumber (millis : Int64) : (zone.dayNumber millis).toInt
    = max (-9223372036854775808) (min (millis.toInt + (zone.offsetAt millis).toInt)
        9223372036854775807) / millisPerDay := by
  rw [dayNumber, Signed.toInt_saturate]
  refine Signed.toInt_ofInt ?_
  rw [millisPerDay]
  constructor <;> omega

variable {zone} {day begins : Int64}

theorem startOfDay?_eq_some : zone.startOfDay? day = some begins ↔
    Signed.Fits64 (day.toInt * millisPerDay) ∧ begins = Signed.saturate
      (day.toInt * millisPerDay - (zone.offsetAt (Int64.ofInt (day.toInt * millisPerDay))).toInt) := by
  rw [startOfDay?, Option.ite_none_right_eq_some, Option.some.injEq, eq_comm]

theorem startOfDay?_eq_none :
    zone.startOfDay? day = none ↔ ¬Signed.Fits64 (day.toInt * millisPerDay) := by
  rw [startOfDay?, ite_eq_right_iff]
  exact ⟨fun absent fits => (by cases absent fits), fun wide fits => absurd fits wide⟩

end Zone
end DocumentCodec
