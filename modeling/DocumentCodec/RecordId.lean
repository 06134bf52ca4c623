/-!
# Record identities

A stored record is addressed by a cluster and a position within the cluster.  The position says
what state the identity is in: `0` and above is persistent, `-1` was never assigned, and below
`-1`, in cluster `-1`, it is only known inside an uncommitted transaction.  One identity is set
aside to stand for "no link at all".
-/

namespace DocumentCodec

/-- The address of a record. -/
structure RecordId where
  cluster : Int32
  position : Int64
deriving DecidableEq, Repr

namespace RecordId

/-- The cluster of an identity that belongs to none. -/
def noCluster : Int32 := -1

/-- The position that was never assigned. -/
def noPosition : Int64 := -1

/-- The cluster of the identity that stands for no link. -/
def nullLinkCluster : Int32 := -2

/-- The identity of a record that was never stored. -/
def empty : RecordId := ⟨noCluster, noPosition⟩

/-- The identity written in place of an absent link. -/
def nullLink : RecordId := ⟨nullLinkCluster, noPosition⟩

instance : Inhabited RecordId := ⟨empty⟩

/-- A position was assigned, be it for a transaction only. -/
def isValid (rid : RecordId) : Bool := rid.position != noPosition

/-- The record was not stored yet. -/
def isNew (rid : RecordId) : Bool := rid.position.toInt < 0

/-- The identity is known only inside an uncommitted transaction. -/
def isTemporary (rid : RecordId) : Bool :=
  rid.cluster == noCluster && rid.position.toInt < noPosition.toInt

/-- The record is stored under this identity. -/
def isPersistent (rid : RecordId) : Bool := rid.isValid && !rid.isNew

/-- The identity stands for no link. -/
def isNullLink (rid : RecordId) : Bool := rid == nullLink

/-- The text of an identity. -/
def text (rid : RecordId) : String := s!"#{rid.cluster.toInt}:{rid.position.toInt}"

/-- Identities in order of cluster, then of position. -/
def compare (a b : RecordId) : Ordering :=
  (Ord.compare a.cluster.toInt b.cluster.toInt).then
    (Ord.compare a.position.toInt b.position.toInt)

/-! ## What the states mean -/

/-- A record is stored just if its position is not negative: -1 is none, and what is below is yet to
be assigned. -/
theorem isPersistent_iff (rid : RecordId) : rid.isPersistent = true ↔ 0 ≤ rid.position.toInt := by
  have minusOne : noPosition.toInt = -1 := by decide
  have valid : rid.position = noPosition → rid.position.toInt = -1 := fun h => h ▸ minusOne
  simp only [isPersistent, isValid, isNew, Bool.and_eq_true, bne_iff_ne, Bool.not_eq_true',
    decide_eq_false_iff_not, Int.not_lt]
  constructor
  · exact fun h => h.2
  · exact fun h => ⟨fun e => by have := valid e; omega, h⟩

theorem not_isPersistent_nullLink : nullLink.isPersistent = false := by decide

end RecordId
end DocumentCodec
