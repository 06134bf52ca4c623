import DocumentCodec.Proofs.Members
/-!
# Writing without asking

An encoder that has no need of the resolver writes the same bytes at an offset whatever the resolver
was asked for before.  `Writes` says which bytes; it is closed under the ways in which encoders are
put together, and so it is for tables, given what is written for each of the members.
-/

namespace DocumentCodec

namespace Encoder

/-- At an offset the encoder writes these bytes, and does not ask the resolver. -/
def Writes (write : Encoder Unit) (start : Nat) (bytes : List UInt8) : Prop :=
  ∀ earlier, write start earlier = ⟨bytes, [], .ok ()⟩

namespace Writes

variable {write next : Encoder Unit} {start : Nat} {bytes more : List UInt8}

theorem emit (bytes : List UInt8) : Writes (Encoder.emit bytes) start bytes := fun _ => rfl

/-- Bytes written one after the other. -/
theorem bind (first : Writes write start bytes)
    (second : Writes next (start + bytes.length) more) :
    Writes (write >>= fun _ => next) start (bytes ++ more) := by
  intro earlier
  have second := second (earlier ++ [])
  exact bind_eq_ok.mpr ⟨_, _, _, _, _, first earlier, second, rfl, rfl⟩

/-- A sequence over a list writes what the first element's encoder writes and then the rest. -/
theorem cons {α : Type} {f : α → Encoder Unit} {a : α} {rest : List α}
    (first : Writes (f a) start bytes) (later : Writes (rest.forM f) (start + bytes.length) more) :
    Writes ((a :: rest).forM f) start (bytes ++ more) := by
  rw [forM_cons]
  exact first.bind later

/-- Encoders that write the same wherever they stand, one behind the other. -/
theorem forM {α : Type} {f : α → Encoder Unit} {spell : α → List UInt8} : ∀ (items : List α)
    (start : Nat), (∀ item ∈ items, ∀ start, Writes (f item) start (spell item)) →
    Writes (items.forM f) start (items.flatMap spell) := by
  intro items
  induction items with
  | nil =>
    intro start each
    exact fun _ => rfl
  | cons item rest ih =>
    intro start each
    rw [List.flatMap_cons]
    exact cons (each item List.mem_cons_self start)
      (ih _ fun other there => each other (List.mem_cons_of_mem _ there))

end Writes
end Encoder

/-! ## Bodies without bodies inside

What is written of a link asks for nothing if its identity is known, so its bytes are the same
everywhere. -/

namespace Link

variable {context : Context} {start : Nat}

/-- A link for which the resolver is not asked is written as the identity that it is given. -/
theorem writes_of_resolved {target : LinkTarget} {rid : RecordId}
    (resolved : ∀ earlier, resolve context target start earlier = ⟨[], [], .ok rid⟩) :
    Encoder.Writes (write context target) start (idBytes rid) := by
  intro earlier
  exact Encoder.bind_eq_ok.mpr ⟨rid, [], [], _, [], resolved earlier, rfl, rfl, rfl⟩

/-- An identity that needs no resolver is written as it is. -/
theorem writes_identity {rid : RecordId} (settled : isPending rid = false) :
    Encoder.Writes (write context (.identity rid)) start (idBytes rid) := by
  refine writes_of_resolved fun earlier => ?_
  rw [resolve]
  show (if isPending rid = true then _ else _) = _
  rw [if_neg (Bool.eq_false_iff.mp settled)]
  rfl

end Link

namespace Encoding

variable {field : String} {start : Nat}

/-- An integer that fits a tag is written under it, whatever its width. -/
theorem writes_integer {tag : TypeTag} {value : Value} {v : Int64} (number : value.int64? = some v)
    (fits : inRange tag v = true) :
    Encoder.Writes (writeInteger field tag value) start (Varint.encodeSigned v) := by
  intro earlier
  rw [writeInteger, number]
  show (if inRange tag v = true then _ else _ : Encoder Unit) start earlier = _
  rw [if_pos fits]
  rfl

/-- A decimal is written if its scale and the length of its unscaled part are signed 32-bit
words. -/
theorem writes_decimal {number : Decimal} (scaled : Signed.Fits32 number.scale.toInt)
    (long : (BigEndian.encodeSigned number.unscaled).length < 2 ^ 31) :
    Encoder.Writes (writeDecimal field number) start
      (BigEndian.encode32 number.scale.toInt32.toUInt32
        ++ BigEndian.encode 4 (BigEndian.encodeSigned number.unscaled).length
        ++ BigEndian.encodeSigned number.unscaled) := by
  intro earlier
  have long : Signed.Fits32 (BigEndian.encodeSigned number.unscaled).length := by omega
  unfold writeDecimal
  rw [if_neg (not_not_intro scaled), if_neg (not_not_intro long)]
  rfl

/-- An element is written behind its tag. -/
theorem writes_item {write : BodyWriter} {linked : Option TypeTag} {item : Value} {chosen : TypeTag}
    {bytes : List UInt8} (notNull : item.isNull = false)
    (typed : (linked <|> item.naturalTag) = some chosen)
    (written : Encoder.Writes (write field chosen none item) (start + 1) bytes) :
    Encoder.Writes (writeItem write field linked item) start (chosen.id :: bytes) := by
  rw [writeItem, if_neg (Bool.eq_false_iff.mp notNull), typed]
  have first : Encoder.Writes (Encoder.byte chosen.id) start [chosen.id] := .emit _
  exact first.bind written

/-- Elements none of which is left out are written behind their number. -/
theorem writes_items {write : BodyWriter} {linked : Option TypeTag} {items : List Value}
    {bytes : List UInt8} (kept : ∀ item ∈ items, item.isTransient = false)
    (written : Encoder.Writes (items.forM (writeItem write field (linked.filter (·.isConcrete))))
      (start + (Varint.encode (UInt64.ofNat items.length)).length + 1) bytes) :
    Encoder.Writes (writeItems write field linked items) start
      (Varint.encode (UInt64.ofNat items.length) ++ TypeTag.any.id :: bytes) := by
  have all : items.filter (!·.isTransient) = items :=
    List.filter_eq_self.mpr fun item there => by rw [kept item there]; rfl
  rw [writeItems, all]
  have second : Encoder.Writes (Encoder.byte TypeTag.any.id)
      (start + (Varint.encode (UInt64.ofNat items.length)).length) [TypeTag.any.id] := .emit _
  exact (Encoder.Writes.emit _).bind (second.bind written)

end Encoding

/-! ## Tables -/

namespace Member

/-- A slot's body is written at a place without asking the resolver. -/
def Fills (write : BodyWriter) (member : Member) (place : Nat) (filling : Option Filling)
    (bytes : List UInt8) : Prop :=
  ∀ earlier, SlotBody member.value member.tag
    (fun tag => write member.field tag member.linked member.value) place earlier filling bytes []

variable {write : BodyWriter} {member : Member} {place : Nat}

theorem Fills.null (isNull : member.value.isNull = true) : Fills write member place none [] :=
  fun _ => .null isNull

/-- A slot is filled with the place of its body and the tag it is written under. -/
theorem Fills.body {chosen : TypeTag} {bytes : List UInt8} (notNull : member.value.isNull = false)
    (choice : member.tag = .ok chosen)
    (written : Encoder.Writes (write member.field chosen member.linked member.value) place bytes)
    (reached : place ≤ Slot.maxPointer) :
    Fills write member place (some ⟨place, chosen⟩) bytes :=
  fun earlier => .body notNull choice (written earlier) reached

/-- The bodies of the members of a table, one behind the other. -/
def FillAll (write : BodyWriter) (members : List Member) (place : Nat)
    (fillings : List (Option Filling)) (bytes : List UInt8) : Prop :=
  ∀ earlier, Bodies.write ((members.map (entry write)).map (·.body)) place earlier
    = ⟨fillings, bytes, [], .ok ()⟩

theorem FillAll.nil : FillAll write [] place [] [] := fun _ => rfl

/-- Slots are filled in order, each with a body that begins where the last one ended. -/
theorem FillAll.cons {rest : List Member} {filling : Option Filling}
    {fillings : List (Option Filling)} {bytes more : List UInt8}
    (first : Fills write member place filling bytes)
    (later : FillAll write rest (place + bytes.length) fillings more) :
    FillAll write (member :: rest) place (filling :: fillings) (bytes ++ more) := by
  intro earlier
  exact (first earlier).write_cons (later (earlier ++ []))

end Member

namespace Encoding

variable {context : Context} {write : BodyWriter} {start : Nat}
  {fillings : List (Option Filling)} {bodies : List UInt8}

/-- A record is written if the bodies of its members are, behind the header. -/
theorem writes_record {record : Record}
    (filled : Member.FillAll write (recordMembers context record)
      (start + ((recordHead record).length + (Entry.encodeAll ((recordMembers context record).map
        (Member.entry write)) fillings).length + (Varint.encode headerEnd).length))
      fillings bodies) :
    Encoder.Writes (writeRecord context write record) start
      (recordHead record
        ++ Entry.encodeAll ((recordMembers context record).map (Member.entry write)) fillings
        ++ Varint.encode headerEnd ++ bodies) := by
  intro earlier
  rw [writeRecord_eq]
  exact writeTable_of_bodies (filled earlier)

/-- A map is written as the number of its members, its slots, and the bodies behind them. -/
theorem writes_map {field : String} {pairs : List (String × Value)}
    (filled : Member.FillAll write (mapMembers field pairs)
      (start + ((mapHead pairs).length + (Entry.encodeAll ((mapMembers field pairs).map
        (Member.entry write)) fillings).length + 0)) fillings bodies) :
    Encoder.Writes (writeMap write field pairs) start
      (mapHead pairs
        ++ Entry.encodeAll ((mapMembers field pairs).map (Member.entry write)) fillings
        ++ [] ++ bodies) := by
  intro earlier
  rw [writeMap_eq]
  have table : writeTable _ _ [] _ _ = _ := writeTable_of_bodies (filled earlier)
  exact table

end Encoding
end DocumentCodec
