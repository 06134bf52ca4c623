import DocumentCodec.Proofs.Resolution
/-!
# The identities that are stored

An encoding that goes through stores one identity for each link.  Without a proxy it is persistent,
or it stands for no link, or it is an answer that the resolver gave for a pending target.  The
answer is only looked at for being assigned: an identity that is known inside a transaction alone is
stored like any other.

`Stores` says which identities are stored for events none of which fails, and `Stand` where.
-/

namespace DocumentCodec

/-! ## The verdict of one link -/

/-- Without a proxy, an identity that is stored was settled before or is an answer of the
resolver. -/
theorem Link.of_verdict_ok {context : Context} {asked : List LinkTarget}
    {item : Option LinkTarget} {rid : RecordId} (plain : context.options.proxyStorage = false)
    (given : verdict context asked item = .ok rid) :
    isPending rid = false ∨ ∃ resolve target, context.resolver = some resolve ∧
      item = some target ∧ isPending target.rid = true ∧ resolve asked target = .ok rid ∧
      rid.isValid = true ∧ asks context item = [target] := by
  cases item with
  | none =>
    -- the identity of the null link counts as settled
    obtain rfl : RecordId.nullLink = rid := by simpa [verdict] using given
    exact Or.inl (by decide)
  | some target =>
    by_cases settled : (target.rid.isPersistent || target.rid.isNullLink) = true
    · obtain rfl : target.rid = rid := by simpa [verdict, settled] using given
      exact Or.inl (by simp [isPending_eq, settled])
    · have pending : isPending target.rid = true := by simpa [isPending_eq] using settled
      simp only [verdict, settled, plain, Bool.false_eq_true, if_false] at given
      cases there : context.resolver with
      | none => simp [there] at given
      | some resolve =>
        simp only [there] at given
        cases answered : resolve asked target with
        | error cause => simp [answered] at given
        | ok answer =>
          by_cases valid : answer.position = RecordId.noPosition
          · simp [answered, valid] at given
          · obtain rfl : answer = rid := by simpa [answered, valid] using given
            refine Or.inr ⟨resolve, target, rfl, rfl, pending, answered, ?_, ?_⟩
            · simp [RecordId.isValid, valid]
            · simp [asks, settled, there]

/-- The identity of a verdict is the one that stands for the target when it is read back. -/
theorem Link.stored_of_verdict {context : Context} {asked : List LinkTarget} {target : LinkTarget}
    {rid : RecordId} (given : verdict context asked (some target) = .ok rid) :
    target.stored context asked = (rid, asked ++ asks context (some target)) := by
  have resolved := resolve_eq context target 0 asked
  rw [given] at resolved
  exact (resolve_eq_ok resolved).2

/-! ## Events that all go well

An encoding that went through has an identity for every link, and each of them was stored or
resolved on the way.  The identities stand in the bytes in the order of the links. -/

/-- None of the events fails when the resolver was asked for `earlier` before: `rids` are stored for
the links in turn, and behind them it was asked for `last`. -/
inductive Stores (context : Context) :
    (earlier : List LinkTarget) → List Event → (rids : List RecordId) → (last : List LinkTarget) →
    Prop where
  | nil {earlier} : Stores context earlier [] [] earlier
  | link {earlier item rest rid rids last} (verdict : Link.verdict context earlier item = .ok rid)
      (later : Stores context (earlier ++ Link.asks context item) rest rids last) :
      Stores context earlier (.link item :: rest) (rid :: rids) last
  | reach {earlier field kind rest rids last} (later : Stores context earlier rest rids last) :
      Stores context earlier (.reach field kind :: rest) rids last

/-- From `here` on the identities stand in the buffer, in turn. -/
def Stand (buffer : List UInt8) : (here : Nat) → List RecordId → Prop
  | _, [] => True
  | here, rid :: rest => ∃ place, here ≤ place ∧ Holds buffer place (Link.idBytes rid) ∧
      Stand buffer (place + (Link.idBytes rid).length) rest

namespace Stores

variable {context : Context} {earlier last : List LinkTarget} {events more : List Event}
  {rids : List RecordId}

/-- Where an encoding goes through, it stores an identity for each link, and there they stand. -/
theorem of_runs {buffer : List UInt8} {here there : Nat} {calls : List LinkTarget}
    (runs : Runs context buffer here earlier events calls there (.ok ())) :
    ∃ rids, Stores context earlier events rids (earlier ++ calls) ∧ Stand buffer here rids := by
  generalize good : (Except.ok () : Except CodecError Unit) = outcome at runs
  induction runs with
  | done _ =>
    rw [List.append_nil]
    exact ⟨[], nil, trivial⟩
  | @stored _ _ _ _ _ _ _ rid place verdict forward stands _ ih =>
    obtain ⟨rids, stores, others⟩ := ih good
    rw [List.append_assoc] at stores
    exact ⟨rid :: rids, link verdict stores, place, forward, stands, others⟩
  | reached _ ih =>
    obtain ⟨rids, stores, stand⟩ := ih good
    exact ⟨rids, reach stores, stand⟩
  | unresolved _ | refused | tooDeep | beyond _ => cases good

/-- What the resolver was asked for stays asked. -/
theorem earlier_isPrefix (stores : Stores context earlier events rids last) : earlier <+: last := by
  induction stores with
  | nil => exact List.prefix_rfl
  | link _ _ ih => exact (List.prefix_append _ _).trans ih
  | reach _ ih => exact ih

/-- **Where an identity comes from**: without a proxy each one is settled, or the resolver gave it
for a target that it was asked for in between. -/
theorem origin (plain : context.options.proxyStorage = false)
    (stores : Stores context earlier events rids last) : ∀ rid ∈ rids,
    Link.isPending rid = false ∨ ∃ resolve asked target, context.resolver = some resolve ∧
      earlier <+: asked ∧ asked ++ [target] <+: last ∧ some target ∈ Event.links events ∧
      Link.isPending target.rid = true ∧ resolve asked target = .ok rid ∧ rid.isValid = true := by
  induction stores with
  | nil => simp
  | @link earlier item rest first rids last verdict later ih =>
    intro rid there
    rcases List.mem_cons.mp there with rfl | inside
    · -- the first identity: it was asked for here, with all that was asked before
      rcases Link.of_verdict_ok plain verdict with settled | ⟨resolve, target, known, rfl, pending,
        answered, valid, asks⟩
      · exact Or.inl settled
      · have asked := later.earlier_isPrefix
        rw [asks] at asked
        exact Or.inr ⟨resolve, earlier, target, known, List.prefix_rfl, asked, List.mem_cons_self,
          pending, answered, valid⟩
    · -- one of the later ones: whatever was asked before it was asked from the start
      rcases ih rid inside with settled | ⟨resolve, asked, target, known, behind, before, linked,
        others⟩
      · exact Or.inl settled
      · exact Or.inr ⟨resolve, asked, target, known, (List.prefix_append _ _).trans behind, before,
          List.mem_cons_of_mem _ linked, others⟩
  | reach _ ih => exact ih

/-- Events in a row store the identities of the first ones and then those of the others. -/
theorem append (stores : Stores context earlier (events ++ more) rids last) :
    ∃ mid rids₁ rids₂, Stores context earlier events rids₁ mid ∧
      Stores context mid more rids₂ last ∧ rids = rids₁ ++ rids₂ := by
  induction events generalizing earlier rids with
  | nil => exact ⟨earlier, [], rids, nil, stores, rfl⟩
  | cons event rest ih =>
    cases stores with
    | link verdict later =>
      obtain ⟨mid, rids₁, rids₂, first, second, rfl⟩ := ih later
      exact ⟨mid, _ :: rids₁, rids₂, link verdict first, second, rfl⟩
    | reach later =>
      obtain ⟨mid, rids₁, rids₂, first, second, rfl⟩ := ih later
      exact ⟨mid, rids₁, rids₂, reach first, second, rfl⟩

end Stores

/-! ## Settled identities

`Passes` says that all of them need no resolver, now and later.  That is what is left to assume
where the resolver is given up. -/

/-- None of the events fails, and every identity that is stored needs no resolver. -/
def Passes (context : Context) (earlier : List LinkTarget) (events : List Event)
    (last : List LinkTarget) : Prop :=
  ∃ rids, Stores context earlier events rids last ∧ ∀ rid ∈ rids, Link.isPending rid = false

namespace Passes

variable {context : Context} {earlier last : List LinkTarget} {events more rest : List Event}

theorem nil (passes : Passes context earlier [] last) : last = earlier := by
  obtain ⟨rids, stores, -⟩ := passes
  cases stores
  rfl

/-- What passes through events one behind the other passes through the first ones and then, from
where those end, through the others. -/
theorem append (passes : Passes context earlier (events ++ more) last) :
    ∃ mid, Passes context earlier events mid ∧ Passes context mid more last := by
  obtain ⟨rids, stores, settled⟩ := passes
  obtain ⟨mid, rids₁, rids₂, first, second, rfl⟩ := stores.append
  exact ⟨mid, ⟨rids₁, first, fun rid there => settled rid (List.mem_append_left _ there)⟩,
    rids₂, second, fun rid there => settled rid (List.mem_append_right _ there)⟩

/-- A link passes with a verdict that is an identity and needs no resolver. -/
theorem link {item : Option LinkTarget} (passes : Passes context earlier [.link item] last) :
    ∃ rid, Link.verdict context earlier item = .ok rid ∧ Link.isPending rid = false ∧
      last = earlier ++ Link.asks context item := by
  obtain ⟨rids, stores, settled⟩ := passes
  cases stores with
  | link verdict later =>
    cases later
    exact ⟨_, verdict, settled _ List.mem_cons_self, rfl⟩

/-- What only reaches a field asks for nothing. -/
theorem reach {field kind : String} (passes : Passes context earlier [.reach field kind] last) :
    last = earlier := by
  obtain ⟨rids, stores, -⟩ := passes
  cases stores with
  | reach later =>
    cases later
    rfl

theorem not_refuse {field kind : String} {reason : Unsupported} :
    ¬Passes context earlier (.refuse field kind reason :: rest) last := by
  rintro ⟨rids, stores, -⟩
  cases stores

theorem not_tooDeep : ¬Passes context earlier (.tooDeep :: rest) last := by
  rintro ⟨rids, stores, -⟩
  cases stores

end Passes

/-! ## Encoders that need no resolver

An encoder that never asks is silent, and so is one put together from silent ones.  To store an
identity that is already known is silent. -/

namespace Encoder

variable {α β : Type}

/-- Wherever the encoder stands, and whatever the resolver was asked for before, it asks for
nothing, and it does not fail for want of an identity. -/
def Silent (x : Encoder α) : Prop := ∀ start earlier, (x start earlier).calls = [] ∧
  ∀ rid problem, (x start earlier).result ≠ .error (.linkResolutionFailure rid problem)

namespace Silent

variable {x : Encoder α} {f : α → Encoder β}

theorem pure (a : α) : Silent (Pure.pure a : Encoder α) := fun _ _ => ⟨rfl, nofun⟩

theorem emit (bytes : List UInt8) : Silent (Encoder.emit bytes) := fun _ _ => ⟨rfl, nofun⟩

theorem refuse (field kind : String) (reason : Unsupported) :
    Silent (Encoder.fail (.unsupportedValue field kind reason) : Encoder α) :=
  fun _ _ => ⟨rfl, nofun⟩

/-- Sequences: neither part asks for anything. -/
theorem bind (first : Silent x) (second : ∀ a, Silent (f a)) : Silent (x >>= f) := by
  intro start earlier
  obtain ⟨none, identified⟩ := first start earlier
  rcases run : x start earlier with ⟨bytes, calls, result⟩
  rw [run] at none identified
  cases result with
  | error e =>
    rw [bind_of_error run]
    refine ⟨none, fun rid problem same => identified rid problem ?_⟩
    cases same
    rfl
  | ok a =>
    rw [bind_of_ok run]
    obtain ⟨none', identified'⟩ := second a (start + bytes.length) (earlier ++ calls)
    exact ⟨List.append_eq_nil_iff.mpr ⟨none, none'⟩, identified'⟩

/-- So do silent elements one behind the other. -/
theorem forM {write : α → Encoder Unit} (items : List α)
    (each : ∀ item ∈ items, Silent (write item)) : Silent (items.forM write) := by
  induction items with
  | nil => exact pure ()
  | cons item rest ih =>
    rw [forM_cons]
    exact (each item List.mem_cons_self).bind fun _ =>
      ih fun other there => each other (List.mem_cons_of_mem _ there)

end Silent
end Encoder

/-- A link needs no resolver, for its identity can be stored as it is; an absent one never does. -/
def Link.IsSettled (item : Option LinkTarget) : Prop :=
  ∀ target, item = some target → isPending target.rid = false

/-- A link that is settled is written as it is. -/
theorem Link.silent {context : Context} {item : Option LinkTarget} (settled : IsSettled item) :
    Encoder.Silent (writeElement context item) := by
  cases item with
  | none => exact .emit (idBytes .nullLink)
  | some target =>
    have now : (target.rid.isPersistent || target.rid.isNullLink) = true := by
      simpa only [isPending_eq, Bool.not_eq_false'] using settled target rfl
    have first : Encoder.Silent (resolve context target) := by
      intro start earlier
      rw [resolve_eq]
      simp [asks, verdict, now]
    exact first.bind fun rid => .emit (idBytes rid)

/-- The member is written without the resolver, if it is written at all. -/
def Member.Silent (write : BodyWriter) (member : Member) : Prop :=
  ∀ tag, member.value.isNull = false → member.tag = .ok tag →
    Encoder.Silent (write member.field tag member.linked member.value)

namespace Member

variable {write : BodyWriter}

/-- The body for a slot is silent if what is written under its tag is: to choose the tag and to
check the pointer may fail, but not for want of an identity. -/
theorem silent_body {member : Member} {body : Encoder TypeTag} (silent : member.Silent write)
    (there : (member.entry write).body = some body) : Encoder.Silent body := by
  unfold entry Encoding.writeSlotBody at there
  by_cases null : member.value.isNull = true
  · simp [null] at there
  · rw [if_neg null] at there
    obtain rfl := Option.some.inj there
    -- the place is noted, the tag is chosen, the body is written, and its place is checked
    have position : Encoder.Silent Encoder.position := fun _ _ => ⟨rfl, nofun⟩
    refine position.bind fun start => ?_
    cases choice : member.tag with
    | error reason => exact .refuse _ _ _
    | ok tag =>
      refine (silent tag (by simpa using null) choice).bind fun _ => ?_
      have check : Encoder.Silent (Encoding.checkPointer member.field member.value start) := by
        unfold Encoding.checkPointer
        split
        · exact .refuse _ _ _
        · exact .pure ()
      exact check.bind fun _ => .pure tag

/-- A table of such members is written without the resolver. -/
theorem silent_table (members : List Member) (head tail : List UInt8)
    (each : ∀ member ∈ members, member.Silent write) :
    Encoder.Silent (writeTable head (members.map (entry write)) tail) := by
  have bodies : ∀ start earlier,
      let bodies := Bodies.write ((members.map (entry write)).map (·.body)) start earlier
      bodies.calls = [] ∧
        ∀ rid problem, bodies.result ≠ .error (.linkResolutionFailure rid problem) := by
    induction members with
    | nil => exact fun _ _ => ⟨rfl, nofun⟩
    | cons member rest ih =>
      have others := ih fun other there => each other (List.mem_cons_of_mem _ there)
      intro start earlier
      rw [List.map_cons, List.map_cons]
      cases there : (member.entry write).body with
      | none => exact others start earlier
      | some body =>
        obtain ⟨none, identified⟩ :=
          silent_body (each member List.mem_cons_self) there start earlier
        -- a failure that is none of a link stays one, whatever was written before it
        rw [Bodies.write]
        rcases run : body start earlier with ⟨bytes, calls, result⟩
        rw [run] at none identified
        cases result with
        | error e =>
          refine ⟨none, fun rid problem same => identified rid problem ?_⟩
          cases same
          rfl
        | ok tag =>
          obtain ⟨none', identified'⟩ := others (start + bytes.length) (earlier ++ calls)
          exact ⟨List.append_eq_nil_iff.mpr ⟨none, none'⟩, identified'⟩
  exact fun start earlier => bodies _ earlier

end Member
end DocumentCodec
