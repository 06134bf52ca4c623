import DocumentCodec.Proofs.Resolution.Stored
/-!
# Bodies without bodies inside, settled

Where the identities that are stored need no resolver, the links that come back hold those
identities.  Everything else comes back without links; and either way a value comes back with the
kind of the tag that it was written under, so it is written under that tag again, and the resolver
is not asked.

`Returns` says so of whatever is recalled while events pass.  It is closed under sequences, and it
keeps count of what the resolver was asked for.
-/

namespace DocumentCodec

variable {context : Context}

/-! ## What is recalled of settled events

`Returns` follows the events as they pass: what is recalled after them has the property, and what
was asked for by then is known. -/

/-- Where the events pass, whatever is recalled is good, and the resolver was asked for the same
targets in between. -/
def Returns {α : Type} (context : Context) (events : List Event) (remember : Recalling α)
    (good : α → Prop) : Prop :=
  ∀ ⦃earlier last recalled : List LinkTarget⦄ ⦃made : α⦄, Passes context earlier events last →
    remember earlier = some (made, recalled) → recalled = last ∧ good made

namespace Returns

variable {α β : Type} {events more : List Event} {x : Recalling α} {f : α → Recalling β}
  {good : α → Prop} {good' : β → Prop}

theorem pure {a : α} (fact : good a) : Returns context [] (Pure.pure a) good := by
  intro earlier last recalled made passes run
  cases run
  exact ⟨passes.nil.symm, fact⟩

/-- Sequences: the events of the first part come to pass before those of the second. -/
theorem bind (first : Returns context events x good)
    (second : ∀ a, good a → Returns context more (f a) good') :
    Returns context (events ++ more) (x >>= f) good' := by
  intro earlier last recalled made passes run
  obtain ⟨a, mid, here, later⟩ := Recalling.run_bind_eq_some.mp run
  obtain ⟨mid', passes, passes'⟩ := passes.append
  obtain ⟨rfl, fact⟩ := first passes here
  exact second a fact passes' later

/-- What is made of a recalled value passes through no event. -/
theorem map {wrap : α → β} (first : Returns context events x good)
    (keeps : ∀ a, good a → good' (wrap a)) :
    Returns context events (x >>= fun a => Pure.pure (wrap a)) good' := by
  have both : Returns context (events ++ []) _ good' := first.bind fun a fact => pure (keeps a fact)
  rwa [List.append_nil] at both

/-- The fact about what is recalled may be weakened. -/
theorem mono {weaker : α → Prop} (returns : Returns context events x good)
    (implies : ∀ a, good a → weaker a) : Returns context events x weaker := by
  intro earlier last recalled made passes run
  obtain ⟨same, fact⟩ := returns passes run
  exact ⟨same, implies made fact⟩

/-- What is only looked at asks for nothing. -/
theorem after (looks : ∀ earlier a mid, x earlier = some (a, mid) →
      mid = earlier ∧ Returns context events (f a) good') :
    Returns context events (x >>= f) good' := by
  intro earlier last recalled made passes run
  obtain ⟨a, mid, here, later⟩ := Recalling.run_bind_eq_some.mp run
  obtain ⟨rfl, returns⟩ := looks earlier a mid here
  exact returns passes later

/-- A length is no event. -/
theorem length {n : Nat} {f : Nat → Recalling β} (rest : Returns context events (f n) good') :
    Returns context events (Recall.length n >>= f) good' := by
  refine after fun earlier count mid run => ?_
  obtain ⟨-, rfl, rfl⟩ := Recall.length_eq_some.mp run
  exact ⟨rfl, rest⟩

/-- Nor is text. -/
theorem string {text : String} {f : String → Recalling β}
    (rest : Returns context events (f text) good') :
    Returns context events (Recall.string text >>= f) good' := by
  refine after fun earlier taken mid run => ?_
  obtain ⟨-, rfl, rfl⟩ := Recall.string_eq_some.mp run
  exact ⟨rfl, rest⟩

/-- Nor are bytes. -/
theorem binary {bytes : List UInt8} {f : List UInt8 → Recalling β}
    (rest : Returns context events (f bytes) good') :
    Returns context events (Recall.binary bytes >>= f) good' := by
  refine after fun earlier taken mid run => ?_
  obtain ⟨-, rfl, rfl⟩ := Recall.binary_eq_some.mp run
  exact ⟨rfl, rest⟩

/-- An answer that needs nothing but itself. -/
theorem answer {found : Option α} (rest : ∀ a, found = some a → Returns context events (f a) good') :
    Returns context events (Recalling.answer found >>= f) good' := by
  refine after fun earlier a mid run => ?_
  obtain ⟨same, rfl⟩ := Recalling.answer_eq_some.mp run
  exact ⟨rfl, rest a same⟩

/-- What is recalled of things in turn is good if it is for each of them. -/
theorem mapM {inside : α → List Event} (items : List α)
    (each : ∀ item ∈ items, Returns context (inside item) (f item) good') :
    Returns context (items.flatMap inside) (items.mapM f) fun mades => ∀ made ∈ mades, good' made := by
  induction items with
  | nil => exact pure (a := ([] : List β)) fun made there => by cases there
  | cons item rest ih =>
    rw [List.mapM_cons, List.flatMap_cons]
    refine (each item List.mem_cons_self).bind fun made fact => ?_
    refine (ih fun other there => each other (List.mem_cons_of_mem _ there)).map ?_
    intro mades all other there
    rcases List.mem_cons.mp there with rfl | inside
    · exact fact
    · exact all other inside

end Returns

/-! ## Links -/

namespace Returns

/-- What is recalled of a link is the identity that was stored. -/
theorem link (target : LinkTarget) :
    Returns context [.link (some target)] (Recalling.asking (target.stored context)) fun rid =>
      Link.isPending rid = false := by
  intro earlier last recalled made passes run
  obtain ⟨rid, verdict, settled, rfl⟩ := passes.link
  cases (congrArg some (Link.stored_of_verdict verdict)).symm.trans run
  exact ⟨rfl, settled⟩

/-- **A link that was read back is settled**: it is the identity that was stored, and an identity
that was stored is written again without asking.  The null link is no link any more. -/
theorem linkElement (item : Option LinkTarget) :
    Returns context [.link item] (Recalling.asking (normalLink context item)) Link.IsSettled := by
  cases item with
  | none =>
    intro earlier last recalled made passes run
    obtain ⟨_, _, _, rfl⟩ := passes.link
    cases run
    exact ⟨(List.append_nil _).symm, fun target none => by cases none⟩
  | some target =>
    show Returns context _ (Recalling.asking (target.stored context) >>= fun rid =>
      Pure.pure (if rid.isNullLink then none else some (LinkTarget.identity rid))) _
    refine (link target).map fun rid settled other there => ?_
    -- the identity that stands for no link is read as none, of which nothing is to be shown
    by_cases null : rid.isNullLink = true
    · simp [null] at there
    · rw [if_neg null] at there
      cases there
      exact settled

/-- So are all links of a list. -/
theorem links (items : List (Option LinkTarget)) :
    Returns context (items.map .link) (Recall.links context items) fun mades =>
      ∀ made ∈ mades, Link.IsSettled made := by
  have all : Returns context (items.flatMap fun item => [.link item]) _ _ :=
    mapM items fun item _ => linkElement item
  rw [Recalling.mapM_asking] at all
  rw [List.map_eq_flatMap]
  exact length all

/-- So are those of a map. -/
theorem linkMap (entries : List (String × Option LinkTarget)) :
    Returns context ((entries.map (·.2)).map .link) (Recall.linkMap context entries) fun mades =>
      ∀ made ∈ mades, Link.IsSettled made.2 := by
  rw [List.map_map, List.map_eq_flatMap]
  refine length (mapM entries fun entry _ => ?_)
  exact string ((linkElement entry.2).map fun made settled => settled)

end Returns

/-! ## Values that hold no others

Of these only links can ask, and a link that came back is the identity that was stored. -/

namespace Encoding

variable {field : String} {tag : TypeTag} {value : Value}

/-- Links that are settled are written without the resolver. -/
theorem silent_links {items : List (Option LinkTarget)}
    (settled : ∀ item ∈ items, Link.IsSettled item) :
    Encoder.Silent (writeLinks context items) := by
  have number : Encoder.Silent (Encoder.varint items.length) := .emit _
  exact number.bind fun _ => .forM items fun item there => Link.silent (settled item there)

/-- To write a map of settled links asks the resolver for nothing. -/
theorem silent_linkMap {entries : List (String × Option LinkTarget)}
    (settled : ∀ entry ∈ entries, Link.IsSettled entry.2) :
    Encoder.Silent (writeLinkMap context entries) := by
  have number : Encoder.Silent (Encoder.varint entries.length) := .emit _
  refine number.bind fun _ => .forM entries fun entry there => ?_
  have key : Encoder.Silent (Encoder.emit (keyBytes entry.1)) := .emit _
  exact key.bind fun _ => Link.silent (settled entry there)

/-- What is not written as links is written without the resolver. -/
theorem silent_scalar (plain : value.links? tag = none) :
    Encoder.Silent (writeScalar context field tag value) := by
  rcases writeScalar_quiet plain with ⟨bytes, same⟩ | ⟨kind, reason, same⟩
  · rw [same]
    exact .emit bytes
  · rw [same]
    exact .refuse _ _ _

end Encoding

namespace Returns

variable {field : String} {tag : TypeTag} {value : Value}

/-- Without links, what comes back has the kind of the tag, and no links either. -/
theorem plain (plain : value.links? tag = none) :
    Returns context (Encoding.scalarEvents context field tag value)
      (Recall.scalar context tag value) fun made =>
        made.naturalTag = some tag ∧ made.links? tag = none := by
  unfold Encoding.scalarEvents
  rw [plain]
  rcases Encoding.writeScalar_quiet plain with ⟨bytes, same⟩ | ⟨kind, reason, same⟩
  · -- what it wrote settles the tag and the kind, so the cases are those of the encoding
    have run : Encoding.writeScalar context field tag value 0 [] = ⟨bytes, [], .ok ()⟩ := by
      rw [same]
      rfl
    rw [run]
    cases WrittenScalar.of_eq_ok run with
    | short number _ =>
      rw [Recall.scalar_short number]
      exact pure ⟨rfl, rfl⟩
    | integer number _ =>
      rw [Recall.scalar_integer number]
      exact pure ⟨rfl, rfl⟩
    | long number =>
      rw [Recall.scalar_long number]
      exact pure ⟨rfl, rfl⟩
    | dateTime instant =>
      rw [Recall.scalar_dateTime instant]
      exact pure ⟨rfl, rfl⟩
    | date instant =>
      rw [Recall.scalar_date instant]
      exact answer fun begins _ => pure ⟨rfl, rfl⟩
    | string text => exact string (pure ⟨rfl, rfl⟩)
    | binary content => exact binary (pure ⟨rfl, rfl⟩)
    | linkBag content => exact binary (pure ⟨rfl, rfl⟩)
    | custom written =>
      exact string (binary (answer fun registry _ => answer fun object _ => pure ⟨rfl, rfl⟩))
    | double _ | widened _ | float _ | byte _ | boolean _ | decimal _ => exact pure ⟨rfl, rfl⟩
    | link _ | linked _ | linkMap _ => cases plain
    | linkList sort _ | linkSet sort _ => rcases sort with rfl | rfl <;> cases plain
  · intro earlier last recalled made passes
    rw [same] at passes
    exact absurd passes Passes.not_refuse

/-- What comes back of a value that holds no others has the kind of the tag, and is written under it
again without the resolver. -/
theorem scalar (formed : value.isWellFormed = true) :
    Returns context (Encoding.scalarEvents context field tag value)
      (Recall.scalar context tag value) fun made => made.naturalTag = some tag ∧
        ∀ field, Encoder.Silent (Encoding.writeScalar context field tag made) := by
  cases kind : value.links? tag with
  | none => exact (plain kind).mono fun made fact => ⟨fact.1, fun _ => Encoding.silent_scalar fact.2⟩
  | some items =>
    unfold Encoding.scalarEvents
    rw [kind]
    have one (target : LinkTarget) : Returns context [.link (some target)]
        (Recalling.asking (target.stored context) >>= fun rid =>
          Pure.pure (Value.link (.identity rid))) fun made => made.naturalTag = some .link ∧
          ∀ field, Encoder.Silent (Encoding.writeScalar context field .link made) := by
      refine (link target).map fun rid settled => ⟨rfl, fun field => ?_⟩
      have again : Link.IsSettled (some (.identity rid)) := by
        rintro target ⟨⟩
        exact settled
      exact Link.silent again
    unfold Value.links? at kind
    -- one link or a linked record, then links in a list or set, then a map of links
    split at kind
    case h_1 | h_2 =>
      cases kind
      exact one _
    case h_3 | h_4 | h_5 | h_6 =>
      cases kind
      exact (links _).map fun made settled => ⟨rfl, fun _ => Encoding.silent_links settled⟩
    case h_7 entries =>
      cases kind
      have ordered : OrderedMap.Ascending entries :=
        of_decide_eq_true (Bool.and_eq_true_iff.mp formed).1
      -- a well-formed map is in order, so the reader makes the same entries of it
      rw [OrderedMap.ofList_eq_self ordered]
      exact (linkMap entries).map fun made settled =>
        ⟨rfl, fun _ => Encoding.silent_linkMap settled⟩
    case h_8 => cases kind

end Returns

end DocumentCodec
