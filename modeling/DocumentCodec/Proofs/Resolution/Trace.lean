import DocumentCodec.Proofs.Emission
import DocumentCodec.Proofs.ReadingBack
/-!
# Traces of encodings

What an encoding does that can be seen from outside, besides its bytes: it asks the resolver for a
link, and it fails.  Both have their places in a list of events, which is known before anything is
written: a link is written, or something is refused, or a slot must reach the body that was
written for it.

`Runs` goes through such a list from the front.  Each link has one verdict, given what the resolver
was asked for before, and its identity stands in the buffer behind those of the links before it;
the first failure is the end, and nothing behind it takes place.
-/

namespace DocumentCodec

/-! ## Links

What becomes of one link, given what was asked before: an identity, or a failure, and whether the
resolver was asked at all. -/

namespace Link

variable (context : Context)

/-- The targets that the resolver is asked for when a link is written: its own, if the identity is
neither persistent nor the one that stands for no link, and there is a resolver. -/
def asks : Option LinkTarget → List LinkTarget
  | none => []
  | some target =>
    if target.rid.isPersistent || target.rid.isNullLink then []
    else if context.resolver.isSome then [target] else []

/-- The identity that is written for a link, or the failure that ends the encoding, when the
resolver was asked for the targets `asked` before. -/
def verdict (asked : List LinkTarget) : Option LinkTarget → Except CodecError RecordId
  | none => .ok .nullLink
  | some target =>
    let unresolved (problem : LinkProblem) : Except CodecError RecordId :=
      if context.options.proxyStorage then .ok target.rid
      else .error (.linkResolutionFailure target.rid problem)
    if target.rid.isPersistent || target.rid.isNullLink then .ok target.rid
    else
      match context.resolver with
      | none => unresolved .noResolver
      | some resolve =>
        match resolve asked target with
        | .error cause => unresolved (.refused cause)
        | .ok answer =>
          if answer.position = RecordId.noPosition then unresolved (.invalidAnswer answer)
          else .ok answer

/-- Resolving a target emits nothing, asks for it if need be, and gives the verdict. -/
theorem resolve_eq (target : LinkTarget) (start : Nat) (earlier : List LinkTarget) :
    resolve context target start earlier
      = ⟨[], asks context (some target), verdict context earlier (some target)⟩ := by
  unfold resolve asks verdict
  simp only [isPending_eq]
  by_cases settled : (target.rid.isPersistent || target.rid.isNullLink) = true
  · simp [settled]
  · rw [Bool.not_eq_true] at settled
    simp only [settled, Bool.not_false, if_true, Bool.false_eq_true, if_false]
    unfold ask
    cases context.resolver with
    | none => by_cases proxy : context.options.proxyStorage = true <;> simp [proxy]
    | some resolve =>
      simp only [Option.isSome_some, if_true]
      cases resolve earlier target with
      | error cause => by_cases proxy : context.options.proxyStorage = true <;> simp [proxy]
      | ok answer =>
        -- an answer without a position was never assigned
        by_cases valid : answer.position = RecordId.noPosition
        · have never : answer.isValid = false := by simp [RecordId.isValid, valid]
          by_cases proxy : context.options.proxyStorage = true <;> simp [valid, never, proxy]
        · have given : answer.isValid = true := by simp [RecordId.isValid, valid]
          simp [valid, given]

variable {context} {asked : List LinkTarget} {item : Option LinkTarget}

/-- A link fails only for want of an identity: its own may not be stored, no proxy keeps it all the
same, and the failure says which it was. -/
theorem of_verdict_error {e : CodecError} (failed : verdict context asked item = .error e) :
    ∃ target problem, item = some target ∧ e = .linkResolutionFailure target.rid problem ∧
      isPending target.rid = true ∧ context.options.proxyStorage = false := by
  cases item with
  | none => simp [verdict] at failed
  | some target =>
    by_cases settled : (target.rid.isPersistent || target.rid.isNullLink) = true
    · simp [verdict, settled] at failed
    · have pending : isPending target.rid = true := by simpa [isPending_eq] using settled
      rw [Bool.not_eq_true] at settled
      -- whatever the resolver does, what is left is to keep the identity or to give up
      have outcome : (∃ answer, verdict context asked (some target) = .ok answer) ∨
          ∃ problem, verdict context asked (some target)
            = if context.options.proxyStorage then .ok target.rid
              else .error (.linkResolutionFailure target.rid problem) := by
        simp only [verdict, settled, Bool.false_eq_true, if_false]
        split
        · exact Or.inr ⟨_, rfl⟩
        · split
          · exact Or.inr ⟨_, rfl⟩
          · split
            · exact Or.inr ⟨_, rfl⟩
            · exact Or.inl ⟨_, rfl⟩
      rcases outcome with ⟨answer, given⟩ | ⟨problem, given⟩
      · simp [given] at failed
      · by_cases proxy : context.options.proxyStorage = true
        · simp [given, proxy] at failed
        · rw [given, if_neg proxy] at failed
          cases failed
          exact ⟨target, problem, rfl, rfl, pending, by simpa using proxy⟩

/-- Only the target of the link itself is asked for, and only if it is pending. -/
theorem mem_asks {target : LinkTarget} (asked : target ∈ asks context item) :
    item = some target ∧ isPending target.rid = true := by
  cases item with
  | none => simp [asks] at asked
  | some other =>
    by_cases settled : (other.rid.isPersistent || other.rid.isNullLink) = true
    · simp [asks, settled] at asked
    · by_cases there : context.resolver.isSome = true
      · simp only [asks, settled, there, if_true, Bool.false_eq_true, if_false,
          List.mem_singleton] at asked
        subst asked
        exact ⟨rfl, by simpa [isPending_eq] using settled⟩
      · simp [asks, settled, there] at asked

end Link

/-! ## Events -/

/-- Something that an encoding does, in the order of the bodies. -/
inductive Event where
  /-- a link is written, or the identity for an absent one -/
  | link (item : Option LinkTarget)
  /-- a value cannot be stored -/
  | refuse (field kind : String) (reason : Unsupported)
  /-- a container is deeper than the settings allow -/
  | tooDeep
  /-- a body was written, and its slot has to reach it -/
  | reach (field kind : String)

/-- The links among the events. -/
def Event.links : List Event → List (Option LinkTarget)
  | [] => []
  | .link item :: rest => item :: Event.links rest
  | _ :: rest => Event.links rest

/-- The links of events one behind the other. -/
theorem Event.links_append (events more : List Event) :
    Event.links (events ++ more) = Event.links events ++ Event.links more := by
  induction events with
  | nil => rfl
  | cons event rest ih => cases event <;> simp [Event.links, ih]

/-- An encoding goes through the events: standing at `here` with the targets `earlier` behind it, it
asks for `calls`, ends at `there` and has the result.  It stops at the first failure; a slot fails
to reach a body only if the encoding comes to lie beyond the last offset that slots can hold. -/
inductive Runs (context : Context) (buffer : List UInt8) :
    (here : Nat) → (earlier : List LinkTarget) → List Event → (calls : List LinkTarget) →
    (there : Nat) → Except CodecError Unit → Prop where
  | done {here there earlier} (forward : here ≤ there) :
      Runs context buffer here earlier [] [] there (.ok ())
  | stored {here there earlier item rest calls result rid place}
      (verdict : Link.verdict context earlier item = .ok rid) (forward : here ≤ place)
      (stands : Holds buffer place (Link.idBytes rid))
      (later : Runs context buffer (place + (Link.idBytes rid).length)
        (earlier ++ Link.asks context item) rest calls there result) :
      Runs context buffer here earlier (.link item :: rest) (Link.asks context item ++ calls) there
        result
  | unresolved {here there earlier item rest e}
      (verdict : Link.verdict context earlier item = .error e) :
      Runs context buffer here earlier (.link item :: rest) (Link.asks context item) there (.error e)
  | refused {here there earlier field kind reason rest} :
      Runs context buffer here earlier (.refuse field kind reason :: rest) [] there
        (.error (.unsupportedValue field kind reason))
  | tooDeep {here there earlier rest} :
      Runs context buffer here earlier (.tooDeep :: rest) [] there (.error context.tooDeep)
  | reached {here there earlier field kind rest calls result}
      (later : Runs context buffer here earlier rest calls there result) :
      Runs context buffer here earlier (.reach field kind :: rest) calls there result
  | beyond {here there earlier field kind rest} (far : Slot.maxPointer < there) :
      Runs context buffer here earlier (.reach field kind :: rest) [] there
        (.error (.unsupportedValue field kind .beyondPointers))

namespace Runs

variable {context : Context} {buffer : List UInt8} {here mid there : Nat}
  {earlier calls calls' : List LinkTarget} {events more : List Event}
  {result : Except CodecError Unit}

/-! ### Sequences -/

/-- What went before leaves room. -/
theorem mono (runs : Runs context buffer mid earlier events calls there result) {last : Nat}
    (before : here ≤ mid) (behind : there ≤ last) :
    Runs context buffer here earlier events calls last result := by
  induction runs generalizing here with
  | done forward => exact done (by omega)
  | stored verdict forward stands later ih =>
    exact stored verdict (by omega) stands (ih (Nat.le_refl _) behind)
  | unresolved verdict => exact unresolved verdict
  | refused => exact refused
  | tooDeep => exact tooDeep
  | reached later ih => exact reached (ih before behind)
  | beyond far => exact beyond (by omega)

/-- Behind events that all went well the others follow. -/
theorem append (first : Runs context buffer here earlier events calls mid (.ok ()))
    (later : Runs context buffer mid (earlier ++ calls) more calls' there result) :
    Runs context buffer here earlier (events ++ more) (calls ++ calls') there result := by
  generalize good : (Except.ok () : Except CodecError Unit) = outcome at first
  induction first with
  | done forward => simpa using later.mono forward (Nat.le_refl _)
  | stored verdict forward stands _ ih =>
    rw [List.cons_append, List.append_assoc]
    refine stored verdict forward stands (ih ?_ good)
    rwa [List.append_assoc]
  | reached _ ih => exact reached (ih later good)
  | unresolved _ | refused | tooDeep | beyond _ => cases good

/-- Behind a failure nothing takes place. -/
theorem cut {e : CodecError}
    (first : Runs context buffer here earlier events calls there (.error e)) (more : List Event) :
    Runs context buffer here earlier (events ++ more) calls there (.error e) := by
  generalize bad : (Except.error e : Except CodecError Unit) = outcome at first
  induction first with
  | done _ => cases bad
  | stored verdict forward stands _ ih => exact stored verdict forward stands (ih bad)
  | unresolved verdict => exact unresolved verdict
  | refused => exact refused
  | tooDeep => exact tooDeep
  | reached _ ih => exact reached (ih bad)
  | beyond far => exact beyond far

/-! ### What a run tells -/

/-- The resolver is asked for the links in turn, for all of them if there is no failure. -/
theorem calls_eq (runs : Runs context buffer here earlier events calls there result) :
    calls <+: (Event.links events).flatMap (Link.asks context) ∧
      (result = .ok () → calls = (Event.links events).flatMap (Link.asks context)) := by
  induction runs with
  | done _ => simp [Event.links]
  | stored _ _ _ _ ih =>
    obtain ⟨among, all⟩ := ih
    rw [Event.links, List.flatMap_cons]
    exact ⟨(List.prefix_append_right_inj _).mpr among, fun good => by rw [all good]⟩
  | unresolved _ =>
    rw [Event.links, List.flatMap_cons]
    exact ⟨List.prefix_append _ _, fun good => by cases good⟩
  | reached _ ih => exact ih
  | refused | tooDeep | beyond _ => exact ⟨List.nil_prefix, fun good => by cases good⟩

/-- A failure is that of one event: the links before it were asked for, it failed by itself, and
nothing behind it took place. -/
theorem of_error {e : CodecError}
    (runs : Runs context buffer here earlier events calls there (.error e)) :
    ∃ before last after mid, events = before ++ last :: after ∧
      calls = (Event.links (before ++ [last])).flatMap (Link.asks context) ∧
      Runs context buffer mid (earlier ++ (Event.links before).flatMap (Link.asks context)) [last]
        ((Event.links [last]).flatMap (Link.asks context)) there (.error e) := by
  generalize bad : (Except.error e : Except CodecError Unit) = outcome at runs
  induction runs with
  -- the induction is on the run: what took place goes to the front, and the failing event is the
  -- last
  | done _ => cases bad
  | stored _ _ _ _ ih =>
    obtain ⟨before, last, after, mid, rfl, rfl, fails⟩ := ih bad
    refine ⟨_ :: before, last, after, mid, rfl, rfl, ?_⟩
    rwa [Event.links, List.flatMap_cons, ← List.append_assoc]
  | @reached here there _ field kind _ _ _ _ ih =>
    obtain ⟨before, last, after, mid, rfl, rfl, fails⟩ := ih bad
    exact ⟨.reach field kind :: before, last, after, mid, rfl, rfl, fails⟩
  | @unresolved here there earlier item rest _ verdict =>
    refine ⟨[], .link item, rest, here, rfl, by simp [Event.links], ?_⟩
    simpa [Event.links] using unresolved verdict
  | @refused here there earlier field kind reason rest =>
    exact ⟨[], _, rest, here, rfl, rfl, by simpa [Event.links] using refused⟩
  | @tooDeep here there earlier rest =>
    exact ⟨[], _, rest, here, rfl, rfl, by simpa [Event.links] using tooDeep⟩
  | @beyond here there earlier field kind rest far =>
    exact ⟨[], _, rest, here, rfl, rfl, by simpa [Event.links] using beyond far⟩

/-- When a link fails, it is the last one that the resolver was asked for, if there is a resolver;
the failure names the identity of its target, and no proxy keeps it. -/
theorem of_linkFailure {rid : RecordId} {problem : LinkProblem}
    (runs : Runs context buffer here earlier events calls there
      (.error (.linkResolutionFailure rid problem))) :
    context.options.proxyStorage = false ∧ ∃ target, some target ∈ Event.links events ∧
      target.rid = rid ∧ Link.isPending rid = true ∧
      (context.resolver.isSome = true → calls.getLast? = some target) := by
  generalize bad : Except.error (CodecError.linkResolutionFailure rid problem) = outcome at runs
  induction runs with
  | done _ => cases bad
  | stored _ _ _ _ ih =>
    -- the events in front of the failing one went through, so its target is still the last that was
    -- asked for
    obtain ⟨plain, target, there, same, pending, last⟩ := ih bad
    refine ⟨plain, target, List.mem_cons_of_mem _ there, same, pending, fun resolver => ?_⟩
    simp [List.getLast?_append, last resolver]
  | unresolved verdict =>
    obtain ⟨target, problem', rfl, same, pending, plain⟩ := Link.of_verdict_error verdict
    cases bad
    cases same
    refine ⟨plain, target, List.mem_cons_self, rfl, pending, fun resolver => ?_⟩
    have unsettled : ¬(target.rid.isPersistent || target.rid.isNullLink) = true := by
      simpa [Link.isPending_eq] using pending
    simp [Link.asks, unsettled, resolver]
  | reached _ ih => exact ih bad
  -- these fail for other reasons
  | refused | tooDeep | beyond _ => cases bad

end Runs
end DocumentCodec
