import DocumentCodec.Encoder
/-!
# Links

A link is stored as the identity of its target.  A target whose identity is persistent, or is the
one that stands for no link, is stored as it is; for any other the resolver is asked, which may
store the record first.  If there is no resolver, or it refuses, or its answer was never assigned,
the link fails, unless the storage is a proxy: then the identity at hand is written unresolved.
-/

namespace DocumentCodec.Link

/-- The identity cannot be stored as it is. -/
def isPending (rid : RecordId) : Bool := !rid.isPersistent && !rid.isNullLink

theorem isPending_eq (rid : RecordId) :
    isPending rid = !(rid.isPersistent || rid.isNullLink) := by
  simp [isPending]

theorem isPending_eq_false_iff (rid : RecordId) :
    isPending rid = false ↔ rid.isPersistent = true ∨ rid.isNullLink = true := by
  rw [isPending_eq, Bool.not_eq_false', Bool.or_eq_true]

/-- What the resolver makes of a target, if there is one. -/
def ask (resolver : Option Resolver) (earlier : List LinkTarget) (target : LinkTarget) :
    Except LinkProblem RecordId :=
  match resolver with
  | none => .error .noResolver
  | some resolve =>
    match resolve earlier target with
    | .error cause => .error (.refused cause)
    | .ok rid => if rid.isValid then .ok rid else .error (.invalidAnswer rid)

/-- The identity to store for a link.  A call of the resolver is recorded whatever it answers. -/
def resolve (context : Context) (target : LinkTarget) : Encoder RecordId := fun _ earlier =>
  let rid := target.rid
  if isPending rid then
    let calls := if context.resolver.isSome then [target] else []
    match ask context.resolver earlier target with
    | .ok answer => ⟨[], calls, .ok answer⟩
    | .error problem =>
      if context.options.proxyStorage then ⟨[], calls, .ok rid⟩
      else ⟨[], calls, .error (.linkResolutionFailure rid problem)⟩
  else ⟨[], [], .ok rid⟩

/-- Writes an identity. -/
def writeId (rid : RecordId) : Encoder Unit := do
  Encoder.signedVarint rid.cluster.toInt64
  Encoder.signedVarint rid.position

/-- Writes the identity of a target. -/
def write (context : Context) (target : LinkTarget) : Encoder Unit := do
  let rid ← resolve context target
  writeId rid

/-- Writes an element of a collection of links; an absent one has an identity set aside. -/
def writeElement (context : Context) : Option LinkTarget → Encoder Unit
  | some target => write context target
  | none => writeId .nullLink

end DocumentCodec.Link
