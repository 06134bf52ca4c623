import DocumentCodec.Registry
import DocumentCodec.Schema
import DocumentCodec.Zone
/-!
# What a codec may consult

The settings of one encoding or decoding, and its three collaborators, each of which may be
missing: without a schema every field is written by name, without a registry the application's own
objects fail, and without a resolver so do links to records that were never stored, unless the
storage is a proxy.

A resolver may keep state and may store records as a side effect.  What it answers is therefore a
function of the targets it was asked for before, in order, and of the present one.
-/

namespace DocumentCodec

/-- The settings of a codec. -/
structure Options where
  /-- how deep containers may nest below the fields of the outermost record -/
  maxDepth : Nat := 32
  /-- the storage is not the authority, so links without a valid identity are written as they are -/
  proxyStorage : Bool := false
  zone : Zone := .utc

/-- Stores a link's target if need be and gives its identity. -/
abbrev Resolver :=
  (earlier : List LinkTarget) → (target : LinkTarget) → Except PersistError RecordId

/-- Everything that an encoding or decoding may consult. -/
structure Context where
  options : Options := {}
  schema : Option Snapshot := none
  registry : Option Registry := none
  resolver : Option Resolver := none

/-- The failure of a container that lies deeper than the settings allow. -/
def Context.tooDeep (context : Context) : CodecError :=
  .nestingTooDeep (context.options.maxDepth + 1) context.options.maxDepth

/-- The settings in one line. -/
def Options.describe (options : Options) : String :=
  Braced.record "CodecOptions"
    [("max_depth", toString options.maxDepth),
     ("proxy_storage", toString options.proxyStorage),
     ("utc_offset_millis_at_epoch", toString (options.zone.offsetAt 0).toInt)]

/-- The settings, and which collaborators there are, in one line. -/
def Context.describe (context : Context) : String :=
  Braced.record "CodecContext"
    [("options", context.options.describe),
     ("schema", toString context.schema.isSome),
     ("registry", toString context.registry.isSome),
     ("resolver", toString context.resolver.isSome)]

end DocumentCodec
