import GoDecl.Declaration.Source
import GoDecl.Json.Basic

/-!
# Log events

What building and rendering report while they run.  A built declaration is
reported, with a warning when it can only serve as a constraint, and so is the
type that a rendering stops at.  Nothing else is.

## Main definitions

* `Event`: a report, with its level, message and fields
* `Event.ofRendering`, `Event.ofBuild`, `Event.ofDeclare`: the reports of a run
-/

namespace GoDecl

/-- What is reported: a built declaration, a declaration that is only a type set,
or the type that stopped a rendering. -/
inductive Event where
  | built (interface path : String) (methods typeParams : Nat)
  | typeSetOnly (interface : String) (terms : Nat)
  | unsupported (cause : Unsupported)
deriving DecidableEq, Repr

namespace Event

/-- How much attention an event asks for. -/
def level : Event → String
  | built .. => "debug"
  | typeSetOnly .. => "warn"
  | unsupported _ => "trace"

/-- The message of an event. -/
def message : Event → String
  | built .. => "built interface IR"
  | typeSetOnly .. => "interface only declares a type set; generating it anyway"
  | unsupported .tuple => "no rendering rule for type node"
  | unsupported (.method ..) => "interface method is not a signature"

/-- The named fields of an event. -/
def fields : Event → List (String × Json)
  | built interface path methods typeParams =>
    [("interface", .string interface), ("import_path", .string path),
      ("methods", .natural methods), ("type_params", .natural typeParams)]
  | typeSetOnly interface terms => [("interface", .string interface), ("terms", .natural terms)]
  | unsupported .tuple => [("kind", .string Kind.tuple.name)]
  | unsupported (.method name kind) => [("method", .string name), ("kind", .string kind.name)]

/-- The events of a rendering: the type it stopped at, if it did. -/
def ofRendering {α : Type} : Except Unsupported α → List Event
  | .ok _ => []
  | .error cause => [.unsupported cause]

/-- The events of a finished declaration. -/
def ofDecl (d : InterfaceDecl) : List Event :=
  .built d.name d.path d.methods.length d.typeParams.length ::
    if d.isConstraintOnly then [.typeSetOnly d.name d.typeSet.length] else []

/-- The events of building a declaration. -/
def ofBuild : Except Malformed InterfaceDecl → List Event
  | .ok d => ofDecl d
  | .error _ => []

/-- The events of building a declaration and rendering it. -/
def ofDeclare (scope : Scope) (name path : String) (typeParams : TypeParams)
    (resolved : TypeExpr) : List Event :=
  match InterfaceDecl.build name path typeParams resolved with
  | .ok d => ofDecl d ++ ofRendering (d.declaration scope)
  | .error _ => []

end Event

end GoDecl
