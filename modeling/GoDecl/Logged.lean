import GoDecl.Event

/-!
# Runs that keep a log

Rendering and building as they run: an event is added to the log at the moment it is reported.
A type that cannot be written is reported where rendering comes to it, before rendering stops;
a declaration is reported once it is built.

Types and declarations are written by the renderer of every monad, and a run adds to it only
what a rejection does.

## Main definitions

* `Logged`: a computation that may fail and that adds events to a log
* `Logged.render`, `Logged.declaration`: the renderer with a log
* `Logged.build`, `Logged.declare`: building a declaration, and building and writing it, with
  what they report
-/

namespace GoDecl

/-- A computation that may fail and that adds events to a log. -/
abbrev Logged (ε : Type) := EStateM ε (List Event)

namespace Logged

/-- Adds an event to the log. -/
def report {ε : Type} (event : Event) : Logged ε Unit :=
  modify fun log => log ++ [event]

/-- A type that cannot be written is reported before anything is given up. -/
instance : Rejects (Logged Unsupported) where
  reject cause := do
    report (.unsupported cause)
    throw cause

/-- The outcome of a computation that starts with a log, and the log it leaves behind. -/
def runFrom {ε α : Type} (log : List Event) (x : Logged ε α) : Except ε α × List Event :=
  match x.run log with
  | .ok a log => (.ok a, log)
  | .error e log => (.error e, log)

/-! ### Types and declarations -/

/-- Writes a type expression in a scope. -/
def render (scope : Scope) (spread : Bool) (t : TypeExpr) : Logged Unsupported Fragment :=
  t.render scope spread (Logged Unsupported)

/-- Writes type parameters where they are declared. -/
def clause (scope : Scope) (ps : TypeParams) : Logged Unsupported Fragment :=
  ps.clause scope (Logged Unsupported)

/-- Writes a method as a function type. -/
def funcType (scope : Scope) (m : Method) : Logged Unsupported Fragment :=
  m.funcType scope (Logged Unsupported)

/-- Writes a method as an element of an interface. -/
def entry (scope : Scope) (m : Method) : Logged Unsupported Fragment :=
  m.entry scope (Logged Unsupported)

/-- Writes the declaration of an interface. -/
def declaration (scope : Scope) (d : InterfaceDecl) : Logged Unsupported Fragment :=
  d.declaration scope (Logged Unsupported)

/-- Builds the declaration of a resolved interface and reports it, with a warning if it can only
be used as a constraint. -/
def build (name path : String) (typeParams : TypeParams) (resolved : TypeExpr) :
    Logged Malformed InterfaceDecl := do
  let d ← ofExcept (InterfaceDecl.build name path typeParams resolved)
  report (.built d.name d.path d.methods.length d.typeParams.length)
  if d.isConstraintOnly then
    report (.typeSetOnly d.name d.typeSet.length)
  return d

/-- Builds the declaration of a resolved interface and writes it. -/
def declare (scope : Scope) (name path : String) (typeParams : TypeParams)
    (resolved : TypeExpr) : Logged GenerateError Fragment := do
  let d ← (build name path typeParams resolved).adaptExcept .malformed
  (declaration scope d).adaptExcept .unsupported

end Logged

end GoDecl
