import GoDecl.Declaration.Build

/-!
# The source of a declaration

How methods, references to a declared interface, and the declaration itself are
written.

## Main definitions

* `Method.funcType`, `Method.entry`: a method as a function type and as an
  element of an interface
* `InterfaceDecl.reference`: the interface applied to its own type parameters
* `InterfaceDecl.declaration`: the declaration
* `InterfaceDecl.declare`: the declaration of a resolved interface
-/

namespace GoDecl

namespace Method

/-- A method as a function type: `func(key K) (V, bool)`. -/
def funcType (scope : Scope) (x : Method)
    (m : Type → Type := Except Unsupported) [Monad m] [Rejects m] : m Fragment :=
  return .keyword "func" :: (← TypeExpr.renderSignature scope x.signature m)

/-- A method as an element of an interface: `Get(key K) (V, bool)`. -/
def entry (scope : Scope) (x : Method)
    (m : Type → Type := Except Unsupported) [Monad m] [Rejects m] : m Fragment :=
  return .ident x.name :: (← TypeExpr.renderSignature scope x.signature m)

end Method

namespace InterfaceDecl

/-- The interface applied to its own type parameters: `Set[T]` in its own
package and `generics.Set[T]` in others. -/
def reference (scope : Scope) (d : InterfaceDecl) : Fragment :=
  scope.reference d.path d.name :: d.typeParams.arguments

/-- The type set of a declaration as an element of its body; an empty one is left
out. -/
def typeSetEntry (scope : Scope) (terms : List Term)
    (m : Type → Type := Except Unsupported) [Monad m] [Rejects m] : m (List Fragment) :=
  if terms.isEmpty then return [] else return [← TypeExpr.render scope false (.union terms) m]

/-- The declaration of an interface, the type set before the methods:
`type Map[K comparable, V any] interface{ Get(key K) (V, bool) }`. -/
def declaration (scope : Scope) (d : InterfaceDecl)
    (m : Type → Type := Except Unsupported) [Monad m] [Rejects m] : m Fragment := do
  let typeSet ← typeSetEntry scope d.typeSet m
  let methods ← d.methods.mapM fun x => x.entry scope m
  let clause ← d.typeParams.clause scope m
  return .keyword "type" :: .ident d.name ::
    (clause ++ [.keyword "interface", .group .brace (typeSet ++ methods)])

end InterfaceDecl

/-- Why a resolved interface has no written declaration. -/
inductive GenerateError where
  | malformed (cause : Malformed)
  | unsupported (cause : Unsupported)
deriving DecidableEq, Repr

/-- What is reported to the user. -/
def GenerateError.message : GenerateError → String
  | malformed cause => cause.message
  | unsupported cause => cause.message

/-- The written declaration of a resolved interface. -/
def InterfaceDecl.declare (scope : Scope) (name path : String) (typeParams : TypeParams)
    (resolved : TypeExpr) : Except GenerateError Fragment := do
  let d ← (build name path typeParams resolved).mapError .malformed
  (d.declaration scope).mapError .unsupported

end GoDecl
