import GoDecl.Token.Basic

/-!
# Scopes

Where a type is written decides which names carry a qualifier: a name of the
package of the enclosing declaration, or of the package of the file that is
being written, stands alone, as do predeclared names.

## Main definitions

* `Scope.qualifies`: whether names of a package carry a qualifier
* `Scope.reference`: a name as it is written in a scope
-/

namespace GoDecl

/-- The import paths of the declaration that a type is written in and of the
file that it is written to. -/
structure Scope where
  enclosing : String
  output : String
deriving DecidableEq, Repr

namespace Scope

/-- The scope that knows neither package. -/
def empty : Scope := ⟨"", ""⟩

/-- The scope of a file in the package of the declaration itself. -/
def within (path : String) : Scope := ⟨path, path⟩

/-- Whether names declared in a package carry a qualifier. -/
def qualifies (s : Scope) (path : String) : Bool :=
  path ≠ "" && path ≠ s.output && path ≠ s.enclosing

/-- A declared name as it is written in a scope. -/
def reference (s : Scope) (path name : String) : Token :=
  if s.qualifies path then .qualified path name else .ident name

theorem qualifies_iff {s : Scope} {path : String} :
    s.qualifies path ↔ path ≠ "" ∧ path ≠ s.output ∧ path ≠ s.enclosing := by
  simp [qualifies, and_assoc]

end Scope

end GoDecl
