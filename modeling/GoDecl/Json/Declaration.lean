import GoDecl.Declaration.Basic
import GoDecl.Json.TypeExpr

/-!
# The JSON form of declarations

Type parameters, methods and declared interfaces are objects whose fields all
have to be there; the two paths of a scope may be left out.

## Main definitions

* `InterfaceDecl.toJson`, `Json.interfaceDecl?`: declared interfaces
* `Scope.toJson`, `Json.scope?`: scopes
-/

namespace GoDecl

/-! ### Writing -/

/-- A group of type parameters as a document. -/
def TypeParamGroup.toJson (g : TypeParamGroup) : Json :=
  .object [("names", .array (g.names.map Json.string)), ("constraint", g.constraint.toJson)]

/-- A method as a document. -/
def Method.toJson (m : Method) : Json :=
  .object [("name", .string m.name), ("signature", m.signature.toJson)]

/-- A declared interface as a document. -/
def InterfaceDecl.toJson (d : InterfaceDecl) : Json :=
  .object [("name", .string d.name), ("import_path", .string d.path),
    ("type_params", .array (d.typeParams.map TypeParamGroup.toJson)),
    ("methods", .array (d.methods.map Method.toJson)),
    ("type_set", .array (Shape.Term.listToJson d.typeSet))]

/-- A scope as a document. -/
def Scope.toJson (s : Scope) : Json :=
  .object [("enclosing_import_path", .string s.enclosing),
    ("output_import_path", .string s.output)]

/-! ### Reading -/

namespace Json

/-- A group of type parameters. -/
def typeParamGroup? (j : Json) : Option TypeParamGroup := do
  let members ← j.members?
  let names ← required (list? string?) "names" members
  return ⟨names, ← required typeExpr? "constraint" members⟩

/-- A method. -/
def method? (j : Json) : Option Method := do
  let members ← j.members?
  let name ← required string? "name" members
  return ⟨name, ← required signature? "signature" members⟩

/-- A declared interface. -/
def interfaceDecl? (j : Json) : Option InterfaceDecl := do
  let members ← j.members?
  let name ← required string? "name" members
  let path ← required string? "import_path" members
  let typeParams ← required (list? typeParamGroup?) "type_params" members
  let methods ← required (list? method?) "methods" members
  return ⟨name, path, typeParams, methods, ← required terms? "type_set" members⟩

/-- A scope. -/
def scope? (j : Json) : Option Scope := do
  let members ← j.members?
  let enclosing ← defaulted "" string? "enclosing_import_path" members
  return ⟨enclosing, ← defaulted "" string? "output_import_path" members⟩

end Json

end GoDecl
