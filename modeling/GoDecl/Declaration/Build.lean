import GoDecl.Declaration.Basic

/-!
# Building interface declarations

A declaration is built from its name, its import path and its resolved type.
The order in which the resolver lists the methods is forgotten, and of several
methods with one name the last stays.

## Main definitions

* `Malformed`: why there is no declaration
* `InterfaceDecl.build`: the declaration of a resolved interface
-/

namespace GoDecl

/-- Why there is no declaration: it has no name or no import path, its type is
not an interface, or one of the methods is not a function. -/
inductive Malformed where
  | emptyName
  | emptyPath (name : String)
  | notInterface (name : String) (kind : Kind)
  | notSignature (interface method : String) (kind : Kind)
deriving DecidableEq, Repr

/-- What is reported to the user. -/
def Malformed.message : Malformed → String
  | emptyName => "interface name cannot be empty"
  | emptyPath name => "import path of interface " ++ name ++ " cannot be empty"
  | notInterface name kind => name ++ " is not an interface (resolved to " ++ kind.name ++ ")"
  | notSignature interface method kind =>
    "method " ++ interface ++ "." ++ method ++ " is not a signature (resolved to " ++ kind.name ++ ")"

/-- The method that a resolved interface lists, if its type is a function. -/
def Method.ofBinding (interface : String) (b : Binding) : Except Malformed Method :=
  match b.type.signature? with
  | some signature => .ok ⟨b.name, signature⟩
  | none => .error (.notSignature interface b.name b.type.kind)

namespace InterfaceDecl

/-- The declaration of a resolved interface.  The name is looked at first, then
the import path, then the type, then its methods as they are listed. -/
def build (name path : String) (typeParams : TypeParams) (resolved : TypeExpr) :
    Except Malformed InterfaceDecl :=
  if name = "" then .error .emptyName
  else if path = "" then .error (.emptyPath name)
  else
    match resolved.interface? with
    | none => .error (.notInterface name resolved.kind)
    | some body => do
      let methods ← body.methods.mapM (Method.ofBinding name)
      return ⟨name, path, typeParams, Method.collect methods, body.unionTerms?.getD []⟩

end InterfaceDecl

end GoDecl
