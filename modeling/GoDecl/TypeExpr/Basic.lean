import GoDecl.Kind

/-!
# Type expressions

The types a resolver hands over, as finite trees.  A declared type is a
reference by name and import path and never holds its own structure, so a
recursive declaration is a finite tree too.

The parts that hold types (fields, signatures, interface bodies, references,
union terms) are structures over the type of types `τ`, in the namespace
`Shape`; `TypeExpr` closes the recursion, and the short names `Binding`,
`Signature`, `InterfaceBody`, `TypeRef` and `Term` are those structures over
`TypeExpr`.

## Main definitions

* `TypeExpr`: a Go type, a union of constraint terms, or a tuple
* `TypeExpr.kind`: the shape of a type expression
* `Shape.InterfaceBody.unionTerms?`: the type set an interface body declares
-/

namespace GoDecl

/-- The direction of a channel: both ways, only sending, or only receiving. -/
inductive ChanDir where
  | both
  | send
  | recv
deriving DecidableEq, Repr, Inhabited

namespace Shape

/-- A type under a name: a field, a parameter, a result or a method.  The
empty name stands for none. -/
structure Binding (τ : Type) where
  name : String
  type : τ
deriving DecidableEq, Repr, Inhabited

/-- The parameters and results of a function.  The type of the last parameter
of a variadic function is a slice. -/
structure Signature (τ : Type) where
  params : List (Binding τ)
  results : List (Binding τ)
  variadic : Bool
deriving DecidableEq, Repr, Inhabited

namespace Signature

variable {τ : Type}

/-- No parameters and no results. -/
def empty : Signature τ := ⟨[], [], false⟩

/-- Adds a parameter behind the others. -/
def withParam (s : Signature τ) (name : String) (type : τ) : Signature τ :=
  { s with params := s.params ++ [⟨name, type⟩] }

/-- Adds a result behind the others; an unnamed one has the empty name. -/
def withResult (s : Signature τ) (name : String) (type : τ) : Signature τ :=
  { s with results := s.results ++ [⟨name, type⟩] }

/-- Makes the last parameter take any number of values. -/
def asVariadic (s : Signature τ) : Signature τ :=
  { s with variadic := true }

end Signature

/-- What stands between the braces of an interface: its methods, those of
embedded interfaces among them, and the other types it embeds. -/
structure InterfaceBody (τ : Type) where
  methods : List (Binding τ)
  embeds : List τ
deriving DecidableEq, Repr, Inhabited

namespace InterfaceBody

variable {τ : Type}

/-- No methods and no embedded types. -/
def empty : InterfaceBody τ := ⟨[], []⟩

/-- Adds an embedded type behind the others. -/
def withEmbed (b : InterfaceBody τ) (type : τ) : InterfaceBody τ :=
  { b with embeds := b.embeds ++ [type] }

end InterfaceBody

/-- A reference to a declared type, instantiated when it has arguments.  A
predeclared type has the empty import path. -/
structure TypeRef (τ : Type) where
  name : String
  path : String
  args : List τ
deriving DecidableEq, Repr, Inhabited

/-- A term of a union.  With the tilde it stands for every type whose
underlying type is `type`. -/
structure Term (τ : Type) where
  type : τ
  tilde : Bool
deriving DecidableEq, Repr, Inhabited

namespace Term

variable {τ : Type}

/-- The term that stands for `type` alone. -/
def exact (type : τ) : Term τ := ⟨type, false⟩

/-- The term that stands for every type whose underlying type is `type`. -/
def approx (type : τ) : Term τ := ⟨type, true⟩

end Term

end Shape

/-- A Go type; or a union of constraint terms, which stands for a type only
inside an interface; or a tuple, which has no syntax at all. -/
inductive TypeExpr where
  | basic (name : String)
  | pointer (elem : TypeExpr)
  | slice (elem : TypeExpr)
  | array (len : UInt64) (elem : TypeExpr)
  | map (key value : TypeExpr)
  | chan (dir : ChanDir) (elem : TypeExpr)
  | struct (fields : List (Shape.Binding TypeExpr))
  | func (signature : Shape.Signature TypeExpr)
  | interface (body : Shape.InterfaceBody TypeExpr)
  | named (ref : Shape.TypeRef TypeExpr)
  | typeParam (name : String)
  | union (terms : List (Shape.Term TypeExpr))
  | tuple (items : List (Shape.Binding TypeExpr))
deriving Inhabited

/-- A field, a parameter, a result or a method, with its type. -/
abbrev Binding := Shape.Binding TypeExpr

/-- The parameters and results of a function. -/
abbrev Signature := Shape.Signature TypeExpr

/-- The methods and the embedded types of an interface. -/
abbrev InterfaceBody := Shape.InterfaceBody TypeExpr

/-- A reference to a declared type. -/
abbrev TypeRef := Shape.TypeRef TypeExpr

/-- A term of a union. -/
abbrev Term := Shape.Term TypeExpr

/-! ### Type expressions by name -/

namespace TypeExpr

/-- The basic type `string`. -/
def string : TypeExpr := .basic "string"

/-- The basic type `int`. -/
def int : TypeExpr := .basic "int"

/-- The basic type `bool`. -/
def bool : TypeExpr := .basic "bool"

/-- The predeclared interface `error`. -/
def error : TypeExpr := .named ⟨"error", "", []⟩

/-- The interface that embeds one union and nothing else, as a constraint is
written. -/
def constraint (terms : List Term) : TypeExpr :=
  .interface (Shape.InterfaceBody.empty.withEmbed (.union terms))

/-! ### Views -/

/-- The shape of a type expression. -/
def kind : TypeExpr → Kind
  | basic _ => .basic
  | pointer _ => .pointer
  | slice _ => .slice
  | array .. => .array
  | map .. => .map
  | chan .. => .chan
  | struct _ => .struct
  | func _ => .signature
  | interface _ => .interface
  | named _ => .named
  | typeParam _ => .typeParam
  | union _ => .union
  | tuple _ => .tuple

/-- The signature of a function type. -/
def signature? : TypeExpr → Option Signature
  | func signature => some signature
  | _ => none

/-- The body of an interface type. -/
def interface? : TypeExpr → Option InterfaceBody
  | interface body => some body
  | _ => none

/-- The terms of a union. -/
def unionTerms? : TypeExpr → Option (List Term)
  | union terms => some terms
  | _ => none

/-- Whether a type is a channel that can only be received from. -/
def isRecvChan : TypeExpr → Bool
  | chan .recv _ => true
  | _ => false

theorem signature?_eq_some_iff {t : TypeExpr} {s : Signature} :
    t.signature? = some s ↔ t = .func s := by
  cases t <;> simp [signature?]

theorem interface?_eq_some_iff {t : TypeExpr} {b : InterfaceBody} :
    t.interface? = some b ↔ t = .interface b := by
  cases t <;> simp [interface?]

theorem signature?_eq_none_iff {t : TypeExpr} :
    t.signature? = none ↔ t.kind ≠ .signature := by
  cases t <;> simp [signature?, kind]

end TypeExpr

namespace Shape.InterfaceBody

/-- Adds a method behind the others. -/
def withMethod (b : InterfaceBody TypeExpr) (name : String) (signature : Signature TypeExpr) :
    InterfaceBody TypeExpr :=
  { b with methods := b.methods ++ [⟨name, .func signature⟩] }

/-- The type set an interface body declares: the terms of the first union among
its embedded types. -/
def unionTerms? (b : InterfaceBody TypeExpr) : Option (List (Term TypeExpr)) :=
  b.embeds.findSome? TypeExpr.unionTerms?

end Shape.InterfaceBody

end GoDecl
