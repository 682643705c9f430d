import GoDecl.Json.Basic
import GoDecl.TypeExpr.Basic

/-!
# The JSON form of type expressions

A type expression is an object with one member, whose name is the kind and whose
value holds the parts.  The parts are objects with a member for each field.  A
field that has a default may be left out, but may not be `null`; members of other
names are passed over.

## Main definitions

* `TypeExpr.toJson` and one function for each kind of part: writing
* `Json.typeExpr?` and one function for each kind of part: reading
-/

namespace GoDecl

/-! ### Names -/

/-- The name a kind has in a document. -/
def Kind.tag : Kind → String
  | basic => "Basic"
  | pointer => "Pointer"
  | slice => "Slice"
  | array => "Array"
  | map => "Map"
  | chan => "Chan"
  | struct => "Struct"
  | signature => "Signature"
  | interface => "Interface"
  | named => "Named"
  | typeParam => "TypeParam"
  | union => "Union"
  | tuple => "Tuple"

/-- The kind of a name. -/
def Kind.ofTag? (tag : String) : Option Kind :=
  Kind.all.find? fun k => k.tag = tag

/-- The name a direction has in a document. -/
def ChanDir.tag : ChanDir → String
  | both => "Both"
  | send => "Send"
  | recv => "Recv"

/-- The direction of a name. -/
def ChanDir.ofTag? (tag : String) : Option ChanDir :=
  [both, send, recv].find? fun d => d.tag = tag

theorem Kind.ofTag?_tag (k : Kind) : Kind.ofTag? k.tag = some k := by
  cases k <;> decide

theorem ChanDir.ofTag?_tag (d : ChanDir) : ChanDir.ofTag? d.tag = some d := by
  cases d <;> decide

/-- A kind by its name. -/
def Json.kind? (j : Json) : Option Kind := do Kind.ofTag? (← j.string?)

/-- A direction by its name. -/
def Json.chanDir? (j : Json) : Option ChanDir := do ChanDir.ofTag? (← j.string?)

/-! ### Writing -/

mutual

/-- A type expression as a document. -/
def TypeExpr.toJson : TypeExpr → Json
  | .basic name => .object [("Basic", .string name)]
  | .pointer elem => .object [("Pointer", elem.toJson)]
  | .slice elem => .object [("Slice", elem.toJson)]
  | .array len elem =>
    .object [("Array", .object [("len", .natural len.toNat), ("elem", elem.toJson)])]
  | .map key value => .object [("Map", .object [("key", key.toJson), ("value", value.toJson)])]
  | .chan dir elem =>
    .object [("Chan", .object [("dir", .string dir.tag), ("elem", elem.toJson)])]
  | .struct fields => .object [("Struct", .array (Shape.Binding.listToJson fields))]
  | .func signature => .object [("Signature", signature.toJson)]
  | .interface body => .object [("Interface", body.toJson)]
  | .named ref => .object [("Named", ref.toJson)]
  | .typeParam name => .object [("TypeParam", .string name)]
  | .union terms => .object [("Union", .array (Shape.Term.listToJson terms))]
  | .tuple items => .object [("Tuple", .array (Shape.Binding.listToJson items))]
termination_by structural t => t

/-- Type expressions as documents. -/
def TypeExpr.listToJson : List TypeExpr → List Json
  | [] => []
  | t :: ts => t.toJson :: TypeExpr.listToJson ts
termination_by structural ts => ts

/-- Fields, parameters, results or methods as documents. -/
def Shape.Binding.listToJson : List Binding → List Json
  | [] => []
  | b :: bs =>
    .object [("name", .string b.name), ("ty", b.type.toJson)] :: Shape.Binding.listToJson bs
termination_by structural bs => bs

/-- A signature as a document. -/
def Shape.Signature.toJson : Signature → Json
  | ⟨params, results, variadic⟩ =>
    .object [("params", .array (Shape.Binding.listToJson params)),
      ("results", .array (Shape.Binding.listToJson results)), ("variadic", .bool variadic)]
termination_by structural s => s

/-- An interface body as a document. -/
def Shape.InterfaceBody.toJson : InterfaceBody → Json
  | ⟨methods, embeds⟩ =>
    .object [("methods", .array (Shape.Binding.listToJson methods)),
      ("embeddeds", .array (TypeExpr.listToJson embeds))]
termination_by structural b => b

/-- A reference as a document. -/
def Shape.TypeRef.toJson : TypeRef → Json
  | ⟨name, path, args⟩ =>
    .object [("name", .string name), ("import_path", .string path),
      ("type_args", .array (TypeExpr.listToJson args))]
termination_by structural r => r

/-- The terms of a union as documents. -/
def Shape.Term.listToJson : List Term → List Json
  | [] => []
  | t :: ts => .object [("ty", t.type.toJson), ("tilde", .bool t.tilde)] :: Shape.Term.listToJson ts
termination_by structural ts => ts

end

/-- A field, a parameter, a result or a method as a document. -/
def Shape.Binding.toJson (b : Binding TypeExpr) : Json :=
  .object [("name", .string b.name), ("ty", b.type.toJson)]

/-- A term as a document. -/
def Shape.Term.toJson (t : Term TypeExpr) : Json :=
  .object [("ty", t.type.toJson), ("tilde", .bool t.tilde)]

/-! ### Reading -/

namespace Json

/-- The name of a binding: fields and methods have to be named, parameters and
results need not be. -/
def bindingName? (named : Bool) (members : List (String × Json)) : Option String :=
  if named then required string? "name" members else defaulted "" string? "name" members

mutual

/-- A type expression. -/
def typeExpr? : Json → Option TypeExpr
  | object [(tag, value)] => do
    match ← Kind.ofTag? tag with
    | .basic => return .basic (← value.string?)
    | .pointer => return .pointer (← typeExpr? value)
    | .slice => return .slice (← typeExpr? value)
    | .array => arrayType? value
    | .map => mapType? value
    | .chan => chanType? value
    | .struct => return .struct (← bindings? true value)
    | .signature => return .func (← signature? value)
    | .interface => return .interface (← interfaceBody? value)
    | .named => return .named (← typeRef? value)
    | .typeParam => return .typeParam (← value.string?)
    | .union => return .union (← terms? value)
    | .tuple => return .tuple (← bindings? false value)
  | _ => none
termination_by structural j => j

/-- An array type. -/
def arrayType? : Json → Option TypeExpr
  | object members => do
    let len ← required word? "len" members
    return .array len (← typeExprAt? "elem" members)
  | _ => none
termination_by structural j => j

/-- A map type. -/
def mapType? : Json → Option TypeExpr
  | object members => do
    let key ← typeExprAt? "key" members
    return .map key (← typeExprAt? "value" members)
  | _ => none
termination_by structural j => j

/-- A channel type, which goes both ways when no direction is given. -/
def chanType? : Json → Option TypeExpr
  | object members => do
    let dir ← defaulted .both chanDir? "dir" members
    return .chan dir (← typeExprAt? "elem" members)
  | _ => none
termination_by structural j => j

/-- The type expression that the member `name` holds. -/
def typeExprAt? (name : String) : List (String × Json) → Option TypeExpr
  | [] => none
  | (n, value) :: rest => if name = n then typeExpr? value else typeExprAt? name rest
termination_by structural members => members

/-- An array of type expressions. -/
def typeExprs? : Json → Option (List TypeExpr)
  | array items => typeExprList? items
  | _ => none
termination_by structural j => j

/-- Type expressions, one in each document. -/
def typeExprList? : List Json → Option (List TypeExpr)
  | [] => some []
  | j :: js => do
    let type ← typeExpr? j
    return type :: (← typeExprList? js)
termination_by structural js => js

/-- The type expressions that the member `name` holds; none if it is left out. -/
def typeExprsAt? (name : String) : List (String × Json) → Option (List TypeExpr)
  | [] => some []
  | (n, value) :: rest => if name = n then typeExprs? value else typeExprsAt? name rest
termination_by structural members => members

/-- A field or a method (`named`), or a parameter or a result. -/
def binding? (named : Bool) : Json → Option Binding
  | object members => do
    let name ← bindingName? named members
    return ⟨name, ← typeExprAt? "ty" members⟩
  | _ => none
termination_by structural j => j

/-- An array of bindings. -/
def bindings? (named : Bool) : Json → Option (List Binding)
  | array items => bindingList? named items
  | _ => none
termination_by structural j => j

/-- Bindings, one in each document. -/
def bindingList? (named : Bool) : List Json → Option (List Binding)
  | [] => some []
  | j :: js => do
    let b ← binding? named j
    return b :: (← bindingList? named js)
termination_by structural js => js

/-- The bindings that the member `name` holds; none if it is left out. -/
def bindingsAt? (named : Bool) (name : String) : List (String × Json) → Option (List Binding)
  | [] => some []
  | (n, value) :: rest => if name = n then bindings? named value else bindingsAt? named name rest
termination_by structural members => members

/-- A signature. -/
def signature? : Json → Option Signature
  | object members => do
    let params ← bindingsAt? false "params" members
    let results ← bindingsAt? false "results" members
    return ⟨params, results, ← defaulted false bool? "variadic" members⟩
  | _ => none
termination_by structural j => j

/-- An interface body. -/
def interfaceBody? : Json → Option InterfaceBody
  | object members => do
    let methods ← bindingsAt? true "methods" members
    return ⟨methods, ← typeExprsAt? "embeddeds" members⟩
  | _ => none
termination_by structural j => j

/-- A reference. -/
def typeRef? : Json → Option TypeRef
  | object members => do
    let name ← required string? "name" members
    let path ← defaulted "" string? "import_path" members
    return ⟨name, path, ← typeExprsAt? "type_args" members⟩
  | _ => none
termination_by structural j => j

/-- A term of a union. -/
def term? : Json → Option Term
  | object members => do
    let type ← typeExprAt? "ty" members
    return ⟨type, ← defaulted false bool? "tilde" members⟩
  | _ => none
termination_by structural j => j

/-- An array of terms. -/
def terms? : Json → Option (List Term)
  | array items => termList? items
  | _ => none
termination_by structural j => j

/-- Terms, one in each document. -/
def termList? : List Json → Option (List Term)
  | [] => some []
  | j :: js => do
    let t ← term? j
    return t :: (← termList? js)
termination_by structural js => js

end

/-! ### Members -/

theorem typeExprAt?_eq_required (name : String) (members : List (String × Json)) :
    typeExprAt? name members = required typeExpr? name members := by
  induction members with
  | nil => simp [typeExprAt?, required]
  | cons m ms ih =>
    obtain ⟨n, value⟩ := m
    by_cases h : name = n
    · simp [typeExprAt?, required, h]
    · have : (name == n) = false := by simpa using h
      simpa [typeExprAt?, required, List.lookup_cons, h, this] using ih

theorem typeExprsAt?_eq_defaulted (name : String) (members : List (String × Json)) :
    typeExprsAt? name members = defaulted [] typeExprs? name members := by
  induction members with
  | nil => simp [typeExprsAt?, defaulted]
  | cons m ms ih =>
    obtain ⟨n, value⟩ := m
    by_cases h : name = n
    · simp [typeExprsAt?, defaulted, h]
    · have : (name == n) = false := by simpa using h
      simpa [typeExprsAt?, defaulted, List.lookup_cons, h, this] using ih

theorem bindingsAt?_eq_defaulted (named : Bool) (name : String)
    (members : List (String × Json)) :
    bindingsAt? named name members = defaulted [] (bindings? named) name members := by
  induction members with
  | nil => simp [bindingsAt?, defaulted]
  | cons m ms ih =>
    obtain ⟨n, value⟩ := m
    by_cases h : name = n
    · simp [bindingsAt?, defaulted, h]
    · have : (name == n) = false := by simpa using h
      simpa [bindingsAt?, defaulted, List.lookup_cons, h, this] using ih

end Json

end GoDecl
