/-!
# JSON documents

Documents as they are read, with the members of an object in order.  Of the
numbers only those written as plain digits carry a value: no field of a type
takes any other.

An object gives each member that is read at most once.  A document that gives
one twice is outside the format, and nothing is said about how it is read; an
unknown member may stand there any number of times.

## Main definitions

* `Json`: a document
* `Json.string?`, `Json.bool?`, `Json.word?`: the scalars the fields of a type hold
* `Json.required`, `Json.defaulted`: the member of a name, which has to be there
  or may be left out
-/

namespace GoDecl

/-- A JSON document.  A number with a sign, a fraction or an exponent is an
`otherNumber`. -/
inductive Json where
  | null
  | bool (value : Bool)
  | natural (value : Nat)
  | otherNumber
  | string (value : String)
  | array (items : List Json)
  | object (members : List (String × Json))
deriving Inhabited

namespace Json

/-- A text. -/
def string? : Json → Option String
  | string value => some value
  | _ => none

/-- A truth value. -/
def bool? : Json → Option Bool
  | bool value => some value
  | _ => none

/-- A natural number below `2 ^ 64`. -/
def word? : Json → Option UInt64
  | natural value => if h : value < UInt64.size then some (UInt64.ofNatLT value h) else none
  | _ => none

/-- The items of an array. -/
def items? : Json → Option (List Json)
  | array items => some items
  | _ => none

/-- The items of an array, each read by `read`. -/
def list? {α : Type} (read : Json → Option α) (j : Json) : Option (List α) := do
  (← j.items?).mapM read

/-- The members of an object. -/
def members? : Json → Option (List (String × Json))
  | object members => some members
  | _ => none

/-- A member that has to be there.  An object that gives it twice is outside the
format. -/
def required {α : Type} (read : Json → Option α) (name : String)
    (members : List (String × Json)) : Option α := do
  read (← members.lookup name)

/-- A member that may be left out, which then has the value `default`.  An object
that gives it twice is outside the format. -/
def defaulted {α : Type} (default : α) (read : Json → Option α) (name : String)
    (members : List (String × Json)) : Option α :=
  match members.lookup name with
  | none => some default
  | some value => read value

theorem word?_natural_toNat (n : UInt64) : word? (natural n.toNat) = some n := by
  simp [word?, n.toNat_lt_size]

end Json

end GoDecl
