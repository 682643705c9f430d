/-!
# Kinds of type expressions

A type expression has one of thirteen shapes.  Its kind names that shape in
diagnostics: an error reports the kind of the type it could not use.

## Main definitions

* `Kind`: the thirteen shapes, in the order `Kind.all` lists them
* `Kind.name`: the words a diagnostic uses for a kind
-/

namespace GoDecl

/-- The shape of a type expression. -/
inductive Kind where
  | basic
  | pointer
  | slice
  | array
  | map
  | chan
  | struct
  | signature
  | interface
  | named
  | typeParam
  | union
  | tuple
deriving DecidableEq, Repr, Inhabited

namespace Kind

/-- Every kind, once. -/
def all : List Kind :=
  [basic, pointer, slice, array, map, chan, struct, signature, interface, named, typeParam,
    union, tuple]

/-- The words a diagnostic uses for a kind. -/
def name : Kind → String
  | basic => "basic"
  | pointer => "pointer"
  | slice => "slice"
  | array => "array"
  | map => "map"
  | chan => "channel"
  | struct => "struct"
  | signature => "signature"
  | interface => "interface"
  | named => "named"
  | typeParam => "type parameter"
  | union => "union"
  | tuple => "tuple"

end Kind

end GoDecl
