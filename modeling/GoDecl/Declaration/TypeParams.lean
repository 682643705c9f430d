import GoDecl.Rendering
import GoDecl.TypeExpr.Equality

/-!
# Type parameters

The type parameters of a declaration come in groups that share a constraint:
`[K, V comparable]` is one group with two names.

The clause `[T *C]` with a single name would be read as an array length, the
product of `T` and `C`, so a lone name whose constraint begins with a star has a
comma behind it: `[T *C,]`.

## Main definitions

* `TypeParams.clause`: the parameters where they are declared
* `TypeParams.arguments`: the parameters where the declared type is used
-/

namespace GoDecl

/-- Some type parameters and the constraint they share. -/
structure TypeParamGroup where
  names : List String
  constraint : TypeExpr
deriving DecidableEq

/-- The type parameters of a declaration. -/
abbrev TypeParams := List TypeParamGroup

mutual

/-- Whether a token begins with a star. -/
def Token.startsWithStar : Token → Bool
  | .punct .star => true
  | .group .pipe items => Fragment.firstStartsWithStar items
  | _ => false

/-- Whether a fragment begins with a star, directly or in the first term of a
union. -/
def Fragment.startsWithStar : List Token → Bool
  | [] => false
  | t :: _ => t.startsWithStar

/-- Whether the first item of a group begins with a star. -/
def Fragment.firstStartsWithStar : List (List Token) → Bool
  | [] => false
  | f :: _ => Fragment.startsWithStar f

end

/-- Names with commas between them. -/
def Fragment.nameList (names : List String) : Fragment :=
  (names.map Token.ident).intersperse (.punct .comma)

theorem Fragment.nameList_cons_cons (name name' : String) (names : List String) :
    nameList (name :: name' :: names) =
      .ident name :: .punct .comma :: nameList (name' :: names) := rfl

/-- The names of a group and its constraint.  With `lone` a constraint that
begins with a star has a comma behind it. -/
def TypeParamGroup.render (scope : Scope) (lone : Bool) (g : TypeParamGroup)
    (m : Type → Type := Except Unsupported) [Monad m] [Rejects m] : m Fragment := do
  let constraint ← g.constraint.render scope false m
  let comma := if lone && Fragment.startsWithStar constraint then [.punct .comma] else []
  return Fragment.nameList g.names ++ constraint ++ comma

namespace TypeParams

/-- Every declared name, in order. -/
def names (ps : TypeParams) : List String :=
  ps.flatMap TypeParamGroup.names

/-- Whether a single group declares a single name. -/
def isLone : TypeParams → Bool
  | [g] => g.names.length = 1
  | _ => false

/-- The parameters where they are declared: `[K comparable, V any]`. -/
def clause (scope : Scope) (ps : TypeParams)
    (m : Type → Type := Except Unsupported) [Monad m] [Rejects m] : m Fragment :=
  return Fragment.bracketed (← ps.mapM fun g => g.render scope (isLone ps) m)

/-- The parameters where the declared type is used: `[K, V]`. -/
def arguments (ps : TypeParams) : Fragment :=
  Fragment.bracketed (ps.names.map fun name => [.ident name])

end TypeParams

end GoDecl
