import GoDecl.Proofs.Induction

/-!
# Walking through a type

Rendering comes to the parts of a type one after the other.  What it comes to, in reading
order, is one list for each type, and what a statement counts or collects is read off that
list.  The methods of an interface with a type set, and the types that an interface embeds
beside its first union, are not come to.

## Main definitions

* `Visit`: what is come to: a type, or a method of an interface
* `TypeExpr.walk`: what is come to in a type

## Main results

* `walk_interface_of_some`, `walk_interface_of_none`: an interface is walked through as its
  type set if it has one, otherwise method by method
-/

namespace GoDecl

/-- What a walk through a type comes to: a type, or a method of an interface with the type
that the method is given. -/
inductive Visit where
  | type (t : TypeExpr)
  | method (name : String) (type : TypeExpr)

namespace TypeExpr

mutual

/-- What is come to in a type, the type itself first. -/
def walk : TypeExpr → List Visit
  | basic name => [.type (basic name)]
  | pointer elem => .type (pointer elem) :: walk elem
  | slice elem => .type (slice elem) :: walk elem
  | array len elem => .type (array len elem) :: walk elem
  | map key value => .type (map key value) :: (walk key ++ walk value)
  | chan dir elem => .type (chan dir elem) :: walk elem
  | struct fields => .type (struct fields) :: walkBindings fields
  | func signature => .type (func signature) :: walkSignature signature
  | interface body => .type (interface body) :: walkBody body
  | named ref => .type (named ref) :: walkRef ref
  | typeParam name => [.type (typeParam name)]
  | union terms => .type (union terms) :: walkTerms terms
  | tuple items => [.type (tuple items)]
termination_by structural t => t

/-- `walk` for fields, parameters or results. -/
def walkBindings : List Binding → List Visit
  | [] => []
  | b :: bs => walk b.type ++ walkBindings bs
termination_by structural bs => bs

/-- `walk` for a signature, the parameters before the results. -/
def walkSignature : Signature → List Visit
  | ⟨params, results, _⟩ => walkBindings params ++ walkBindings results
termination_by structural s => s

/-- `walk` for a method.  A type that is not a function is not looked into. -/
def walkMethod (name : String) : TypeExpr → List Visit
  | func signature => .method name (func signature) :: walkSignature signature
  | type => [.method name type]
termination_by structural t => t

/-- `walk` for the methods of an interface. -/
def walkMethods : List Binding → List Visit
  | [] => []
  | b :: bs => walkMethod b.name b.type ++ walkMethods bs
termination_by structural bs => bs

/-- `walk` for an interface: for its type set if it has one, otherwise for its methods. -/
def walkBody : InterfaceBody → List Visit
  | ⟨methods, embeds⟩ => (walkFirstUnion embeds).getD (walkMethods methods)
termination_by structural b => b

/-- `walk` for the first union among some types. -/
def walkFirstUnion : List TypeExpr → Option (List Visit)
  | [] => none
  | union terms :: _ => some (walkTerms terms)
  | _ :: rest => walkFirstUnion rest
termination_by structural ts => ts

/-- `walk` for the arguments of a reference. -/
def walkRef : TypeRef → List Visit
  | ⟨_, _, args⟩ => walkAll args
termination_by structural r => r

/-- `walk` for type arguments. -/
def walkAll : List TypeExpr → List Visit
  | [] => []
  | t :: ts => walk t ++ walkAll ts
termination_by structural ts => ts

/-- `walk` for the terms of a union. -/
def walkTerms : List Term → List Visit
  | [] => []
  | t :: ts => walk t.type ++ walkTerms ts
termination_by structural ts => ts

end

/-! ### The parts of a type, one after the other -/

theorem walkBindings_eq_flatMap (bs : List Binding) :
    walkBindings bs = bs.flatMap fun b => b.type.walk := by
  induction bs with
  | nil => rfl
  | cons b bs ih => rw [walkBindings, ih, List.flatMap_cons]

theorem walkMethods_eq_flatMap (bs : List Binding) :
    walkMethods bs = bs.flatMap fun b => walkMethod b.name b.type := by
  induction bs with
  | nil => rfl
  | cons b bs ih => rw [walkMethods, ih, List.flatMap_cons]

theorem walkAll_eq_flatMap (ts : List TypeExpr) : walkAll ts = ts.flatMap walk := by
  induction ts with
  | nil => rfl
  | cons t ts ih => rw [walkAll, ih, List.flatMap_cons]

theorem walkTerms_eq_flatMap (ts : List Term) : walkTerms ts = ts.flatMap fun t => t.type.walk := by
  induction ts with
  | nil => rfl
  | cons t ts ih => rw [walkTerms, ih, List.flatMap_cons]

theorem walkFirstUnion_decided :
    DecidedByUnion walkFirstUnion fun terms => some (walkTerms terms) where
  union _ _ := rfl
  skip t _ h := by cases t <;> first | rfl | cases h

theorem walk_interface_of_some {body : InterfaceBody} {terms : List Term}
    (h : body.unionTerms? = some terms) :
    walk (.interface body) = .type (.interface body) :: walkTerms terms := by
  rw [walk, walkBody, walkFirstUnion_decided.of_some h, Option.getD_some]

theorem walk_interface_of_none {body : InterfaceBody} (h : body.unionTerms? = none) :
    walk (.interface body) = .type (.interface body) :: walkMethods body.methods := by
  rw [walk, walkBody, walkFirstUnion_decided.of_none h]
  rfl

theorem walkMethod_of_signature?_eq_none {name : String} {t : TypeExpr}
    (h : t.signature? = none) : walkMethod name t = [.method name t] := by
  cases t with
  | func s => cases h
  | _ => rfl

end TypeExpr

end GoDecl
