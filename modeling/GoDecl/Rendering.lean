import GoDecl.Scope
import GoDecl.TypeExpr.Basic

/-!
# Rendering type expressions

Every type expression has one way to be written in a scope, except a tuple,
which has no syntax, and an interface with a method that is not a function.
Rendering stops at the first of these in reading order.

A flag `spread` marks the place of the last parameter of a variadic function,
where a slice `[]T` is written `...T`.  The flag belongs to that place alone and
never reaches a type inside the parameter.

Rendering is written once, for every monad `m` that can give up what is being
written.  Where no monad is named it is `Except Unsupported`, whose outcome is
the source or the error and nothing else.

## Main definitions

* `Unsupported`: why a type expression cannot be written
* `Rejects`: a monad in which what is being written can be given up
* `TypeExpr.render`: the source of a type expression, with one function for each
  kind of part

## Main results

* `renderAll_eq_mapM`, `renderResults_eq_mapM`, `renderMethods_eq_mapM`,
  `renderTerms_eq_mapM`: the parts of a type are rendered one after the other
* `renderFirstUnion_eq`: an interface with a type set is written as that set
-/

namespace GoDecl

/-- Why a type expression cannot be written: it holds a tuple, or an interface
with a method that is not a function. -/
inductive Unsupported where
  | tuple
  | method (name : String) (kind : Kind)
deriving DecidableEq, Repr

namespace Unsupported

/-- The kind of the type that could not be written. -/
def kind : Unsupported → Kind
  | tuple => .tuple
  | method _ kind => kind

/-- What is reported to the user. -/
def message (e : Unsupported) : String :=
  "unsupported type node: no rendering rule for " ++ e.kind.name

end Unsupported

/-- A monad in which what is being written can be given up. -/
class Rejects (m : Type → Type) where
  reject {α : Type} (cause : Unsupported) : m α

export Rejects (reject)

/-- A rejection is the error of the outcome. -/
instance : Rejects (Except Unsupported) where
  reject := .error

/-- Nothing is written behind a rejection. -/
class LawfulRejects (m : Type → Type) [Monad m] [Rejects m] : Prop where
  reject_bind {α β : Type} (cause : Unsupported) (k : α → m β) :
    reject cause >>= k = reject cause

/-- The keyword and the arrow of a channel type. -/
def ChanDir.tokens : ChanDir → Fragment
  | both => [.keyword "chan"]
  | send => [.keyword "chan", .punct .sendArrow]
  | recv => [.punct .recvArrow, .keyword "chan"]

namespace Fragment

/-- A name and what it names; without a name, what it names alone. -/
def entry (name : String) (type : Fragment) : Fragment :=
  if name = "" then type else .ident name :: type

/-- The results of a function: one result stands alone, several stand in
parentheses. -/
def resultClause : List Fragment → Fragment
  | [] => []
  | [result] => result
  | results => [.group .paren results]

/-- A list in brackets, which is left out when it is empty. -/
def bracketed : List Fragment → Fragment
  | [] => []
  | items => [.group .bracket items]

/-- A term of a union. -/
def term (tilde : Bool) (type : Fragment) : Fragment :=
  if tilde then .punct .tilde :: type else type

end Fragment

namespace TypeExpr

/-- The element of a channel as it is written.  In `chan <-chan T` the arrow
would belong to the first `chan`, so the element stands in parentheses. -/
def chanElem (dir : ChanDir) (elem : TypeExpr) (source : Fragment) : Fragment :=
  if dir = .both && elem.isRecvChan then [.group .paren [source]] else source

mutual

/-- The source of a type expression in a scope. -/
def render (scope : Scope) (spread : Bool) (t : TypeExpr)
    (m : Type → Type := Except Unsupported) [Monad m] [Rejects m] : m Fragment :=
  match t with
  | basic name => return [.ident name]
  | pointer elem => return .punct .star :: (← render scope false elem m)
  | slice elem =>
    return .punct (if spread then .ellipsis else .brackets) :: (← render scope false elem m)
  | array len elem =>
    return .group .index [[.ident (toString len.toNat)]] :: (← render scope false elem m)
  | map key value => do
    let key ← render scope false key m
    let value ← render scope false value m
    return .keyword "map" :: .group .index [key] :: value
  | chan dir elem => return dir.tokens ++ chanElem dir elem (← render scope false elem m)
  | struct fields =>
    return [.keyword "struct", .group .brace (← renderEntries scope false fields m)]
  | func signature => return .keyword "func" :: (← renderSignature scope signature m)
  | interface body => renderBody scope body m
  | named ref => renderRef scope ref m
  | typeParam name => return [.ident name]
  | union terms => return [.group .pipe (← renderTerms scope terms m)]
  | tuple _ => reject .tuple
termination_by structural t

/-- Parameters or fields with their names.  The last one may be the place of a
variadic parameter. -/
def renderEntries (scope : Scope) (variadic : Bool) (bs : List Binding)
    (m : Type → Type := Except Unsupported) [Monad m] [Rejects m] : m (List Fragment) :=
  match bs with
  | [] => return []
  | b :: bs => do
    let type ← render scope (variadic && bs.isEmpty) b.type m
    let rest ← renderEntries scope variadic bs m
    return Fragment.entry b.name type :: rest
termination_by structural bs

/-- Results, which are written without their names. -/
def renderResults (scope : Scope) (bs : List Binding)
    (m : Type → Type := Except Unsupported) [Monad m] [Rejects m] : m (List Fragment) :=
  match bs with
  | [] => return []
  | b :: bs => do
    let type ← render scope false b.type m
    let rest ← renderResults scope bs m
    return type :: rest
termination_by structural bs

/-- The parameters and results of a function, behind `func` or a method name. -/
def renderSignature (scope : Scope) (s : Signature)
    (m : Type → Type := Except Unsupported) [Monad m] [Rejects m] : m Fragment :=
  match s with
  | ⟨params, results, variadic⟩ => do
    let params ← renderEntries scope variadic params m
    let results ← renderResults scope results m
    return .group .paren params :: Fragment.resultClause results
termination_by structural s

/-- A method of an interface.  A type that is not a function is not looked
into. -/
def renderMethod (scope : Scope) (name : String) (t : TypeExpr)
    (m : Type → Type := Except Unsupported) [Monad m] [Rejects m] : m Fragment :=
  match t with
  | func signature => return .ident name :: (← renderSignature scope signature m)
  | type => reject (.method name type.kind)
termination_by structural t

/-- The methods of an interface. -/
def renderMethods (scope : Scope) (bs : List Binding)
    (m : Type → Type := Except Unsupported) [Monad m] [Rejects m] : m (List Fragment) :=
  match bs with
  | [] => return []
  | b :: bs => do
    let method ← renderMethod scope b.name b.type m
    let rest ← renderMethods scope bs m
    return method :: rest
termination_by structural bs

/-- An interface: its type set alone if it declares one, otherwise its methods. -/
def renderBody (scope : Scope) (b : InterfaceBody)
    (m : Type → Type := Except Unsupported) [Monad m] [Rejects m] : m Fragment :=
  match b with
  | ⟨methods, embeds⟩ =>
    match renderFirstUnion scope embeds m with
    | some source => source
    | none => return [.keyword "interface", .group .brace (← renderMethods scope methods m)]
termination_by structural b

/-- The first union among some embedded types. -/
def renderFirstUnion (scope : Scope) (ts : List TypeExpr)
    (m : Type → Type := Except Unsupported) [Monad m] [Rejects m] : Option (m Fragment) :=
  match ts with
  | [] => none
  | union terms :: _ => some do return [.group .pipe (← renderTerms scope terms m)]
  | _ :: rest => renderFirstUnion scope rest m
termination_by structural ts

/-- A reference, with its arguments in brackets if it has any. -/
def renderRef (scope : Scope) (r : TypeRef)
    (m : Type → Type := Except Unsupported) [Monad m] [Rejects m] : m Fragment :=
  match r with
  | ⟨name, path, args⟩ =>
    return scope.reference path name :: Fragment.bracketed (← renderAll scope args m)
termination_by structural r

/-- Type arguments. -/
def renderAll (scope : Scope) (ts : List TypeExpr)
    (m : Type → Type := Except Unsupported) [Monad m] [Rejects m] : m (List Fragment) :=
  match ts with
  | [] => return []
  | t :: ts => do
    let source ← render scope false t m
    let rest ← renderAll scope ts m
    return source :: rest
termination_by structural ts

/-- The terms of a union. -/
def renderTerms (scope : Scope) (ts : List Term)
    (m : Type → Type := Except Unsupported) [Monad m] [Rejects m] : m (List Fragment) :=
  match ts with
  | [] => return []
  | t :: ts => do
    let type ← render scope false t.type m
    let rest ← renderTerms scope ts m
    return Fragment.term t.tilde type :: rest
termination_by structural ts

end

/-! ### The parts of a type, one after the other -/

theorem renderAll_eq_mapM (scope : Scope) (ts : List TypeExpr) :
    renderAll scope ts = ts.mapM (render scope false) := by
  induction ts with
  | nil => rw [renderAll, List.mapM_nil]
  | cons t ts ih => rw [renderAll, List.mapM_cons, ih]

theorem renderResults_eq_mapM (scope : Scope) (bs : List Binding) :
    renderResults scope bs = bs.mapM fun b => render scope false b.type := by
  induction bs with
  | nil => rw [renderResults, List.mapM_nil]
  | cons b bs ih => rw [renderResults, List.mapM_cons, ih]

theorem renderMethods_eq_mapM (scope : Scope) (bs : List Binding) :
    renderMethods scope bs = bs.mapM fun b => renderMethod scope b.name b.type := by
  induction bs with
  | nil => rw [renderMethods, List.mapM_nil]
  | cons b bs ih => rw [renderMethods, List.mapM_cons, ih]

theorem renderTerms_eq_mapM (scope : Scope) (ts : List Term) :
    renderTerms scope ts =
      ts.mapM fun t => return Fragment.term t.tilde (← render scope false t.type) := by
  induction ts with
  | nil => rw [renderTerms, List.mapM_nil]
  | cons t ts ih => rw [renderTerms, List.mapM_cons, ih]; simp

/-- **An interface with a type set is written as that set:** the first embedded
union decides. -/
theorem renderFirstUnion_eq (scope : Scope) (embeds : List TypeExpr) :
    renderFirstUnion scope embeds =
      (embeds.findSome? unionTerms?).map fun terms => render scope false (.union terms) := by
  induction embeds with
  | nil => simp [renderFirstUnion]
  | cons t ts ih =>
    cases t with
    | union terms =>
      simp only [renderFirstUnion, List.findSome?_cons, unionTerms?, Option.map, render]
    | _ => simp only [renderFirstUnion, List.findSome?_cons, unionTerms?, ih]

end TypeExpr

end GoDecl
