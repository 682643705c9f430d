import GoDecl.Declaration.Source
import GoDecl.Proofs.Induction

/-!
# Scopes and qualifiers

A scope decides which names carry a qualifier and nothing else.  What is written in a
scope is what is written in the scope that knows no package, without the qualifiers of
the two packages of the scope; and what cannot be written in one scope cannot be written
in the other, for the same reason.

## Main definitions

* `Fragment.unqualify`: a fragment without the qualifiers of the packages of a scope

## Main results

* `render_unqualify`, `clause_unqualify`, `declaration_unqualify`: types, type parameters
  and declarations are written alike in all scopes, up to qualifiers
* `scope_decides_qualifiers`: the three of them, and that the two packages of a scope
  play the same part
-/

namespace GoDecl

/-! ### Dropping qualifiers -/

mutual

/-- A token without the qualifiers of the packages of a scope. -/
@[simp] def Token.unqualify (scope : Scope) : Token → Token
  | .qualified path name =>
    if path = scope.enclosing ∨ path = scope.output then .ident name else .qualified path name
  | .group delim items => .group delim (Fragment.unqualifyItems scope items)
  | .ident name => .ident name
  | .keyword word => .keyword word
  | .punct mark => .punct mark
  | .comment text => .comment text

/-- A fragment without the qualifiers of the packages of a scope. -/
@[simp] def Fragment.unqualify (scope : Scope) : List Token → List Token
  | [] => []
  | t :: ts => t.unqualify scope :: Fragment.unqualify scope ts

/-- The items of a group without the qualifiers of the packages of a scope. -/
def Fragment.unqualifyItems (scope : Scope) : List (List Token) → List (List Token)
  | [] => []
  | f :: fs => Fragment.unqualify scope f :: Fragment.unqualifyItems scope fs

end

theorem Scope.reference_unqualify (scope : Scope) (path name : String) :
    (Scope.empty.reference path name).unqualify scope = scope.reference path name := by
  by_cases hpath : path = ""
  · simp [reference, qualifies, hpath, Token.unqualify]
  · have hempty : Scope.empty.qualifies path = true := by
      simp [qualifies, empty, hpath]
    rw [reference, reference, if_pos hempty, Token.unqualify]
    by_cases hscope : path = scope.enclosing ∨ path = scope.output
    · have hplain : ¬ scope.qualifies path = true := by
        rw [qualifies_iff]
        tauto
      rw [if_pos hscope, if_neg hplain]
    · have hqualified : scope.qualifies path = true := by
        rw [qualifies_iff]
        tauto
      rw [if_neg hscope, if_pos hqualified]

namespace Fragment

variable (scope : Scope)

@[simp] theorem unqualify_append (f g : Fragment) :
    unqualify scope (f ++ g) = unqualify scope f ++ unqualify scope g := by
  induction f with
  | nil => simp [unqualify]
  | cons t ts ih => simp [unqualify, ih]

@[simp] theorem unqualifyItems_eq_map (fs : List Fragment) :
    unqualifyItems scope fs = fs.map (unqualify scope) := by
  induction fs with
  | nil => simp [unqualifyItems]
  | cons f fs ih => simp [unqualifyItems, ih]

@[simp] theorem unqualify_entry (name : String) (type : Fragment) :
    unqualify scope (entry name type) = entry name (unqualify scope type) := by
  rw [entry, entry]
  split
  · rfl
  · simp

@[simp] theorem unqualify_term (tilde : Bool) (type : Fragment) :
    unqualify scope (term tilde type) = term tilde (unqualify scope type) := by
  cases tilde <;> simp [term]

@[simp] theorem unqualify_resultClause (results : List Fragment) :
    unqualify scope (resultClause results) = resultClause (results.map (unqualify scope)) := by
  match results with
  | [] => simp [resultClause]
  | [result] => simp [resultClause]
  | r :: r' :: rs => simp [resultClause]

@[simp] theorem unqualify_bracketed (items : List Fragment) :
    unqualify scope (bracketed items) = bracketed (items.map (unqualify scope)) := by
  cases items <;> simp [bracketed]

@[simp] theorem unqualify_chanTokens (dir : ChanDir) : unqualify scope dir.tokens = dir.tokens := by
  cases dir <;> simp [ChanDir.tokens]

@[simp] theorem unqualify_chanElem (dir : ChanDir) (elem : TypeExpr) (source : Fragment) :
    unqualify scope (TypeExpr.chanElem dir elem source) =
      TypeExpr.chanElem dir elem (unqualify scope source) := by
  rw [TypeExpr.chanElem, TypeExpr.chanElem]
  split
  · simp
  · rfl

@[simp] theorem unqualify_nameList (names : List String) :
    unqualify scope (nameList names) = nameList names := by
  induction names with
  | nil => simp [nameList]
  | cons name names ih =>
    cases names with
    | nil => simp [nameList]
    | cons name' names => simpa [nameList] using ih

mutual

/-- A qualifier does not hide a star. -/
theorem startsWithStar_unqualify_token : ∀ t : Token,
    (t.unqualify scope).startsWithStar = t.startsWithStar
  | .qualified path name => by
    rw [Token.unqualify]
    split <;> rfl
  | .group delim items => by
    cases delim with
    | pipe => exact firstStartsWithStar_unqualify items
    | _ => rfl
  | .ident _ | .keyword _ | .punct _ | .comment _ => by rw [Token.unqualify]

theorem startsWithStar_unqualify : ∀ f : Fragment,
    startsWithStar (unqualify scope f) = startsWithStar f
  | [] => by rw [unqualify]
  | t :: ts => by rw [unqualify, startsWithStar, startsWithStar, startsWithStar_unqualify_token t]

theorem firstStartsWithStar_unqualify : ∀ fs : List Fragment,
    firstStartsWithStar (unqualifyItems scope fs) = firstStartsWithStar fs
  | [] => by rw [unqualifyItems]
  | f :: fs => by
    rw [unqualifyItems, firstStartsWithStar, firstStartsWithStar, startsWithStar_unqualify f]

end

end Fragment

/-! ### The two packages of a scope -/

mutual

theorem Token.unqualify_swap (enclosing output : String) : ∀ t : Token,
    t.unqualify ⟨output, enclosing⟩ = t.unqualify ⟨enclosing, output⟩
  | .qualified path name => by simp only [Token.unqualify, or_comm]
  | .group delim items => by
    rw [Token.unqualify, Token.unqualify, Fragment.unqualifyItems_swap enclosing output items]
  | .ident _ | .keyword _ | .punct _ | .comment _ => by rw [Token.unqualify, Token.unqualify]

theorem Fragment.unqualify_swap (enclosing output : String) : ∀ f : Fragment,
    Fragment.unqualify ⟨output, enclosing⟩ f = Fragment.unqualify ⟨enclosing, output⟩ f
  | [] => rfl
  | t :: ts => by
    rw [Fragment.unqualify, Fragment.unqualify, t.unqualify_swap enclosing output,
      Fragment.unqualify_swap enclosing output ts]

theorem Fragment.unqualifyItems_swap (enclosing output : String) : ∀ fs : List Fragment,
    Fragment.unqualifyItems ⟨output, enclosing⟩ fs =
      Fragment.unqualifyItems ⟨enclosing, output⟩ fs
  | [] => rfl
  | f :: fs => by
    rw [Fragment.unqualifyItems, Fragment.unqualifyItems,
      Fragment.unqualify_swap enclosing output f, Fragment.unqualifyItems_swap enclosing output fs]

end

/-! ### Types -/

/-- Computations that give related results one by one give related lists of results. -/
theorem mapM_eq_map {ε α β γ : Type} {u : β → γ} {k : α → Except ε γ} {k' : α → Except ε β}
    {as : List α} (h : ∀ a ∈ as, k a = u <$> k' a) : as.mapM k = List.map u <$> as.mapM k' := by
  induction as with
  | nil => simp
  | cons a as ih =>
    obtain ⟨ha, has⟩ := List.forall_mem_cons.mp h
    simp only [List.mapM_cons, ha, ih has, map_bind, bind_map_left, map_pure, List.map_cons]

namespace TypeExpr

open Fragment

variable (scope : Scope)

/-- A type is written in a scope as it is written in no scope, up to qualifiers. -/
abbrev Unqualified (t : TypeExpr) : Prop :=
  ∀ spread, t.render scope spread = unqualify scope <$> t.render .empty spread

variable {scope}

/-- Entries are not an instance of `mapM_eq_map`, since the last of them may be the place of a
variadic parameter. -/
theorem renderEntries_unqualify {bs : List Binding} (h : ∀ b ∈ bs, b.type.Unqualified scope)
    (variadic : Bool) : renderEntries scope variadic bs =
      List.map (unqualify scope) <$> renderEntries .empty variadic bs := by
  induction bs with
  | nil => simp [renderEntries]
  | cons b bs ih =>
    obtain ⟨hb, hbs⟩ := List.forall_mem_cons.mp h
    simp only [renderEntries, hb _, ih hbs, map_bind, bind_map_left, map_pure, List.map_cons,
      unqualify_entry]

theorem renderSignature_unqualify {s : Signature} (h : s.Each (Unqualified scope)) :
    renderSignature scope s = unqualify scope <$> renderSignature .empty s := by
  obtain ⟨params, results, variadic⟩ := s
  have hresults : renderResults scope results =
      List.map (unqualify scope) <$> renderResults .empty results := by
    rw [renderResults_eq_mapM, renderResults_eq_mapM]
    exact mapM_eq_map fun b hb => h.results b hb false
  simp only [renderSignature, renderEntries_unqualify h.params, hresults, map_bind, bind_map_left,
    map_pure, unqualify, Token.unqualify, unqualifyItems_eq_map, unqualify_resultClause]

theorem renderMethod_unqualify {b : Binding}
    (h : ∀ s, b.type = .func s → s.Each (Unqualified scope)) :
    renderMethod scope b.name b.type = unqualify scope <$> renderMethod .empty b.name b.type := by
  cases hs : b.type.signature? with
  | none =>
    rw [renderMethod_of_signature?_eq_none hs, renderMethod_of_signature?_eq_none hs]
    rfl
  | some s =>
    rw [signature?_eq_some_iff] at hs
    rw [hs, renderMethod, renderMethod, renderSignature_unqualify (h s hs)]
    simp only [map_bind, bind_map_left, map_pure, unqualify, Token.unqualify]

/-- **A scope decides the qualifiers in a type** and nothing else. -/
theorem render_unqualify (scope : Scope) (t : TypeExpr) : t.Unqualified scope := by
  induction t with
  | basic name | typeParam name =>
    intro spread
    simp [render]
  | pointer elem ih =>
    intro spread
    simp [render, ih _]
  | slice elem ih =>
    intro spread
    simp [render, ih _]
  | array len elem ih =>
    intro spread
    simp [render, ih _]
  | map key value ihKey ihValue =>
    intro spread
    simp [render, ihKey _, ihValue _]
  | chan dir elem ih =>
    intro spread
    simp [render, ih _]
  | struct fields ih =>
    intro spread
    simp [render, renderEntries_unqualify ih]
  | func s ih =>
    intro spread
    simp [render, renderSignature_unqualify ih]
  | interface body ihTerms ihMethods =>
    intro spread
    cases hterms : body.unionTerms? with
    | some terms =>
      rw [render_interface_of_some hterms, render_interface_of_some hterms]
      exact ihTerms terms hterms false
    | none =>
      have hmethods := mapM_eq_map fun b hb => renderMethod_unqualify (ihMethods b hb)
      rw [render_interface_of_none hterms, render_interface_of_none hterms, hmethods]
      simp
  | named ref ih =>
    intro spread
    obtain ⟨name, path, args⟩ := ref
    have hargs := mapM_eq_map fun t ht => ih t ht false
    simp [render, renderRef, renderAll_eq_mapM, hargs, Scope.reference_unqualify]
  | union terms ih =>
    intro spread
    have hterms : renderTerms scope terms =
        List.map (unqualify scope) <$> renderTerms .empty terms := by
      rw [renderTerms_eq_mapM, renderTerms_eq_mapM]
      exact mapM_eq_map fun t ht => by simp [ih t ht false]
    simp [render, hterms]
  | tuple items =>
    intro spread
    rfl

end TypeExpr

/-! ### Type parameters and declarations -/

open Fragment

theorem TypeParamGroup.render_unqualify (scope : Scope) (lone : Bool) (g : TypeParamGroup) :
    g.render scope lone = unqualify scope <$> g.render .empty lone := by
  simp only [render, g.constraint.render_unqualify scope _, bind_map_left, map_bind, map_pure,
    unqualify_append, unqualify_nameList, startsWithStar_unqualify]
  congr! 3
  split <;> simp

theorem TypeParams.clause_unqualify (scope : Scope) (ps : TypeParams) :
    ps.clause scope = unqualify scope <$> ps.clause .empty := by
  have hgroups := mapM_eq_map fun g (_ : g ∈ ps) => g.render_unqualify scope (isLone ps)
  simp [clause, hgroups]

theorem Method.entry_unqualify (scope : Scope) (m : Method) :
    m.entry scope = unqualify scope <$> m.entry .empty := by
  have hsignature := TypeExpr.renderSignature_unqualify
    (m.signature.each (TypeExpr.render_unqualify scope))
  simp [entry, hsignature]

namespace InterfaceDecl

theorem typeSetEntry_unqualify (scope : Scope) (terms : List Term) :
    typeSetEntry scope terms = List.map (unqualify scope) <$> typeSetEntry .empty terms := by
  rw [typeSetEntry, typeSetEntry]
  split
  · rfl
  · simp [(TypeExpr.union terms).render_unqualify scope false]

theorem declaration_unqualify (scope : Scope) (d : InterfaceDecl) :
    d.declaration scope = unqualify scope <$> d.declaration .empty := by
  have hmethods := mapM_eq_map fun m (_ : m ∈ d.methods) => m.entry_unqualify scope
  simp [declaration, typeSetEntry_unqualify scope, hmethods, d.typeParams.clause_unqualify scope]

end InterfaceDecl

/-- **A scope decides qualifiers and nothing else.**  A type, the type parameters of a
declaration and a declaration are written in a scope as they are written in the scope
that knows no package, without the qualifiers of the two packages of the scope, and they
fail together and alike; and it makes no difference which of the two packages is which. -/
theorem scope_decides_qualifiers (enclosing output : String) :
    let scope : Scope := ⟨enclosing, output⟩
    let swapped : Scope := ⟨output, enclosing⟩
    (∀ (t : TypeExpr) (spread : Bool),
      t.render scope spread = unqualify scope <$> t.render .empty spread ∧
      t.render swapped spread = t.render scope spread) ∧
    (∀ ps : TypeParams,
      ps.clause scope = unqualify scope <$> ps.clause .empty ∧
      ps.clause swapped = ps.clause scope) ∧
    ∀ d : InterfaceDecl,
      d.declaration scope = unqualify scope <$> d.declaration .empty ∧
      d.declaration swapped = d.declaration scope := by
  intro scope swapped
  have hswap : unqualify swapped = unqualify scope :=
    funext (unqualify_swap enclosing output)
  refine ⟨?_, ?_, ?_⟩
  · intro t spread
    refine ⟨t.render_unqualify scope spread, ?_⟩
    rw [t.render_unqualify swapped, hswap, t.render_unqualify scope]
  · intro ps
    refine ⟨ps.clause_unqualify scope, ?_⟩
    rw [ps.clause_unqualify swapped, hswap, ps.clause_unqualify scope]
  · intro d
    refine ⟨d.declaration_unqualify scope, ?_⟩
    rw [d.declaration_unqualify swapped, hswap, d.declaration_unqualify scope]

end GoDecl
