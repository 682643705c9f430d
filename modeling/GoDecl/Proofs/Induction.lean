import GoDecl.Proofs.Rendering

/-!
# Induction over what is written of a type

A statement about types follows from the same statement about the parts that are written.
Of an interface these are the terms of its type set or, if it has none, the parameters and
results of its methods; nothing else an interface embeds is written.

Unlike the rules for rendered types, this induction does not ask that a type can be
written, so it also reaches the types that cannot.

## Main definitions

* `Shape.Signature.Each`: a statement about the types of parameters and results

## Main results

* `TypeExpr.parts_induction`: induction over all parts of a type, with one case for each shape
* `TypeExpr.induction`: the same over what is written of a type
* `render_interface_of_some`, `render_interface_of_none`: how an interface is written with
  a type set and without one
-/

namespace GoDecl

/-- A statement holds of the types of all parameters and results. -/
structure Shape.Signature.Each (P : TypeExpr → Prop) (s : Shape.Signature TypeExpr) : Prop where
  params : ∀ b ∈ s.params, P b.type
  results : ∀ b ∈ s.results, P b.type

theorem Shape.Signature.each {P : TypeExpr → Prop} (s : Shape.Signature TypeExpr)
    (h : ∀ t, P t) : s.Each P :=
  ⟨fun b _ => h b.type, fun b _ => h b.type⟩

namespace TypeExpr

/-- **Induction over all parts of a type,** those that are never written among them. -/
@[elab_as_elim]
theorem parts_induction {motive : TypeExpr → Prop}
    (basic : ∀ name, motive (.basic name))
    (pointer : ∀ elem, motive elem → motive (.pointer elem))
    (slice : ∀ elem, motive elem → motive (.slice elem))
    (array : ∀ len elem, motive elem → motive (.array len elem))
    (map : ∀ key value, motive key → motive value → motive (.map key value))
    (chan : ∀ dir elem, motive elem → motive (.chan dir elem))
    (struct : ∀ fields, (∀ b ∈ fields, motive b.type) → motive (.struct fields))
    (func : ∀ s, s.Each motive → motive (.func s))
    (interface : ∀ body, (∀ b ∈ body.methods, motive b.type) → (∀ t ∈ body.embeds, motive t) →
      motive (.interface body))
    (named : ∀ ref, (∀ t ∈ ref.args, motive t) → motive (.named ref))
    (typeParam : ∀ name, motive (.typeParam name))
    (union : ∀ terms, (∀ t ∈ terms, motive t.type) → motive (.union terms))
    (tuple : ∀ items, (∀ b ∈ items, motive b.type) → motive (.tuple items)) (t : TypeExpr) :
    motive t := by
  refine TypeExpr.rec
    (motive_1 := motive)
    (motive_2 := fun bs => ∀ b ∈ bs, motive b.type)
    (motive_3 := fun s => s.Each motive)
    (motive_4 := fun body => (∀ b ∈ body.methods, motive b.type) ∧ ∀ t ∈ body.embeds, motive t)
    (motive_5 := fun ref => ∀ t ∈ ref.args, motive t)
    (motive_6 := fun terms => ∀ t ∈ terms, motive t.type)
    (motive_7 := fun b => motive b.type)
    (motive_8 := fun ts => ∀ t ∈ ts, motive t)
    (motive_9 := fun t => motive t.type)
    basic pointer slice array map chan struct func ?interface named typeParam union tuple
    ?noBinding ?moreBindings ?signature ?body ?ref ?noTerm ?moreTerms ?binding ?noType
    ?moreTypes ?term t
  case interface => exact fun body ih => interface body ih.1 ih.2
  case signature => exact fun _ _ _ ihParams ihResults => ⟨ihParams, ihResults⟩
  case body => exact fun _ _ ihMethods ihEmbeds => ⟨ihMethods, ihEmbeds⟩
  case ref => exact fun _ _ _ ih => ih
  case binding => exact fun _ _ ih => ih
  case term => exact fun _ _ ih => ih
  case noBinding | noTerm | noType => exact fun _ h => nomatch h
  case moreBindings | moreTerms | moreTypes =>
    exact fun _ _ ihHead ihTail => List.forall_mem_cons.mpr ⟨ihHead, ihTail⟩

/-- A statement holds of a type and, if the type is a function, of its parameters and
results. -/
structure WithSignature (P : TypeExpr → Prop) (t : TypeExpr) : Prop where
  holds : P t
  signature : ∀ s, t = .func s → s.Each P

theorem WithSignature.of_signature?_eq_none {P : TypeExpr → Prop} {t : TypeExpr} (h : P t)
    (ht : t.signature? = none) : WithSignature P t :=
  ⟨h, fun s hs => by rw [hs] at ht; cases ht⟩

/-- **Induction over what is written of a type.** -/
@[elab_as_elim, induction_eliminator]
theorem induction {motive : TypeExpr → Prop}
    (basic : ∀ name, motive (.basic name))
    (pointer : ∀ elem, motive elem → motive (.pointer elem))
    (slice : ∀ elem, motive elem → motive (.slice elem))
    (array : ∀ len elem, motive elem → motive (.array len elem))
    (map : ∀ key value, motive key → motive value → motive (.map key value))
    (chan : ∀ dir elem, motive elem → motive (.chan dir elem))
    (struct : ∀ fields, (∀ b ∈ fields, motive b.type) → motive (.struct fields))
    (func : ∀ s, s.Each motive → motive (.func s))
    (interface : ∀ body, (∀ terms, body.unionTerms? = some terms → motive (.union terms)) →
      (∀ b ∈ body.methods, ∀ s, b.type = .func s → s.Each motive) → motive (.interface body))
    (named : ∀ ref, (∀ t ∈ ref.args, motive t) → motive (.named ref))
    (typeParam : ∀ name, motive (.typeParam name))
    (union : ∀ terms, (∀ t ∈ terms, motive t.type) → motive (.union terms))
    (tuple : ∀ items, motive (.tuple items)) (t : TypeExpr) : motive t := by
  suffices h : WithSignature motive t from h.holds
  induction t using parts_induction with
  | basic name => exact .of_signature?_eq_none (basic name) rfl
  | pointer elem ih => exact .of_signature?_eq_none (pointer elem ih.holds) rfl
  | slice elem ih => exact .of_signature?_eq_none (slice elem ih.holds) rfl
  | array len elem ih => exact .of_signature?_eq_none (array len elem ih.holds) rfl
  | map key value ih ih' => exact .of_signature?_eq_none (map key value ih.holds ih'.holds) rfl
  | chan dir elem ih => exact .of_signature?_eq_none (chan dir elem ih.holds) rfl
  | struct fields ih =>
    exact .of_signature?_eq_none (struct fields fun b hb => (ih b hb).holds) rfl
  | func s ih =>
    have hs : s.Each motive :=
      ⟨fun b hb => (ih.params b hb).holds, fun b hb => (ih.results b hb).holds⟩
    exact ⟨func s hs, fun _ h => TypeExpr.func.inj h ▸ hs⟩
  | interface body ihMethods ihEmbeds =>
    refine .of_signature?_eq_none (interface body ?_ fun b hb => (ihMethods b hb).signature) rfl
    intro terms hterms
    obtain ⟨t, ht, hunion⟩ := List.exists_of_findSome?_eq_some hterms
    cases t with
    | union terms' =>
      cases hunion
      exact (ihEmbeds _ ht).holds
    | _ => cases hunion
  | named ref ih => exact .of_signature?_eq_none (named ref fun t ht => (ih t ht).holds) rfl
  | typeParam name => exact .of_signature?_eq_none (typeParam name) rfl
  | union terms ih => exact .of_signature?_eq_none (union terms fun t ht => (ih t ht).holds) rfl
  | tuple items _ => exact .of_signature?_eq_none (tuple items) rfl

/-! ### How an interface is written -/

theorem render_interface_of_some {scope : Scope} {spread : Bool} {body : InterfaceBody}
    {terms : List Term} (h : body.unionTerms? = some terms) :
    render scope spread (.interface body) = render scope false (.union terms) := by
  obtain ⟨methods, embeds⟩ := body
  have hfirst : renderFirstUnion scope embeds = some (render scope false (.union terms)) := by
    rw [renderFirstUnion_eq, show embeds.findSome? unionTerms? = some terms from h, Option.map_some]
  rw [render, renderBody, hfirst]

theorem render_interface_of_none {scope : Scope} {spread : Bool} {body : InterfaceBody}
    (h : body.unionTerms? = none) :
    render scope spread (.interface body) = do
      let methods ← body.methods.mapM fun b => renderMethod scope b.name b.type
      return [.keyword "interface", .group .brace methods] := by
  obtain ⟨methods, embeds⟩ := body
  have hfirst : renderFirstUnion scope embeds = none := by
    rw [renderFirstUnion_eq, show embeds.findSome? unionTerms? = none from h, Option.map_none]
  rw [render, renderBody, hfirst, renderMethods_eq_mapM]

theorem renderMethod_of_signature?_eq_none {scope : Scope} {name : String} {t : TypeExpr}
    (h : t.signature? = none) : renderMethod scope name t = .error (.method name t.kind) := by
  cases t with
  | func s => cases h
  | _ => rfl

end TypeExpr

end GoDecl
