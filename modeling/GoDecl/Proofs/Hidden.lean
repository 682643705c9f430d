import GoDecl.Proofs.Offenders

/-!
# Parts of a type that are never written

An interface with a type set is written as its first union, and any other interface as its
methods, so the methods of the former and all other types that an interface embeds are hidden.
A tuple, or a method that is not a function, in a hidden part keeps nothing from being written:
rendering cannot tell a type from the same type without its hidden parts, at any depth.

## Main definitions

* `TypeExpr.prune`: a type without its hidden parts

## Main results

* `walk_prune`: a walk comes to the same things in a pruned type, themselves pruned
* `render_prune`: a pruned type is rendered like the type itself, or fails like it
* `render_reports_first_offender`: rendering succeeds exactly where a walk comes to no offender,
  and otherwise reports the first one
-/

namespace GoDecl

/-! ### Types without their hidden parts -/

namespace TypeExpr

mutual

/-- A type without the parts that are never written. -/
def prune : TypeExpr → TypeExpr
  | basic name => .basic name
  | pointer elem => .pointer (prune elem)
  | slice elem => .slice (prune elem)
  | array len elem => .array len (prune elem)
  | map key value => .map (prune key) (prune value)
  | chan dir elem => .chan dir (prune elem)
  | struct fields => .struct (pruneBindings fields)
  | func signature => .func (pruneSignature signature)
  | interface body => .interface (pruneBody body)
  | named ref => .named (pruneRef ref)
  | typeParam name => .typeParam name
  | union terms => .union (pruneTerms terms)
  | tuple items => .tuple items
termination_by structural t => t

/-- `prune` for fields, parameters, results or methods. -/
def pruneBindings : List Binding → List Binding
  | [] => []
  | b :: bs => ⟨b.name, prune b.type⟩ :: pruneBindings bs
termination_by structural bs => bs

/-- `prune` for a signature. -/
def pruneSignature : Signature → Signature
  | ⟨params, results, variadic⟩ => ⟨pruneBindings params, pruneBindings results, variadic⟩
termination_by structural s => s

/-- `prune` for an interface: the first union it embeds if there is one, otherwise its methods. -/
def pruneBody : InterfaceBody → InterfaceBody
  | ⟨methods, embeds⟩ =>
    match pruneFirstUnion embeds with
    | some t => ⟨[], [t]⟩
    | none => ⟨pruneBindings methods, []⟩
termination_by structural b => b

/-- `prune` for the first union among some types. -/
def pruneFirstUnion : List TypeExpr → Option TypeExpr
  | [] => none
  | union terms :: _ => some (.union (pruneTerms terms))
  | _ :: rest => pruneFirstUnion rest
termination_by structural ts => ts

/-- `prune` for the arguments of a reference. -/
def pruneRef : TypeRef → TypeRef
  | ⟨name, path, args⟩ => ⟨name, path, pruneAll args⟩
termination_by structural r => r

/-- `prune` for type arguments. -/
def pruneAll : List TypeExpr → List TypeExpr
  | [] => []
  | t :: ts => prune t :: pruneAll ts
termination_by structural ts => ts

/-- `prune` for the terms of a union. -/
def pruneTerms : List Term → List Term
  | [] => []
  | t :: ts => ⟨prune t.type, t.tilde⟩ :: pruneTerms ts
termination_by structural ts => ts

end

end TypeExpr

/-- What a walk comes to, with its type pruned. -/
def Visit.prune : Visit → Visit
  | .type t => .type t.prune
  | .method name t => .method name t.prune

namespace TypeExpr

theorem pruneFirstUnion_decided :
    DecidedByUnion pruneFirstUnion fun terms => some (.union (pruneTerms terms)) where
  union _ _ := rfl
  skip t _ h := by cases t <;> first | rfl | cases h

theorem pruneBody_of_some {body : InterfaceBody} {terms : List Term}
    (h : body.unionTerms? = some terms) : pruneBody body = ⟨[], [.union (pruneTerms terms)]⟩ := by
  rw [pruneBody, pruneFirstUnion_decided.of_some h]

theorem pruneBody_of_none {body : InterfaceBody} (h : body.unionTerms? = none) :
    pruneBody body = ⟨pruneBindings body.methods, []⟩ := by
  rw [pruneBody, pruneFirstUnion_decided.of_none h]
  rfl

theorem unionTerms?_pruneBody {body : InterfaceBody} {terms : List Term}
    (h : body.unionTerms? = some terms) : (pruneBody body).unionTerms? = some (pruneTerms terms) := by
  rw [pruneBody_of_some h]
  rfl

@[simp] theorem kind_prune (t : TypeExpr) : t.prune.kind = t.kind := by
  cases t <;> rfl

theorem signature?_prune {t : TypeExpr} (h : t.signature? = none) :
    t.prune.signature? = none := by
  rw [signature?_eq_none_iff, kind_prune]
  exact signature?_eq_none_iff.mp h

@[simp] theorem isRecvChan_prune (t : TypeExpr) : t.prune.isRecvChan = t.isRecvChan := by
  cases t with
  | chan dir elem => cases dir <;> rfl
  | _ => rfl

@[simp] theorem isEmpty_pruneBindings (bs : List Binding) :
    (pruneBindings bs).isEmpty = bs.isEmpty := by
  cases bs <;> rfl

theorem pruneBindings_eq_map (bs : List Binding) :
    pruneBindings bs = bs.map fun b => ⟨b.name, b.type.prune⟩ := by
  induction bs with
  | nil => rfl
  | cons b bs ih => rw [pruneBindings, ih, List.map_cons]

theorem pruneAll_eq_map (ts : List TypeExpr) : pruneAll ts = ts.map prune := by
  induction ts with
  | nil => rfl
  | cons t ts ih => rw [pruneAll, ih, List.map_cons]

theorem pruneTerms_eq_map (ts : List Term) :
    pruneTerms ts = ts.map fun t => ⟨t.type.prune, t.tilde⟩ := by
  induction ts with
  | nil => rfl
  | cons t ts ih => rw [pruneTerms, ih, List.map_cons]

/-! ### Rendering a pruned type -/

section Rendering

variable (scope : Scope)

/-- A type that is rendered like the pruned type, or fails like it. -/
abbrev PrunedAlike (t : TypeExpr) : Prop :=
  ∀ spread, t.prune.render scope spread = t.render scope spread

variable {scope}

theorem renderEntries_prune {bs : List Binding} (h : ∀ b ∈ bs, b.type.PrunedAlike scope)
    (variadic : Bool) :
    renderEntries scope variadic (pruneBindings bs) = renderEntries scope variadic bs := by
  induction bs with
  | nil => rfl
  | cons b bs ih =>
    obtain ⟨hb, hbs⟩ := List.forall_mem_cons.mp h
    rw [pruneBindings, renderEntries, renderEntries, ih hbs, isEmpty_pruneBindings, hb]

/-- Parts that are changed without effect on what is computed of each. -/
theorem mapM_map_eq {ε α β : Type} {change : α → α} {k : α → Except ε β} {as : List α}
    (h : ∀ a ∈ as, k (change a) = k a) : (as.map change).mapM k = as.mapM k := by
  induction as with
  | nil => rfl
  | cons a as ih =>
    obtain ⟨ha, has⟩ := List.forall_mem_cons.mp h
    rw [List.map_cons, List.mapM_cons, List.mapM_cons, ha, ih has]

theorem renderResults_prune {bs : List Binding} (h : ∀ b ∈ bs, b.type.PrunedAlike scope) :
    renderResults scope (pruneBindings bs) = renderResults scope bs := by
  rw [renderResults_eq_mapM, renderResults_eq_mapM, pruneBindings_eq_map]
  exact mapM_map_eq fun b hb => h b hb false

theorem renderSignature_prune {s : Signature} (h : s.Each (PrunedAlike scope)) :
    renderSignature scope (pruneSignature s) = renderSignature scope s := by
  obtain ⟨params, results, variadic⟩ := s
  rw [pruneSignature, renderSignature, renderSignature, renderEntries_prune h.params,
    renderResults_prune h.results]

/-- A method is written like the pruned one.  If it is not a function, the error names its kind,
which stays. -/
theorem renderMethod_prune {b : Binding} (h : ∀ s, b.type = .func s → s.Each (PrunedAlike scope)) :
    renderMethod scope b.name b.type.prune = renderMethod scope b.name b.type := by
  cases hs : b.type.signature? with
  | none =>
    rw [renderMethod_of_signature?_eq_none hs,
      renderMethod_of_signature?_eq_none (signature?_prune hs), kind_prune]
  | some s =>
    rw [signature?_eq_some_iff] at hs
    rw [hs, prune, renderMethod, renderMethod, renderSignature_prune (h s hs)]

theorem renderMethods_prune {bs : List Binding}
    (h : ∀ b ∈ bs, ∀ s, b.type = .func s → s.Each (PrunedAlike scope)) :
    renderMethods scope (pruneBindings bs) = renderMethods scope bs := by
  rw [renderMethods_eq_mapM, renderMethods_eq_mapM, pruneBindings_eq_map]
  exact mapM_map_eq fun b hb => renderMethod_prune (h b hb)

theorem renderAll_prune {ts : List TypeExpr} (h : ∀ t ∈ ts, t.PrunedAlike scope) :
    renderAll scope (pruneAll ts) = renderAll scope ts := by
  rw [renderAll_eq_mapM, renderAll_eq_mapM, pruneAll_eq_map]
  exact mapM_map_eq fun t ht => h t ht false

theorem renderTerms_prune {ts : List Term} (h : ∀ t ∈ ts, t.type.PrunedAlike scope) :
    renderTerms scope (pruneTerms ts) = renderTerms scope ts := by
  rw [renderTerms_eq_mapM, renderTerms_eq_mapM, pruneTerms_eq_map]
  exact mapM_map_eq fun t ht => congrArg (· >>= _) (h t ht false)

/-- **A pruned type is rendered like the type itself,** or fails like it. -/
theorem render_prune (scope : Scope) (t : TypeExpr) : t.PrunedAlike scope := by
  induction t with
  | basic name | typeParam name | tuple items =>
    intro spread
    rfl
  | pointer elem ih | slice elem ih | array len elem ih =>
    intro spread
    simp only [prune, render, ih false]
  | map key value ihKey ihValue =>
    intro spread
    simp only [prune, render, ihKey false, ihValue false]
  | chan dir elem ih =>
    intro spread
    simp only [prune, render, ih false, chanElem, isRecvChan_prune]
  | struct fields ih =>
    intro spread
    rw [prune, render, render, renderEntries_prune ih]
  | func s ih =>
    intro spread
    rw [prune, render, render, renderSignature_prune ih]
  | interface body ihTerms ihMethods =>
    intro spread
    rw [prune]
    cases hterms : body.unionTerms? with
    | some terms =>
      rw [render_interface_of_some hterms,
        render_interface_of_some (unionTerms?_pruneBody hterms)]
      exact ihTerms terms hterms false
    | none =>
      rw [pruneBody_of_none hterms, render_interface_of_none hterms,
        render_interface_of_none (by rfl), ← renderMethods_eq_mapM, ← renderMethods_eq_mapM,
        renderMethods_prune ihMethods]
  | named ref ih =>
    intro spread
    obtain ⟨name, path, args⟩ := ref
    rw [prune, pruneRef, render, render, renderRef, renderRef, renderAll_prune ih]
  | union terms ih =>
    intro spread
    rw [prune, render, render, renderTerms_prune ih]

end Rendering

/-! ### Walking through a pruned type -/

section Walking

open Visit

/-- A type through which a walk comes to the same things when it is pruned. -/
abbrev PrunedWalk (t : TypeExpr) : Prop := t.prune.walk = t.walk.map Visit.prune

/-- Parts that are changed, with the same change of what a walk through each comes to. -/
theorem flatMap_map_eq {α : Type} {change : α → α} {walk : α → List Visit} {as : List α}
    (h : ∀ a ∈ as, walk (change a) = (walk a).map Visit.prune) :
    (as.map change).flatMap walk = (as.flatMap walk).map Visit.prune := by
  rw [List.flatMap_map, List.map_flatMap]
  exact List.flatMap_congr h

theorem walkBindings_prune {bs : List Binding} (h : ∀ b ∈ bs, b.type.PrunedWalk) :
    walkBindings (pruneBindings bs) = (walkBindings bs).map Visit.prune := by
  rw [walkBindings_eq_flatMap, walkBindings_eq_flatMap, pruneBindings_eq_map]
  exact flatMap_map_eq h

theorem walkSignature_prune {s : Signature} (h : s.Each PrunedWalk) :
    walkSignature (pruneSignature s) = (walkSignature s).map Visit.prune := by
  obtain ⟨params, results, variadic⟩ := s
  rw [pruneSignature, walkSignature, walkSignature, List.map_append, walkBindings_prune h.params,
    walkBindings_prune h.results]

theorem walkMethod_prune {b : Binding} (h : ∀ s, b.type = .func s → s.Each PrunedWalk) :
    walkMethod b.name b.type.prune = (walkMethod b.name b.type).map Visit.prune := by
  cases hs : b.type.signature? with
  | none =>
    rw [walkMethod_of_signature?_eq_none hs, walkMethod_of_signature?_eq_none (signature?_prune hs)]
    rfl
  | some s =>
    rw [signature?_eq_some_iff] at hs
    rw [hs, prune, walkMethod, walkMethod, walkSignature_prune (h s hs)]
    rfl

theorem walkMethods_prune {bs : List Binding}
    (h : ∀ b ∈ bs, ∀ s, b.type = .func s → s.Each PrunedWalk) :
    walkMethods (pruneBindings bs) = (walkMethods bs).map Visit.prune := by
  rw [walkMethods_eq_flatMap, walkMethods_eq_flatMap, pruneBindings_eq_map]
  exact flatMap_map_eq fun b hb => walkMethod_prune (h b hb)

theorem walkAll_prune {ts : List TypeExpr} (h : ∀ t ∈ ts, t.PrunedWalk) :
    walkAll (pruneAll ts) = (walkAll ts).map Visit.prune := by
  rw [walkAll_eq_flatMap, walkAll_eq_flatMap, pruneAll_eq_map]
  exact flatMap_map_eq h

theorem walkTerms_prune {ts : List Term} (h : ∀ t ∈ ts, t.type.PrunedWalk) :
    walkTerms (pruneTerms ts) = (walkTerms ts).map Visit.prune := by
  rw [walkTerms_eq_flatMap, walkTerms_eq_flatMap, pruneTerms_eq_map]
  exact flatMap_map_eq h

/-- **A walk comes to the same things in a pruned type,** themselves pruned. -/
theorem walk_prune (t : TypeExpr) : t.PrunedWalk := by
  unfold PrunedWalk
  induction t with
  | basic name | typeParam name | tuple items => rfl
  | pointer elem ih | slice elem ih | array len elem ih | chan dir elem ih =>
    rw [prune, walk, walk, ih]
    rfl
  | map key value ihKey ihValue =>
    rw [prune, walk, walk, ihKey, ihValue, ← List.map_append]
    rfl
  | struct fields ih =>
    rw [prune, walk, walk, walkBindings_prune ih]
    rfl
  | func s ih =>
    rw [prune, walk, walk, walkSignature_prune ih]
    rfl
  | interface body ihTerms ihMethods =>
    rw [prune]
    cases hterms : body.unionTerms? with
    | some terms =>
      have hunion : walkTerms (pruneTerms terms) = (walkTerms terms).map Visit.prune := by
        have ih := ihTerms terms hterms
        rw [prune, walk, walk, List.map_cons] at ih
        exact (List.cons.inj ih).2
      rw [walk_interface_of_some hterms, walk_interface_of_some (unionTerms?_pruneBody hterms),
        hunion, List.map_cons, Visit.prune, prune]
    | none =>
      rw [pruneBody_of_none hterms, walk_interface_of_none hterms, walk_interface_of_none (by rfl),
        walkMethods_prune ihMethods, List.map_cons, Visit.prune, prune, pruneBody_of_none hterms]
  | named ref ih =>
    obtain ⟨name, path, args⟩ := ref
    rw [prune, pruneRef, walk, walk, walkRef, walkRef, walkAll_prune ih]
    rfl
  | union terms ih =>
    rw [prune, walk, walk, walkTerms_prune ih]
    rfl

/-- What is left of an interface is a union alone, or methods alone. -/
theorem body_of_mem_walk_prune {t : TypeExpr} {body : InterfaceBody}
    (h : .type (.interface body) ∈ t.prune.walk) :
    (∃ terms, body = ⟨[], [.union terms]⟩) ∨ body.embeds = [] := by
  rw [walk_prune] at h
  obtain ⟨v, -, hv⟩ := List.mem_map.mp h
  cases v with
  | method name u => cases hv
  | type u =>
    cases u with
    | interface body' =>
      obtain rfl : pruneBody body' = body := by
        rw [Visit.prune, prune] at hv
        exact TypeExpr.interface.inj (Visit.type.inj hv)
      cases hterms : body'.unionTerms? with
      | some terms => exact .inl ⟨_, pruneBody_of_some hterms⟩
      | none =>
        rw [pruneBody_of_none hterms]
        exact .inr rfl
    | _ => cases hv

end Walking

/-! ### What rendering reports -/

/-- **Rendering reports the first offender.**  A type is rendered exactly where a walk through
it comes to no tuple and to no method that is not a function, and otherwise rendering fails with
the kind of the first of them.  What is hidden in an interface, at any depth, makes no
difference: without the hidden parts, after which an interface is a lone union or embeds
nothing, the type is rendered in the same way or fails in the same way. -/
theorem render_reports_first_offender (scope : Scope) (spread : Bool) (t : TypeExpr) :
    ((∃ f, t.render scope spread = .ok f) ↔ ∀ v ∈ t.walk, ¬ v.IsOffender) ∧
    (∀ k, (∃ e, t.render scope spread = .error e ∧ e.kind = k) ↔
      ∃ v, Visit.FirstOffender t.walk v ∧ v.kind = k) ∧
    (t.prune.render scope spread = t.render scope spread ∧
      ∀ body, .type (.interface body) ∈ t.prune.walk →
        (∃ terms, body = ⟨[], [.union terms]⟩) ∨ body.embeds = []) := by
  have hfirst := t.render_failsFirst scope spread
  refine ⟨?_, ?_, t.render_prune scope spread, fun body => body_of_mem_walk_prune⟩
  · rw [hfirst.exists_eq_ok_iff, Visit.offenders_eq_nil_iff]
  · intro k
    simp only [hfirst.eq_error_iff, Visit.head?_offenders_eq_some_iff]
    constructor
    · rintro ⟨e, ⟨v, hv, rfl⟩, rfl⟩
      exact ⟨v, hv, hv.isOffender.kind_cause.symm⟩
    · rintro ⟨v, hv, rfl⟩
      exact ⟨v.cause, ⟨v, hv, rfl⟩, hv.isOffender.kind_cause⟩

/-- A tuple behind the first union of an interface, and a method that is no function beside it,
are not come to; the same method without the union is. -/
example :
    let methods : List Binding := [⟨"Len", .int⟩]
    let union : TypeExpr := .union [.exact .string]
    render .empty false (.interface ⟨methods, [.tuple [], union]⟩) =
        .ok [.group .pipe [[.ident "string"]]] ∧
      render .empty false (.interface ⟨methods, [.tuple []]⟩) =
        .error (.method "Len" .basic) :=
  ⟨rfl, rfl⟩

end TypeExpr

end GoDecl
