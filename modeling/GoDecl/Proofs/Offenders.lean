import GoDecl.Proofs.Walk

/-!
# What cannot be rendered

Rendering stops at the first tuple, or the first method that is not a function, that a walk
through a type comes to, and succeeds if there is none.  The statement is compositional:
a computation that fails with the first of some errors, followed by one that fails with
the first of some others, fails with the first of both lists joined.

## Main definitions

* `FailsFirst`: a computation that fails with the first of some errors
* `Visit.offenders`: why the types and methods that a walk comes to cannot be rendered
* `Visit.IsOffender`, `Visit.FirstOffender`: which of them are offenders, and which is the first

## Main results

* `FailsFirst.bind`, `FailsFirst.mapM`: errors of computations one after the other
* `TypeExpr.render_failsFirst`: rendering fails with the first offender of a walk
-/

namespace GoDecl

/-! ### The first of some errors -/

/-- A computation that fails with the first of some errors and succeeds if there are none. -/
inductive FailsFirst {ε α : Type} : List ε → Except ε α → Prop
  | ok (a : α) : FailsFirst [] (.ok a)
  | error (e : ε) (es : List ε) : FailsFirst (e :: es) (.error e)

theorem mapError_eq_ok_iff {ε ε' α : Type} {f : ε → ε'} {x : Except ε α} {a : α} :
    x.mapError f = .ok a ↔ x = .ok a := by
  cases x <;> simp [Except.mapError]

namespace FailsFirst

variable {ε ε' α β : Type} {es es' : List ε} {x : Except ε α}

theorem bind {k : α → Except ε β} (h : FailsFirst es x)
    (hk : ∀ a, x = .ok a → FailsFirst es' (k a)) : FailsFirst (es ++ es') (x >>= k) := by
  cases h with
  | ok a => exact hk a rfl
  | error e es => exact .error e (es ++ es')

theorem map (f : α → β) (h : FailsFirst es x) : FailsFirst es (f <$> x) := by
  cases h with
  | ok a => exact .ok (f a)
  | error e es => exact .error e es

theorem bind_pure (f : α → β) (h : FailsFirst es x) :
    FailsFirst es (x >>= fun a => pure (f a)) :=
  bind_pure_comp f x ▸ h.map f

theorem mapError (f : ε → ε') (h : FailsFirst es x) : FailsFirst (es.map f) (x.mapError f) := by
  cases h with
  | ok a => exact .ok a
  | error e es => exact .error (f e) (es.map f)

/-- A check made first. -/
theorem check {p : Prop} [Decidable p] (e : ε) (h : ¬ p → FailsFirst es x) :
    FailsFirst ((if p then [e] else []) ++ es) (if p then .error e else x) := by
  split
  · exact .error e es
  · next hp => exact h hp

theorem mapM {errors : α → List ε} {k : α → Except ε β} {as : List α}
    (h : ∀ a ∈ as, FailsFirst (errors a) (k a)) : FailsFirst (as.flatMap errors) (as.mapM k) := by
  induction as with
  | nil => exact .ok []
  | cons a as ih =>
    obtain ⟨ha, has⟩ := List.forall_mem_cons.mp h
    rw [List.flatMap_cons, List.mapM_cons]
    exact ha.bind fun b _ => (ih has).bind_pure (b :: ·)

theorem eq_error_iff (h : FailsFirst es x) {e : ε} : x = .error e ↔ es.head? = some e := by
  cases h <;> simp

theorem exists_eq_ok_iff (h : FailsFirst es x) : (∃ a, x = .ok a) ↔ es = [] := by
  cases h <;> simp

end FailsFirst

/-! ### Offenders -/

namespace Visit

/-- Why what a walk comes to cannot be rendered: it is a tuple, or a method whose type is not
a function. -/
def offender? : Visit → Option Unsupported
  | .type (.tuple _) => some .tuple
  | .type _ => none
  | .method name t => if t.kind = .signature then none else some (.method name t.kind)

/-- The offenders among what a walk comes to. -/
def offenders (vs : List Visit) : List Unsupported := vs.filterMap offender?

@[simp] theorem offenders_append (vs ws : List Visit) :
    offenders (vs ++ ws) = offenders vs ++ offenders ws :=
  List.filterMap_append

theorem offenders_flatMap {α : Type} (walk : α → List Visit) (as : List α) :
    offenders (as.flatMap walk) = as.flatMap fun a => offenders (walk a) :=
  List.filterMap_flatMap

/-- Parts that are rendered one after the other fail with the first offender of the walks
through them. -/
theorem failsFirst_mapM {α β : Type} {walk : α → List Visit} {k : α → Except Unsupported β}
    {as : List α} (h : ∀ a ∈ as, FailsFirst (offenders (walk a)) (k a)) :
    FailsFirst (offenders (as.flatMap walk)) (as.mapM k) := by
  rw [offenders_flatMap]
  exact .mapM h

/-- Whether what a walk comes to is a tuple, or a method whose type is not a function. -/
def IsOffender : Visit → Prop
  | .type t => t.kind = .tuple
  | .method _ t => t.kind ≠ .signature

/-- The kind of the type that a walk comes to, or that a method is given. -/
def kind : Visit → Kind
  | .type t | .method _ t => t.kind

/-- Why an offender cannot be rendered. -/
def cause : Visit → Unsupported
  | .type _ => .tuple
  | .method name t => .method name t.kind

theorem offender?_eq_some_iff {v : Visit} {e : Unsupported} :
    v.offender? = some e ↔ v.IsOffender ∧ v.cause = e := by
  cases v with
  | type t => cases t <;> simp [offender?, IsOffender, TypeExpr.kind, cause]
  | method name t =>
    by_cases h : t.kind = .signature
    · simp [offender?, IsOffender, h]
    · simp [offender?, IsOffender, cause, h]

theorem offender?_eq_none_iff {v : Visit} : v.offender? = none ↔ ¬ v.IsOffender := by
  simp [Option.eq_none_iff_forall_ne_some, offender?_eq_some_iff]

theorem IsOffender.kind_cause {v : Visit} (h : v.IsOffender) : v.cause.kind = v.kind := by
  cases v with
  | type t => exact Eq.symm h
  | method name t => rfl

/-- The first offender that a walk comes to. -/
def FirstOffender (vs : List Visit) (v : Visit) : Prop :=
  ∃ before after, vs = before ++ v :: after ∧ v.IsOffender ∧ ∀ u ∈ before, ¬ u.IsOffender

theorem FirstOffender.isOffender {vs : List Visit} {v : Visit} (h : FirstOffender vs v) :
    v.IsOffender := by
  obtain ⟨_, _, -, hv, -⟩ := h
  exact hv

theorem offenders_eq_nil_iff {vs : List Visit} : offenders vs = [] ↔ ∀ v ∈ vs, ¬ v.IsOffender := by
  simp [offenders, offender?_eq_none_iff]

theorem head?_offenders_eq_some_iff {vs : List Visit} {e : Unsupported} :
    (offenders vs).head? = some e ↔ ∃ v, FirstOffender vs v ∧ v.cause = e := by
  rw [offenders, List.head?_filterMap, List.findSome?_eq_some_iff]
  simp only [offender?_eq_some_iff, offender?_eq_none_iff]
  constructor
  · rintro ⟨before, v, after, hvs, ⟨hv, hcause⟩, hbefore⟩
    exact ⟨v, ⟨before, after, hvs, hv, hbefore⟩, hcause⟩
  · rintro ⟨v, ⟨before, after, hvs, hv, hbefore⟩, hcause⟩
    exact ⟨before, v, after, hvs, ⟨hv, hcause⟩, hbefore⟩

end Visit

namespace TypeExpr

open Visit

/-- A type whose rendering fails with the first offender. -/
abbrev FailsAtOffender (scope : Scope) (t : TypeExpr) : Prop :=
  ∀ spread, FailsFirst (offenders t.walk) (t.render scope spread)

variable {scope : Scope}

theorem renderEntries_failsFirst {bs : List Binding}
    (h : ∀ b ∈ bs, b.type.FailsAtOffender scope) (variadic : Bool) :
    FailsFirst (offenders (walkBindings bs)) (renderEntries scope variadic bs) := by
  induction bs with
  | nil => exact .ok []
  | cons b bs ih =>
    obtain ⟨hb, hbs⟩ := List.forall_mem_cons.mp h
    rw [walkBindings, offenders_append, renderEntries]
    exact (hb _).bind fun type _ => (ih hbs).bind_pure (Fragment.entry b.name type :: ·)

theorem renderSignature_failsFirst {s : Signature} (h : s.Each (FailsAtOffender scope)) :
    FailsFirst (offenders (walkSignature s)) (renderSignature scope s) := by
  obtain ⟨params, results, variadic⟩ := s
  have hresults : FailsFirst (offenders (walkBindings results)) (renderResults scope results) := by
    rw [walkBindings_eq_flatMap, renderResults_eq_mapM]
    exact failsFirst_mapM fun b hb => h.results b hb false
  rw [walkSignature, offenders_append, renderSignature]
  exact (renderEntries_failsFirst h.params variadic).bind fun _ _ => hresults.bind_pure _

theorem renderMethod_failsFirst {b : Binding}
    (h : ∀ s, b.type = .func s → s.Each (FailsAtOffender scope)) :
    FailsFirst (offenders (walkMethod b.name b.type)) (renderMethod scope b.name b.type) := by
  cases hs : b.type.signature? with
  | none =>
    have hkind := signature?_eq_none_iff.mp hs
    rw [walkMethod_of_signature?_eq_none hs, renderMethod_of_signature?_eq_none hs]
    simp only [offenders, List.filterMap_cons, offender?, if_neg hkind]
    exact .error _ []
  | some s =>
    rw [signature?_eq_some_iff] at hs
    rw [hs, walkMethod, renderMethod]
    exact (renderSignature_failsFirst (h s hs)).bind_pure _

/-- **Rendering fails with the first offender of a walk.** -/
theorem render_failsFirst (scope : Scope) (t : TypeExpr) : t.FailsAtOffender scope := by
  induction t with
  | basic name | typeParam name =>
    intro spread
    exact .ok _
  | pointer elem ih | slice elem ih | array len elem ih | chan dir elem ih =>
    intro spread
    exact (ih false).bind_pure _
  | map key value ihKey ihValue =>
    intro spread
    exact offenders_append key.walk value.walk ▸
      (ihKey false).bind fun _ _ => (ihValue false).bind_pure _
  | struct fields ih =>
    intro spread
    exact (renderEntries_failsFirst ih false).bind_pure _
  | func s ih =>
    intro spread
    exact (renderSignature_failsFirst ih).bind_pure _
  | interface body ihTerms ihMethods =>
    intro spread
    cases hterms : body.unionTerms? with
    | some terms =>
      rw [walk_interface_of_some hterms, render_interface_of_some hterms]
      exact ihTerms terms hterms false
    | none =>
      rw [walk_interface_of_none hterms, render_interface_of_none hterms, walkMethods_eq_flatMap]
      exact (failsFirst_mapM fun b hb => renderMethod_failsFirst (ihMethods b hb)).bind_pure _
  | named ref ih =>
    intro spread
    obtain ⟨name, path, args⟩ := ref
    rw [render, renderRef, renderAll_eq_mapM, walk, walkRef, walkAll_eq_flatMap]
    exact (failsFirst_mapM fun t ht => ih t ht false).bind_pure _
  | union terms ih =>
    intro spread
    rw [render, renderTerms_eq_mapM, walk, walkTerms_eq_flatMap]
    exact (failsFirst_mapM fun t ht => (ih t ht false).bind_pure _).bind_pure _
  | tuple items =>
    intro spread
    exact .error _ []

end TypeExpr

end GoDecl
