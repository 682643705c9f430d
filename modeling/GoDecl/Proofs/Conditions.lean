import GoDecl.Proofs.Lexeme
import GoDecl.Proofs.Rendering

/-!
# Conditions on a type and its parts

A condition on types is asked at every depth: of the type and of each part of it that
is written.  An interface with a type set is written as that set, so neither its methods
nor its other embedded types count.

## Main definitions

* `TypeExpr.all`: whether a condition holds of a type and of its parts
* `TypeExpr.Under`: a statement about rendered types under such a condition
* `TypeExpr.hasSyntax`, `TypeExpr.namesAreWords`: two conditions on a single type

## Main results

* `all_mono`: a weaker condition holds at every depth as well
* `exists_render`: a type is rendered if each of its parts has a syntax
* `worded_of_render`: the names in the source of a type are those in the type
-/

namespace GoDecl

namespace TypeExpr

mutual

/-- Whether a condition holds of a type and of every part of it that is written. -/
def all (q : TypeExpr → Bool) : TypeExpr → Bool
  | basic name => q (.basic name)
  | pointer elem => q (.pointer elem) && all q elem
  | slice elem => q (.slice elem) && all q elem
  | array len elem => q (.array len elem) && all q elem
  | map key value => q (.map key value) && (all q key && all q value)
  | chan dir elem => q (.chan dir elem) && all q elem
  | struct fields => q (.struct fields) && allBindings q fields
  | func signature => q (.func signature) && allSignature q signature
  | interface body => q (.interface body) && allBody q body
  | named ref => q (.named ref) && allRef q ref
  | typeParam name => q (.typeParam name)
  | union terms => q (.union terms) && allTerms q terms
  | tuple items => q (.tuple items) && allBindings q items
termination_by structural t => t

/-- `all` for fields, parameters, results or methods. -/
def allBindings (q : TypeExpr → Bool) : List Binding → Bool
  | [] => true
  | b :: bs => all q b.type && allBindings q bs
termination_by structural bs => bs

/-- `all` for parameters and results. -/
def allSignature (q : TypeExpr → Bool) : Signature → Bool
  | ⟨params, results, _⟩ => allBindings q params && allBindings q results
termination_by structural s => s

/-- `all` for the type set of an interface, or for its methods. -/
def allBody (q : TypeExpr → Bool) : InterfaceBody → Bool
  | ⟨methods, embeds⟩ => (allFirstUnion q embeds).getD (allBindings q methods)
termination_by structural b => b

/-- `all` for the first union among some types. -/
def allFirstUnion (q : TypeExpr → Bool) : List TypeExpr → Option Bool
  | [] => none
  | union terms :: _ => some (q (.union terms) && allTerms q terms)
  | _ :: rest => allFirstUnion q rest
termination_by structural ts => ts

/-- `all` for the arguments of a reference. -/
def allRef (q : TypeExpr → Bool) : TypeRef → Bool
  | ⟨_, _, args⟩ => allArgs q args
termination_by structural r => r

/-- `all` for type arguments. -/
def allArgs (q : TypeExpr → Bool) : List TypeExpr → Bool
  | [] => true
  | t :: ts => all q t && allArgs q ts
termination_by structural ts => ts

/-- `all` for the terms of a union. -/
def allTerms (q : TypeExpr → Bool) : List Term → Bool
  | [] => true
  | t :: ts => all q t.type && allTerms q ts
termination_by structural ts => ts

end

variable {q : TypeExpr → Bool}

/-- A condition at every depth holds of the type itself. -/
theorem holds_of_all {t : TypeExpr} (h : t.all q = true) : q t = true := by
  cases t <;> simp_all [all]

theorem allFirstUnion_decided (q : TypeExpr → Bool) :
    DecidedByUnion (allFirstUnion q) fun terms => some (all q (.union terms)) where
  union _ _ := rfl
  skip t _ h := by cases t <;> first | rfl | cases h

theorem allBody_of_some {body : InterfaceBody} {terms : List Term}
    (h : body.unionTerms? = some terms) : allBody q body = all q (.union terms) := by
  rw [allBody, (allFirstUnion_decided q).of_some h, Option.getD_some]

theorem allBody_of_none {body : InterfaceBody} (h : body.unionTerms? = none) :
    allBody q body = allBindings q body.methods := by
  rw [allBody, (allFirstUnion_decided q).of_none h]
  rfl

/-! ### A weaker condition -/

mutual

/-- **A weaker condition holds at every depth as well.** -/
theorem all_mono {p q : TypeExpr → Bool} (himp : ∀ t, p t = true → q t = true) :
    ∀ {t : TypeExpr}, t.all p = true → t.all q = true
  | .basic _, h => himp _ h
  | .typeParam _, h => himp _ h
  | .pointer elem, h => by
    simp only [all, Bool.and_eq_true] at h ⊢
    exact ⟨himp _ h.1, all_mono himp h.2⟩
  | .slice elem, h => by
    simp only [all, Bool.and_eq_true] at h ⊢
    exact ⟨himp _ h.1, all_mono himp h.2⟩
  | .array _ elem, h => by
    simp only [all, Bool.and_eq_true] at h ⊢
    exact ⟨himp _ h.1, all_mono himp h.2⟩
  | .map key value, h => by
    simp only [all, Bool.and_eq_true] at h ⊢
    exact ⟨himp _ h.1, all_mono himp h.2.1, all_mono himp h.2.2⟩
  | .chan _ elem, h => by
    simp only [all, Bool.and_eq_true] at h ⊢
    exact ⟨himp _ h.1, all_mono himp h.2⟩
  | .struct fields, h => by
    simp only [all, Bool.and_eq_true] at h ⊢
    exact ⟨himp _ h.1, allBindings_mono himp fields h.2⟩
  | .func ⟨params, results, _⟩, h => by
    simp only [all, allSignature, Bool.and_eq_true] at h ⊢
    exact ⟨himp _ h.1, allBindings_mono himp params h.2.1, allBindings_mono himp results h.2.2⟩
  | .interface ⟨methods, embeds⟩, h => by
    simp only [all, allBody, Bool.and_eq_true] at h ⊢
    refine ⟨himp _ h.1, ?_⟩
    cases hunion : allFirstUnion p embeds with
    | none =>
      rw [(allFirstUnion_mono himp embeds).1 hunion, Option.getD_none]
      exact allBindings_mono himp methods (by simpa [hunion] using h.2)
    | some b =>
      have hb : b = true := by simpa [hunion] using h.2
      rw [(allFirstUnion_mono himp embeds).2 (hb ▸ hunion), Option.getD_some]
  | .named ⟨_, _, args⟩, h => by
    simp only [all, allRef, Bool.and_eq_true] at h ⊢
    exact ⟨himp _ h.1, allArgs_mono himp args h.2⟩
  | .union terms, h => by
    simp only [all, Bool.and_eq_true] at h ⊢
    exact ⟨himp _ h.1, allTerms_mono himp terms h.2⟩
  | .tuple items, h => by
    simp only [all, Bool.and_eq_true] at h ⊢
    exact ⟨himp _ h.1, allBindings_mono himp items h.2⟩

theorem allBindings_mono {p q : TypeExpr → Bool} (himp : ∀ t, p t = true → q t = true) :
    ∀ bs : List Binding, allBindings p bs = true → allBindings q bs = true
  | [], _ => rfl
  | ⟨_, type⟩ :: bs, h => by
    simp only [allBindings, Bool.and_eq_true] at h ⊢
    exact ⟨all_mono himp h.1, allBindings_mono himp bs h.2⟩

theorem allFirstUnion_mono {p q : TypeExpr → Bool} (himp : ∀ t, p t = true → q t = true) :
    ∀ ts : List TypeExpr, (allFirstUnion p ts = none → allFirstUnion q ts = none) ∧
      (allFirstUnion p ts = some true → allFirstUnion q ts = some true)
  | [] => ⟨fun _ => rfl, nofun⟩
  | .union terms :: ts => by
    refine ⟨nofun, ?_⟩
    intro h
    simp only [allFirstUnion, Option.some.injEq, Bool.and_eq_true] at h ⊢
    exact ⟨himp _ h.1, allTerms_mono himp terms h.2⟩
  | .basic _ :: ts | .pointer _ :: ts | .slice _ :: ts | .array _ _ :: ts | .map _ _ :: ts
  | .chan _ _ :: ts | .struct _ :: ts | .func _ :: ts | .interface _ :: ts | .named _ :: ts
  | .typeParam _ :: ts | .tuple _ :: ts => allFirstUnion_mono himp ts

theorem allArgs_mono {p q : TypeExpr → Bool} (himp : ∀ t, p t = true → q t = true) :
    ∀ ts : List TypeExpr, allArgs p ts = true → allArgs q ts = true
  | [], _ => rfl
  | t :: ts, h => by
    simp only [allArgs, Bool.and_eq_true] at h ⊢
    exact ⟨all_mono himp h.1, allArgs_mono himp ts h.2⟩

theorem allTerms_mono {p q : TypeExpr → Bool} (himp : ∀ t, p t = true → q t = true) :
    ∀ ts : List Term, allTerms p ts = true → allTerms q ts = true
  | [], _ => rfl
  | ⟨type, _⟩ :: ts, h => by
    simp only [allTerms, Bool.and_eq_true] at h ⊢
    exact ⟨all_mono himp h.1, allTerms_mono himp ts h.2⟩

end

/-! ### Statements under a condition

What the rules carry to a type under a condition at every depth, they have for its parts
under the condition on them. -/

/-- A statement about types and their sources, under a condition at every depth. -/
abbrev Under (q : TypeExpr → Bool) (P : Bool → TypeExpr → Fragment → Prop) :
    Bool → TypeExpr → Fragment → Prop :=
  fun spread t f => t.all q = true → P spread t f

namespace Under

variable {scope : Scope} {P : Bool → TypeExpr → Fragment → Prop} {S : Signature → Fragment → Prop}

theorem rendered {spread : Bool} {t : TypeExpr} {f : Fragment}
    (h : Rendered scope (Under q P) spread t f) (ht : t.all q = true) :
    Rendered scope P spread t f :=
  ⟨h.render_eq, h.holds ht⟩

theorem entries {variadic : Bool} {bs : List Binding} {gs : List Fragment}
    (h : Entries (Rendered scope (Under q P)) variadic bs gs)
    (hbs : allBindings q bs = true) : Entries (Rendered scope P) variadic bs gs := by
  induction h with
  | nil => exact .nil
  | cons head tail ih =>
    obtain ⟨hb, hbs⟩ := Bool.and_eq_true_iff.mp hbs
    exact .cons (rendered head hb) (ih hbs)

theorem results {bs : List Binding} {gs : List Fragment}
    (h : List.Forall₂ (fun b g => Rendered scope (Under q P) false b.type g) bs gs)
    (hbs : allBindings q bs = true) :
    List.Forall₂ (fun b g => Rendered scope P false b.type g) bs gs := by
  induction h with
  | nil => exact .nil
  | cons head tail ih =>
    obtain ⟨hb, hbs⟩ := Bool.and_eq_true_iff.mp hbs
    exact .cons (rendered head hb) (ih hbs)

theorem methods {bs : List Binding} {gs : List Fragment}
    (h : List.Forall₂ (fun b f => ∃ s g, b.type = .func s ∧
      ((TypeExpr.func s).all q = true → S s g) ∧ f = .ident b.name :: g) bs gs)
    (hbs : allBindings q bs = true) :
    List.Forall₂ (fun b f => ∃ s g, b.type = .func s ∧ S s g ∧ f = .ident b.name :: g) bs gs := by
  induction h with
  | nil => exact .nil
  | cons head tail ih =>
    obtain ⟨s, g, hs, hg, hf⟩ := head
    obtain ⟨hb, hbs⟩ := Bool.and_eq_true_iff.mp hbs
    exact .cons ⟨s, g, hs, hg (hs ▸ hb), hf⟩ (ih hbs)

theorem args {ts : List TypeExpr} {gs : List Fragment}
    (h : List.Forall₂ (Rendered scope (Under q P) false) ts gs) (hts : allArgs q ts = true) :
    List.Forall₂ (Rendered scope P false) ts gs := by
  induction h with
  | nil => exact .nil
  | cons head tail ih =>
    obtain ⟨ht, hts⟩ := Bool.and_eq_true_iff.mp hts
    exact .cons (rendered head ht) (ih hts)

theorem terms {ts : List Term} {gs : List Fragment}
    (h : List.Forall₂
      (fun t f => ∃ g, Rendered scope (Under q P) false t.type g ∧ f = Fragment.term t.tilde g)
      ts gs)
    (hts : allTerms q ts = true) :
    List.Forall₂
      (fun t f => ∃ g, Rendered scope P false t.type g ∧ f = Fragment.term t.tilde g) ts gs := by
  induction h with
  | nil => exact .nil
  | cons head tail ih =>
    obtain ⟨g, hg, hf⟩ := head
    obtain ⟨ht, hts⟩ := Bool.and_eq_true_iff.mp hts
    exact .cons ⟨g, rendered hg ht, hf⟩ (ih hts)

end Under

/-! ### Types that have a syntax -/

/-- Whether a type has a syntax, whatever its parts are: it is no tuple, and the methods
of an interface that are written are functions. -/
def hasSyntax : TypeExpr → Bool
  | interface body => body.unionTerms?.isSome || body.methods.all (·.type.signature?.isSome)
  | tuple _ => false
  | _ => true

theorem exists_renderBody {scope : Scope} {body : InterfaceBody}
    (hunion : ∀ terms, body.unionTerms? = some terms →
      ∃ f, render scope false (.union terms) = .ok f)
    (hmethods : body.unionTerms? = none → ∃ fs, renderMethods scope body.methods = .ok fs) :
    ∃ f, renderBody scope body = .ok f := by
  obtain ⟨methods, embeds⟩ := body
  rw [renderBody, renderFirstUnion_eq]
  cases h : embeds.findSome? unionTerms? with
  | none =>
    obtain ⟨fs, hfs⟩ := hmethods h
    exact ⟨_, by rw [hfs]; rfl⟩
  | some terms => exact hunion terms h

mutual

/-- **A type is rendered if each of its parts has a syntax.** -/
theorem exists_render (scope : Scope) : ∀ (t : TypeExpr) (spread : Bool),
    t.all hasSyntax = true → ∃ f, t.render scope spread = .ok f
  | .basic _, _, _ => ⟨_, rfl⟩
  | .typeParam _, _, _ => ⟨_, rfl⟩
  | .pointer elem, _, h => by
    obtain ⟨f, hf⟩ := exists_render scope elem false (Bool.and_eq_true_iff.mp h).2
    exact ⟨_, by rw [render, hf]; rfl⟩
  | .slice elem, _, h => by
    obtain ⟨f, hf⟩ := exists_render scope elem false (Bool.and_eq_true_iff.mp h).2
    exact ⟨_, by rw [render, hf]; rfl⟩
  | .array _ elem, _, h => by
    obtain ⟨f, hf⟩ := exists_render scope elem false (Bool.and_eq_true_iff.mp h).2
    exact ⟨_, by rw [render, hf]; rfl⟩
  | .map key value, _, h => by
    obtain ⟨hkey, hvalue⟩ := Bool.and_eq_true_iff.mp (Bool.and_eq_true_iff.mp h).2
    obtain ⟨f, hf⟩ := exists_render scope key false hkey
    obtain ⟨f', hf'⟩ := exists_render scope value false hvalue
    exact ⟨_, by rw [render, hf, hf']; rfl⟩
  | .chan _ elem, _, h => by
    obtain ⟨f, hf⟩ := exists_render scope elem false (Bool.and_eq_true_iff.mp h).2
    exact ⟨_, by rw [render, hf]; rfl⟩
  | .struct fields, _, h => by
    obtain ⟨fs, hfs⟩ := exists_renderEntries scope fields false (Bool.and_eq_true_iff.mp h).2
    exact ⟨_, by rw [render, hfs]; rfl⟩
  | .func signature, _, h => by
    obtain ⟨f, hf⟩ := exists_renderSignature scope signature (Bool.and_eq_true_iff.mp h).2
    exact ⟨_, by rw [render, hf]; rfl⟩
  | .interface ⟨methods, embeds⟩, _, h => by
    obtain ⟨hitself, hbody⟩ := Bool.and_eq_true_iff.mp h
    rw [render]
    apply exists_renderBody
    · intro terms hterms
      rw [allBody_of_some hterms] at hbody
      exact exists_renderUnion scope embeds hterms hbody
    · intro hnone
      rw [allBody_of_none hnone] at hbody
      have hmethods : methods.all (·.type.signature?.isSome) = true := by
        simpa [hasSyntax, hnone] using hitself
      exact exists_renderMethods scope methods hmethods hbody
  | .named ⟨_, _, args⟩, _, h => by
    obtain ⟨fs, hfs⟩ := exists_renderAll scope args (Bool.and_eq_true_iff.mp h).2
    exact ⟨_, by rw [render, renderRef, hfs]; rfl⟩
  | .union terms, _, h => by
    obtain ⟨fs, hfs⟩ := exists_renderTerms scope terms (Bool.and_eq_true_iff.mp h).2
    exact ⟨_, by rw [render, hfs]; rfl⟩
  | .tuple _, _, h => by
    cases (Bool.and_eq_true_iff.mp h).1

theorem exists_renderEntries (scope : Scope) : ∀ (bs : List Binding) (variadic : Bool),
    allBindings hasSyntax bs = true → ∃ fs, renderEntries scope variadic bs = .ok fs
  | [], _, _ => ⟨_, rfl⟩
  | ⟨_, type⟩ :: bs, variadic, h => by
    obtain ⟨htype, hbs⟩ := Bool.and_eq_true_iff.mp h
    obtain ⟨f, hf⟩ := exists_render scope type (variadic && bs.isEmpty) htype
    obtain ⟨fs, hfs⟩ := exists_renderEntries scope bs variadic hbs
    exact ⟨_, by rw [renderEntries, hf, hfs]; rfl⟩

theorem exists_renderResults (scope : Scope) : ∀ bs : List Binding,
    allBindings hasSyntax bs = true → ∃ fs, renderResults scope bs = .ok fs
  | [], _ => ⟨_, rfl⟩
  | ⟨_, type⟩ :: bs, h => by
    obtain ⟨htype, hbs⟩ := Bool.and_eq_true_iff.mp h
    obtain ⟨f, hf⟩ := exists_render scope type false htype
    obtain ⟨fs, hfs⟩ := exists_renderResults scope bs hbs
    exact ⟨_, by rw [renderResults, hf, hfs]; rfl⟩

theorem exists_renderSignature (scope : Scope) : ∀ s : Signature,
    allSignature hasSyntax s = true → ∃ f, renderSignature scope s = .ok f
  | ⟨params, results, variadic⟩, h => by
    obtain ⟨hparams, hresults⟩ := Bool.and_eq_true_iff.mp h
    obtain ⟨fs, hfs⟩ := exists_renderEntries scope params variadic hparams
    obtain ⟨fs', hfs'⟩ := exists_renderResults scope results hresults
    exact ⟨_, by rw [renderSignature, hfs, hfs']; rfl⟩

/-- The condition on an interface leaves only methods that are functions. -/
theorem exists_renderMethods (scope : Scope) : ∀ bs : List Binding,
    bs.all (·.type.signature?.isSome) = true → allBindings hasSyntax bs = true →
      ∃ fs, renderMethods scope bs = .ok fs
  | [], _, _ => ⟨_, rfl⟩
  | ⟨_, .func signature⟩ :: bs, hfunc, h => by
    obtain ⟨htype, hbs⟩ := Bool.and_eq_true_iff.mp h
    obtain ⟨f, hf⟩ := exists_renderSignature scope signature (Bool.and_eq_true_iff.mp htype).2
    obtain ⟨fs, hfs⟩ := exists_renderMethods scope bs (Bool.and_eq_true_iff.mp hfunc).2 hbs
    exact ⟨_, by rw [renderMethods, renderMethod, hf, hfs]; rfl⟩
  | ⟨_, .basic _⟩ :: _, h, _ | ⟨_, .pointer _⟩ :: _, h, _ | ⟨_, .slice _⟩ :: _, h, _
  | ⟨_, .array _ _⟩ :: _, h, _ | ⟨_, .map _ _⟩ :: _, h, _ | ⟨_, .chan _ _⟩ :: _, h, _
  | ⟨_, .struct _⟩ :: _, h, _ | ⟨_, .interface _⟩ :: _, h, _ | ⟨_, .named _⟩ :: _, h, _
  | ⟨_, .typeParam _⟩ :: _, h, _ | ⟨_, .union _⟩ :: _, h, _ | ⟨_, .tuple _⟩ :: _, h, _ => by
    cases h

theorem exists_renderUnion (scope : Scope) : ∀ (ts : List TypeExpr) {terms : List Term},
    ts.findSome? unionTerms? = some terms → all hasSyntax (.union terms) = true →
      ∃ f, render scope false (.union terms) = .ok f
  | [], _, hterms, _ => by cases hterms
  | .union terms :: _, _, hterms, h => by
    cases hterms
    obtain ⟨fs, hfs⟩ := exists_renderTerms scope terms (Bool.and_eq_true_iff.mp h).2
    exact ⟨_, by rw [render, hfs]; rfl⟩
  | .basic _ :: ts, _, hterms, h | .pointer _ :: ts, _, hterms, h | .slice _ :: ts, _, hterms, h
  | .array _ _ :: ts, _, hterms, h | .map _ _ :: ts, _, hterms, h
  | .chan _ _ :: ts, _, hterms, h | .struct _ :: ts, _, hterms, h | .func _ :: ts, _, hterms, h
  | .interface _ :: ts, _, hterms, h | .named _ :: ts, _, hterms, h
  | .typeParam _ :: ts, _, hterms, h | .tuple _ :: ts, _, hterms, h =>
    exists_renderUnion scope ts hterms h

theorem exists_renderAll (scope : Scope) : ∀ ts : List TypeExpr,
    allArgs hasSyntax ts = true → ∃ fs, renderAll scope ts = .ok fs
  | [], _ => ⟨_, rfl⟩
  | t :: ts, h => by
    obtain ⟨ht, hts⟩ := Bool.and_eq_true_iff.mp h
    obtain ⟨f, hf⟩ := exists_render scope t false ht
    obtain ⟨fs, hfs⟩ := exists_renderAll scope ts hts
    exact ⟨_, by rw [renderAll, hf, hfs]; rfl⟩

theorem exists_renderTerms (scope : Scope) : ∀ ts : List Term,
    allTerms hasSyntax ts = true → ∃ fs, renderTerms scope ts = .ok fs
  | [], _ => ⟨_, rfl⟩
  | ⟨type, _⟩ :: ts, h => by
    obtain ⟨ht, hts⟩ := Bool.and_eq_true_iff.mp h
    obtain ⟨f, hf⟩ := exists_render scope type false ht
    obtain ⟨fs, hfs⟩ := exists_renderTerms scope ts hts
    exact ⟨_, by rw [renderTerms, hf, hfs]; rfl⟩

end

/-! ### Types whose names are words -/

/-- Whether the names that a type itself holds are words.  A field or a parameter need
not have a name. -/
def namesAreWords : TypeExpr → Bool
  | basic name | typeParam name => isWord name
  | named ref => isWord ref.name
  | struct fields => fields.all fun b => b.name = "" || isWord b.name
  | func signature => signature.params.all fun b => b.name = "" || isWord b.name
  | interface body => body.methods.all fun b => isWord b.name
  | _ => true

end TypeExpr

namespace Fragment

theorem worded_entry {name : String} {g : Fragment} (hname : (name = "" || isWord name) = true)
    (hg : Worded g) : Worded (entry name g) := by
  rw [entry]
  split
  · exact hg
  · next hne =>
    have hword : isWord name = true := by simpa [hne] using hname
    exact ⟨hword, hg⟩

theorem worded_bracketed {gs : List Fragment} (h : ∀ g ∈ gs, Worded g) :
    Worded (bracketed gs) := by
  cases gs with
  | nil => trivial
  | cons g gs => exact ⟨wordedItems_iff.mpr h, trivial⟩

theorem worded_resultClause {gs : List Fragment} (h : ∀ g ∈ gs, Worded g) :
    Worded (resultClause gs) := by
  match gs, h with
  | [], _ => trivial
  | [g], h => exact h g (List.mem_singleton_self g)
  | _ :: _ :: _, h => exact ⟨wordedItems_iff.mpr h, trivial⟩

theorem worded_term {g : Fragment} (hg : Worded g) (tilde : Bool) : Worded (term tilde g) := by
  cases tilde with
  | false => exact hg
  | true => exact ⟨trivial, hg⟩

end Fragment

namespace TypeExpr

open Fragment

variable {scope : Scope}

theorem worded_entries {variadic : Bool} {bs : List Binding} {gs : List Fragment}
    (h : Entries (Rendered scope fun _ _ f => Fragment.Worded f) variadic bs gs)
    (hnames : (bs.all fun b => b.name = "" || isWord b.name) = true) :
    ∀ g ∈ gs, Fragment.Worded g := by
  induction h with
  | nil =>
    intro g hg
    cases hg
  | cons head tail ih =>
    obtain ⟨hname, hnames⟩ := Bool.and_eq_true_iff.mp hnames
    exact List.forall_mem_cons.mpr ⟨worded_entry hname head.holds, ih hnames⟩

theorem worded_methods {bs : List Binding} {gs : List Fragment}
    (h : List.Forall₂ (fun b f => ∃ s g, b.type = .func s ∧ Fragment.Worded g ∧
      f = .ident b.name :: g) bs gs)
    (hnames : (bs.all fun b => isWord b.name) = true) : ∀ g ∈ gs, Fragment.Worded g := by
  induction h with
  | nil =>
    intro g hg
    cases hg
  | cons head tail ih =>
    obtain ⟨s, g, -, hg, rfl⟩ := head
    obtain ⟨hname, hnames⟩ := Bool.and_eq_true_iff.mp hnames
    exact List.forall_mem_cons.mpr ⟨⟨hname, hg⟩, ih hnames⟩

theorem worded_rules (scope : Scope) :
    RenderRules scope (Under namesAreWords fun _ _ f => Fragment.Worded f)
      (fun s f => (TypeExpr.func s).all namesAreWords = true → Fragment.Worded f) where
  basic _ _ h := ⟨h, trivial⟩
  pointer _ _ _ hg h := ⟨trivial, hg.holds (Bool.and_eq_true_iff.mp h).2⟩
  slice _ _ _ hg h := ⟨trivial, hg.holds (Bool.and_eq_true_iff.mp h).2⟩
  array _ len _ _ hg h :=
    ⟨⟨⟨isWord_toString len.toNat, trivial⟩, trivial⟩, hg.holds (Bool.and_eq_true_iff.mp h).2⟩
  map _ _ _ _ _ hk hv h := by
    obtain ⟨hkey, hvalue⟩ := Bool.and_eq_true_iff.mp (Bool.and_eq_true_iff.mp h).2
    exact ⟨Token.worded_keyword rfl, ⟨hk.holds hkey, trivial⟩, hv.holds hvalue⟩
  chan _ dir elem g hg h := by
    have helem := hg.holds (Bool.and_eq_true_iff.mp h).2
    apply worded_append
    · cases dir
      · exact ⟨Token.worded_keyword rfl, trivial⟩
      · exact ⟨Token.worded_keyword rfl, trivial, trivial⟩
      · exact ⟨trivial, Token.worded_keyword rfl, trivial⟩
    · rw [chanElem]
      split
      · exact ⟨⟨helem, trivial⟩, trivial⟩
      · exact helem
  struct _ fields gs hgs h := by
    obtain ⟨hnames, hfields⟩ := Bool.and_eq_true_iff.mp h
    exact ⟨Token.worded_keyword rfl,
      wordedItems_iff.mpr (worded_entries (Under.entries hgs hfields) hnames), trivial⟩
  signature params results variadic gs gs' hgs hgs' h := by
    obtain ⟨hnames, hparts⟩ := Bool.and_eq_true_iff.mp h
    obtain ⟨hparams, hresults⟩ := Bool.and_eq_true_iff.mp hparts
    refine ⟨wordedItems_iff.mpr (worded_entries (Under.entries hgs hparams) hnames), ?_⟩
    exact worded_resultClause (forall_mem_of_forall₂ (Under.results hgs' hresults)
      fun _ _ hresult => hresult.holds)
  func _ _ _ hg h := ⟨Token.worded_keyword rfl, hg h⟩
  interface _ body gs hnone hgs h := by
    obtain ⟨hnames, hbody⟩ := Bool.and_eq_true_iff.mp h
    rw [allBody_of_none hnone] at hbody
    exact ⟨Token.worded_keyword rfl,
      wordedItems_iff.mpr (worded_methods (Under.methods hgs hbody) hnames), trivial⟩
  typeSet _ body terms g hterms hg h := by
    have hbody := (Bool.and_eq_true_iff.mp h).2
    rw [allBody_of_some hterms] at hbody
    exact hg hbody
  named _ ref gs hgs h := by
    obtain ⟨name, path, args⟩ := ref
    obtain ⟨hname, hargs⟩ := Bool.and_eq_true_iff.mp h
    have href : (scope.reference path name).Worded := by
      rw [Scope.reference]
      split <;> exact hname
    exact ⟨href, worded_bracketed (forall_mem_of_forall₂ (Under.args hgs hargs)
      fun _ _ harg => harg.holds)⟩
  typeParam _ _ h := ⟨h, trivial⟩
  union _ _ _ hgs h := by
    refine ⟨wordedItems_iff.mpr ?_, trivial⟩
    refine forall_mem_of_forall₂ (Under.terms hgs (Bool.and_eq_true_iff.mp h).2) ?_
    rintro t f ⟨g, hg, rfl⟩
    exact worded_term hg.holds _

/-- **The names in the source of a type are those in the type.** -/
theorem worded_of_render {spread : Bool} {t : TypeExpr} {f : Fragment}
    (h : t.render scope spread = .ok f) (ht : t.all namesAreWords = true) : Fragment.Worded f :=
  (worded_rules scope).render t h ht

end TypeExpr

end GoDecl
