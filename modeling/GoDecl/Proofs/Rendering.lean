import GoDecl.Rendering
import Mathlib

/-!
# Induction over rendered types

What is true of the source of every type expression is shown by one induction,
over the types that have a source.  The rules are one for each shape of type: a
statement about a type and its source that follows from the same statement about
the parts holds whenever rendering succeeds.

## Main definitions

* `DecidedByUnion`: what depends on the first union that an interface embeds
* `Rendered`, `Entries`: a type with its source, and bindings with their sources
* `RenderRules`: the rules a statement about rendered types has to satisfy
* `Fragment.Opens`: whether a fragment begins like a type

## Main results

* `RenderRules.render`: the rules carry a statement to every rendered type
* `opens_of_render`: the source of a type begins like a type
-/

namespace GoDecl

/-! ### Computations that may fail, and lists side by side -/

@[simp] theorem ok_bind {ε α β : Type} (a : α) (k : α → Except ε β) :
    Except.ok a >>= k = k a := rfl

theorem bind_eq_ok_iff {ε α β : Type} {x : Except ε α} {k : α → Except ε β} {b : β} :
    x >>= k = .ok b ↔ ∃ a, x = .ok a ∧ k a = .ok b := by
  cases x with
  | error e => exact ⟨fun h => (nomatch h), fun ⟨_, h, _⟩ => (nomatch h)⟩
  | ok a =>
    constructor
    · intro h
      exact ⟨a, rfl, h⟩
    · rintro ⟨_, ⟨⟩, h⟩
      exact h

theorem pure_eq_ok_iff {ε α : Type} {a b : α} : (pure a : Except ε α) = .ok b ↔ a = b :=
  ⟨fun h => by cases h; rfl, fun h => h ▸ rfl⟩

theorem forall_mem_of_forall₂ {α β : Type} {R : α → β → Prop} {p : β → Prop} {l : List α}
    {l' : List β} (h : List.Forall₂ R l l') (hp : ∀ a b, R a b → p b) : ∀ b ∈ l', p b := by
  induction h with
  | nil =>
    intro b hb
    cases hb
  | cons head tail ih => exact List.forall_mem_cons.mpr ⟨hp _ _ head, ih⟩

theorem forall₂_of_mapM {α β ε : Type} {k : α → Except ε β} {as : List α} {bs : List β}
    (h : as.mapM k = .ok bs) : List.Forall₂ (fun a b => k a = .ok b) as bs := by
  induction as generalizing bs with
  | nil =>
    rw [List.mapM_nil, pure_eq_ok_iff] at h
    exact h ▸ .nil
  | cons a as ih =>
    simp only [List.mapM_cons, bind_eq_ok_iff, pure_eq_ok_iff] at h
    obtain ⟨b, hb, bs, hbs, rfl⟩ := h
    exact .cons hb (ih hbs)

/-! ### The first union among some types -/

/-- A function of the embedded types of an interface that their first union decides. -/
structure DecidedByUnion {α : Type} (first : List TypeExpr → α) (k : List Term → α) : Prop where
  union : ∀ terms ts, first (.union terms :: ts) = k terms
  skip : ∀ t ts, t.unionTerms? = none → first (t :: ts) = first ts

namespace DecidedByUnion

variable {α : Type} {first : List TypeExpr → α} {k : List Term → α} {embeds : List TypeExpr}

theorem of_some (h : DecidedByUnion first k) {terms : List Term}
    (hterms : embeds.findSome? TypeExpr.unionTerms? = some terms) : first embeds = k terms := by
  induction embeds with
  | nil => cases hterms
  | cons t ts ih =>
    rw [List.findSome?_cons] at hterms
    cases t with
    | union terms' =>
      cases hterms
      exact h.union terms ts
    | _ =>
      rw [h.skip _ _ rfl]
      exact ih hterms

theorem of_none (h : DecidedByUnion first k)
    (hnone : embeds.findSome? TypeExpr.unionTerms? = none) : first embeds = first [] := by
  induction embeds with
  | nil => rfl
  | cons t ts ih =>
    rw [List.findSome?_eq_none_iff] at hnone
    rw [h.skip t ts (hnone t List.mem_cons_self)]
    exact ih (List.findSome?_eq_none_iff.mpr fun u hu => hnone u (List.mem_cons_of_mem t hu))

end DecidedByUnion

/-! ### The rules -/

/-- A type with its source in a place, of which `P` holds. -/
structure Rendered (scope : Scope) (P : Bool → TypeExpr → Fragment → Prop) (spread : Bool)
    (t : TypeExpr) (g : Fragment) : Prop where
  render_eq : t.render scope spread = .ok g
  holds : P spread t g

/-- Bindings and their sources as entries, where `P` relates a type in a place to
its source.  With `variadic` the last place is that of a variadic parameter. -/
inductive Entries (P : Bool → TypeExpr → Fragment → Prop) (variadic : Bool) :
    List Binding → List Fragment → Prop
  | nil : Entries P variadic [] []
  | cons {b : Binding} {bs : List Binding} {g : Fragment} {gs : List Fragment}
      (head : P (variadic && bs.isEmpty) b.type g) (tail : Entries P variadic bs gs) :
      Entries P variadic (b :: bs) (Fragment.entry b.name g :: gs)

/-- The rules that carry a statement `P` about types and their sources, and a
statement `S` about signatures and their sources, to every rendered type. -/
structure RenderRules (scope : Scope) (P : Bool → TypeExpr → Fragment → Prop)
    (S : Signature → Fragment → Prop) : Prop where
  basic : ∀ spread name, P spread (.basic name) [.ident name]
  pointer : ∀ spread elem g, Rendered scope P false elem g →
    P spread (.pointer elem) (.punct .star :: g)
  slice : ∀ spread elem g, Rendered scope P false elem g →
    P spread (.slice elem) (.punct (if spread then .ellipsis else .brackets) :: g)
  array : ∀ spread len elem g, Rendered scope P false elem g →
    P spread (.array len elem) (.group .index [[.ident (toString len.toNat)]] :: g)
  map : ∀ spread key value g g', Rendered scope P false key g → Rendered scope P false value g' →
    P spread (.map key value) (.keyword "map" :: .group .index [g] :: g')
  chan : ∀ spread dir elem g, Rendered scope P false elem g →
    P spread (.chan dir elem) (dir.tokens ++ TypeExpr.chanElem dir elem g)
  struct : ∀ spread fields gs, Entries (Rendered scope P) false fields gs →
    P spread (.struct fields) [.keyword "struct", .group .brace gs]
  signature : ∀ params results variadic gs gs', Entries (Rendered scope P) variadic params gs →
    List.Forall₂ (fun b g => Rendered scope P false b.type g) results gs' →
    S ⟨params, results, variadic⟩ (.group .paren gs :: Fragment.resultClause gs')
  func : ∀ spread s g, S s g → P spread (.func s) (.keyword "func" :: g)
  interface : ∀ spread (body : InterfaceBody) gs, body.unionTerms? = none →
    List.Forall₂ (fun b f => ∃ s g, b.type = .func s ∧ S s g ∧ f = .ident b.name :: g)
      body.methods gs →
    P spread (.interface body) [.keyword "interface", .group .brace gs]
  typeSet : ∀ spread (body : InterfaceBody) terms g, body.unionTerms? = some terms →
    P false (.union terms) g → P spread (.interface body) g
  named : ∀ spread (ref : TypeRef) gs, List.Forall₂ (Rendered scope P false) ref.args gs →
    P spread (.named ref) (scope.reference ref.path ref.name :: Fragment.bracketed gs)
  typeParam : ∀ spread name, P spread (.typeParam name) [.ident name]
  union : ∀ spread terms gs,
    List.Forall₂ (fun t f => ∃ g, Rendered scope P false t.type g ∧ f = Fragment.term t.tilde g)
      terms gs →
    P spread (.union terms) [.group .pipe gs]

namespace RenderRules

open TypeExpr

variable {scope : Scope} {P : Bool → TypeExpr → Fragment → Prop} {S : Signature → Fragment → Prop}

mutual

/-- **The rules carry a statement to every rendered type.** -/
theorem render (rules : RenderRules scope P S) :
    ∀ (t : TypeExpr) {spread : Bool} {f : Fragment},
      TypeExpr.render scope spread t = .ok f → P spread t f
  | .basic name, spread, f, h => by
    rw [TypeExpr.render, pure_eq_ok_iff] at h
    exact h ▸ rules.basic spread name
  | .pointer elem, spread, f, h => by
    simp only [TypeExpr.render, bind_eq_ok_iff, pure_eq_ok_iff] at h
    obtain ⟨g, hg, rfl⟩ := h
    exact rules.pointer spread elem g ⟨hg, render rules elem hg⟩
  | .slice elem, spread, f, h => by
    simp only [TypeExpr.render, bind_eq_ok_iff, pure_eq_ok_iff] at h
    obtain ⟨g, hg, rfl⟩ := h
    exact rules.slice spread elem g ⟨hg, render rules elem hg⟩
  | .array len elem, spread, f, h => by
    simp only [TypeExpr.render, bind_eq_ok_iff, pure_eq_ok_iff] at h
    obtain ⟨g, hg, rfl⟩ := h
    exact rules.array spread len elem g ⟨hg, render rules elem hg⟩
  | .map key value, spread, f, h => by
    simp only [TypeExpr.render, bind_eq_ok_iff, pure_eq_ok_iff] at h
    obtain ⟨g, hg, g', hg', rfl⟩ := h
    exact rules.map spread key value g g' ⟨hg, render rules key hg⟩ ⟨hg', render rules value hg'⟩
  | .chan dir elem, spread, f, h => by
    simp only [TypeExpr.render, bind_eq_ok_iff, pure_eq_ok_iff] at h
    obtain ⟨g, hg, rfl⟩ := h
    exact rules.chan spread dir elem g ⟨hg, render rules elem hg⟩
  | .struct fields, spread, f, h => by
    simp only [TypeExpr.render, bind_eq_ok_iff, pure_eq_ok_iff] at h
    obtain ⟨gs, hgs, rfl⟩ := h
    exact rules.struct spread fields gs (renderEntries rules fields hgs)
  | .func s, spread, f, h => by
    simp only [TypeExpr.render, bind_eq_ok_iff, pure_eq_ok_iff] at h
    obtain ⟨g, hg, rfl⟩ := h
    exact rules.func spread s g (renderSignature rules s hg)
  | .interface ⟨methods, embeds⟩, spread, f, h => by
    rw [TypeExpr.render, renderBody] at h
    split at h
    · next source hsource =>
      obtain ⟨terms, hterms, hP⟩ := renderFirstUnion rules embeds hsource
      exact rules.typeSet spread _ terms _ hterms (hP f h)
    · next hnone =>
      simp only [bind_eq_ok_iff, pure_eq_ok_iff] at h
      obtain ⟨gs, hgs, rfl⟩ := h
      have hterms : (⟨methods, embeds⟩ : InterfaceBody).unionTerms? = none := by
        rw [renderFirstUnion_eq] at hnone
        exact Option.map_eq_none_iff.mp hnone
      exact rules.interface spread _ gs hterms (renderMethods rules methods hgs)
  | .named ⟨name, path, args⟩, spread, f, h => by
    simp only [TypeExpr.render, renderRef, bind_eq_ok_iff, pure_eq_ok_iff] at h
    obtain ⟨gs, hgs, rfl⟩ := h
    exact rules.named spread ⟨name, path, args⟩ gs (renderAll rules args hgs)
  | .typeParam name, spread, f, h => by
    rw [TypeExpr.render, pure_eq_ok_iff] at h
    exact h ▸ rules.typeParam spread name
  | .union terms, spread, f, h => by
    simp only [TypeExpr.render, bind_eq_ok_iff, pure_eq_ok_iff] at h
    obtain ⟨gs, hgs, rfl⟩ := h
    exact rules.union spread terms gs (renderTerms rules terms hgs)
  | .tuple items, spread, f, h => by
    rw [TypeExpr.render] at h
    cases h

theorem renderEntries (rules : RenderRules scope P S) :
    ∀ (bs : List Binding) {variadic : Bool} {fs : List Fragment},
      TypeExpr.renderEntries scope variadic bs = .ok fs →
        Entries (Rendered scope P) variadic bs fs
  | [], variadic, fs, h => by
    rw [TypeExpr.renderEntries, pure_eq_ok_iff] at h
    exact h ▸ .nil
  | ⟨name, type⟩ :: bs, variadic, fs, h => by
    simp only [TypeExpr.renderEntries, bind_eq_ok_iff, pure_eq_ok_iff] at h
    obtain ⟨g, hg, gs, hgs, rfl⟩ := h
    exact .cons ⟨hg, render rules type hg⟩ (renderEntries rules bs hgs)

theorem renderResults (rules : RenderRules scope P S) :
    ∀ (bs : List Binding) {fs : List Fragment}, TypeExpr.renderResults scope bs = .ok fs →
      List.Forall₂ (fun b g => Rendered scope P false b.type g) bs fs
  | [], fs, h => by
    rw [TypeExpr.renderResults, pure_eq_ok_iff] at h
    exact h ▸ .nil
  | ⟨name, type⟩ :: bs, fs, h => by
    simp only [TypeExpr.renderResults, bind_eq_ok_iff, pure_eq_ok_iff] at h
    obtain ⟨g, hg, gs, hgs, rfl⟩ := h
    exact .cons ⟨hg, render rules type hg⟩ (renderResults rules bs hgs)

theorem renderSignature (rules : RenderRules scope P S) :
    ∀ (s : Signature) {f : Fragment}, TypeExpr.renderSignature scope s = .ok f → S s f
  | ⟨params, results, variadic⟩, f, h => by
    simp only [TypeExpr.renderSignature, bind_eq_ok_iff, pure_eq_ok_iff] at h
    obtain ⟨gs, hgs, gs', hgs', rfl⟩ := h
    exact rules.signature params results variadic gs gs' (renderEntries rules params hgs)
      (renderResults rules results hgs')

theorem renderMethods (rules : RenderRules scope P S) :
    ∀ (bs : List Binding) {fs : List Fragment}, TypeExpr.renderMethods scope bs = .ok fs →
      List.Forall₂ (fun b f => ∃ s g, b.type = .func s ∧ S s g ∧ f = .ident b.name :: g) bs fs
  | [], fs, h => by
    rw [TypeExpr.renderMethods, pure_eq_ok_iff] at h
    exact h ▸ .nil
  | ⟨name, .func s⟩ :: bs, fs, h => by
    simp only [TypeExpr.renderMethods, renderMethod, bind_eq_ok_iff, pure_eq_ok_iff] at h
    obtain ⟨_, ⟨g, hg, rfl⟩, gs, hgs, rfl⟩ := h
    exact .cons ⟨s, g, rfl, renderSignature rules s hg, rfl⟩ (renderMethods rules bs hgs)
  | ⟨_, .basic _⟩ :: _, _, h | ⟨_, .pointer _⟩ :: _, _, h | ⟨_, .slice _⟩ :: _, _, h
  | ⟨_, .array _ _⟩ :: _, _, h | ⟨_, .map _ _⟩ :: _, _, h | ⟨_, .chan _ _⟩ :: _, _, h
  | ⟨_, .struct _⟩ :: _, _, h | ⟨_, .interface _⟩ :: _, _, h | ⟨_, .named _⟩ :: _, _, h
  | ⟨_, .typeParam _⟩ :: _, _, h | ⟨_, .union _⟩ :: _, _, h | ⟨_, .tuple _⟩ :: _, _, h => by
    cases h

theorem renderFirstUnion (rules : RenderRules scope P S) :
    ∀ (embeds : List TypeExpr) {source : Except Unsupported Fragment},
      TypeExpr.renderFirstUnion scope embeds = some source →
        ∃ terms, embeds.findSome? unionTerms? = some terms ∧
          ∀ f, source = .ok f → P false (.union terms) f
  | [], _, h => by cases h
  | .union terms :: _, source, h => by
    rw [TypeExpr.renderFirstUnion, Option.some.injEq] at h
    refine ⟨terms, rfl, ?_⟩
    intro f hf
    simp only [← h, bind_eq_ok_iff, pure_eq_ok_iff] at hf
    obtain ⟨gs, hgs, rfl⟩ := hf
    exact rules.union false terms gs (renderTerms rules terms hgs)
  | .basic _ :: ts, _, h | .pointer _ :: ts, _, h | .slice _ :: ts, _, h
  | .array _ _ :: ts, _, h | .map _ _ :: ts, _, h | .chan _ _ :: ts, _, h
  | .struct _ :: ts, _, h | .func _ :: ts, _, h | .interface _ :: ts, _, h
  | .named _ :: ts, _, h | .typeParam _ :: ts, _, h | .tuple _ :: ts, _, h =>
    renderFirstUnion rules ts h

theorem renderAll (rules : RenderRules scope P S) :
    ∀ (ts : List TypeExpr) {fs : List Fragment}, TypeExpr.renderAll scope ts = .ok fs →
      List.Forall₂ (Rendered scope P false) ts fs
  | [], fs, h => by
    rw [TypeExpr.renderAll, pure_eq_ok_iff] at h
    exact h ▸ .nil
  | t :: ts, fs, h => by
    simp only [TypeExpr.renderAll, bind_eq_ok_iff, pure_eq_ok_iff] at h
    obtain ⟨g, hg, gs, hgs, rfl⟩ := h
    exact .cons ⟨hg, render rules t hg⟩ (renderAll rules ts hgs)

theorem renderTerms (rules : RenderRules scope P S) :
    ∀ (ts : List Term) {fs : List Fragment}, TypeExpr.renderTerms scope ts = .ok fs →
      List.Forall₂
        (fun t f => ∃ g, Rendered scope P false t.type g ∧ f = Fragment.term t.tilde g) ts fs
  | [], fs, h => by
    rw [TypeExpr.renderTerms, pure_eq_ok_iff] at h
    exact h ▸ .nil
  | ⟨type, tilde⟩ :: ts, fs, h => by
    simp only [TypeExpr.renderTerms, bind_eq_ok_iff, pure_eq_ok_iff] at h
    obtain ⟨g, hg, gs, hgs, rfl⟩ := h
    exact .cons ⟨g, ⟨hg, render rules type hg⟩, rfl⟩ (renderTerms rules ts hgs)

end

end RenderRules

/-! ### How a type begins -/

/-- Whether a type can begin with a token. -/
def Token.opensType : Token → Bool
  | .ident _ | .keyword _ | .qualified _ _ => true
  | .punct .star | .punct .brackets | .punct .ellipsis | .punct .recvArrow => true
  | .group .index _ | .group .pipe _ => true
  | _ => false

/-- Whether a fragment begins like a type. -/
def Fragment.Opens (f : Fragment) : Prop :=
  ∃ t ts, f = t :: ts ∧ t.opensType

theorem Fragment.Opens.cons {t : Token} (ts : Fragment) (h : t.opensType) : Opens (t :: ts) :=
  ⟨t, ts, rfl, h⟩

theorem Scope.opensType_reference (scope : Scope) (path name : String) :
    (scope.reference path name).opensType := by
  rw [reference]
  split <;> rfl

theorem opens_rules (scope : Scope) :
    RenderRules scope (fun _ _ f => f.Opens) (fun _ _ => True) where
  basic _ _ := .cons _ rfl
  pointer _ _ _ _ := .cons _ rfl
  slice spread _ _ _ := by
    apply Fragment.Opens.cons
    cases spread <;> rfl
  array _ _ _ _ _ := .cons _ rfl
  map _ _ _ _ _ _ _ := .cons _ rfl
  chan _ dir _ _ _ := by
    cases dir <;> exact .cons _ rfl
  struct _ _ _ _ := .cons _ rfl
  signature _ _ _ _ _ _ _ := trivial
  func _ _ _ _ := .cons _ rfl
  interface _ _ _ _ _ := .cons _ rfl
  typeSet _ _ _ _ _ h := h
  named _ _ _ _ := .cons _ (scope.opensType_reference _ _)
  typeParam _ _ := .cons _ rfl
  union _ _ _ _ := .cons _ rfl

/-- **The source of a type begins like a type.** -/
theorem opens_of_render {scope : Scope} {spread : Bool} {t : TypeExpr} {f : Fragment}
    (h : t.render scope spread = .ok f) : f.Opens :=
  (opens_rules scope).render t h

theorem Rendered.opens {scope : Scope} {P : Bool → TypeExpr → Fragment → Prop} {spread : Bool}
    {t : TypeExpr} {f : Fragment} (h : Rendered scope P spread t f) : f.Opens :=
  opens_of_render h.render_eq

end GoDecl
