import GoDecl.Proofs.Determinacy
import GoDecl.Proofs.Walk
import GoDecl.Token.Equality

/-!
# Variadic parameters

The marker `...` is written where a variadic function has a slice as its last parameter, in
the last item of that parameter list, and nowhere else.  The place of a variadic parameter does
not reach into what stands there: at any depth, a type in it has the markers of its own
signatures only.

## Main definitions

* `Frame`, `Place`: a place in a fragment, by the groups around it
* `Fragment.ellipses`: the places of the marker in a fragment, at all depths
* `Place.LastParam`: the last item of a parameter list, first in it or right behind a name
* `Visit.spreads`: how many signatures among what a walk comes to are written with the marker
* `Places`, `TypeExpr.Marked`: how many markers there are, and where

## Main results

* `marked_of_render`: the markers in the source of a type
* `render_spread`: what the place of a variadic parameter changes in the source of a type
-/

namespace GoDecl

/-! ### Places -/

/-- A group around a place: what stands before the group, its delimiters, and the items behind
the one that holds the place. -/
structure Frame where
  before : Fragment
  delim : Delim
  later : List Fragment
deriving DecidableEq

/-- A place in a fragment: the groups around it, the outermost first, and what stands before it
in the innermost one. -/
structure Place where
  frames : List Frame
  before : Fragment
deriving DecidableEq

/-- Nothing, or a name alone. -/
def Fragment.IsOptionalName (f : Fragment) : Prop :=
  f = [] ∨ ∃ name, f = [.ident name]

/-- The innermost group is a parameter list, behind `func` or behind the name of a method in an
interface, and no item of it is later. -/
inductive Frame.EndInParams : List Frame → Prop
  | func (outer : List Frame) (before : Fragment) :
      EndInParams (outer ++ [⟨before ++ [.keyword "func"], .paren, []⟩])
  | method (outer : List Frame) (before : Fragment) (later : List Fragment) (name : String) :
      EndInParams
        (outer ++ [⟨before ++ [.keyword "interface"], .brace, later⟩, ⟨[.ident name], .paren, []⟩])

namespace Frame.EndInParams

theorem ne_nil {frames : List Frame} (h : EndInParams frames) : frames ≠ [] := by
  cases h <;> simp

theorem cons (frame : Frame) {frames : List Frame} (h : EndInParams frames) :
    EndInParams (frame :: frames) := by
  cases h with
  | func outer before => exact .func (frame :: outer) before
  | method outer before later name => exact .method (frame :: outer) before later name

/-- A parameter list is told by the token right before it. -/
theorem behind (t : Token) {frame : Frame} {frames : List Frame}
    (h : EndInParams (frame :: frames)) :
    EndInParams (⟨t :: frame.before, frame.delim, frame.later⟩ :: frames) := by
  generalize hall : frame :: frames = all at h
  cases h with
  | func outer before =>
    cases outer with
    | nil =>
      cases hall
      exact .func [] (t :: before)
    | cons frame' outer =>
      cases hall
      exact .func (_ :: outer) before
  | method outer before later name =>
    cases outer with
    | nil =>
      cases hall
      exact .method [] (t :: before) later name
    | cons frame' outer =>
      cases hall
      exact .method (_ :: outer) before later name

end Frame.EndInParams

namespace Place

/-- The first place of a fragment. -/
def first : Place := ⟨[], []⟩

/-- A place in what stands behind a token. -/
def behind (t : Token) : Place → Place
  | ⟨[], before⟩ => ⟨[], t :: before⟩
  | ⟨frame :: frames, before⟩ => ⟨⟨t :: frame.before, frame.delim, frame.later⟩ :: frames, before⟩

/-- A place in an item of a group. -/
def inside (d : Delim) (later : List Fragment) (p : Place) : Place :=
  ⟨⟨[], d, later⟩ :: p.frames, p.before⟩

/-- The last item of a parameter list, first in it or right behind a name. -/
structure LastParam (p : Place) : Prop where
  frames : Frame.EndInParams p.frames
  before : p.before.IsOptionalName

/-- The last item of a group that nothing stands before, first in it or right behind a name. -/
structure LastItem (d : Delim) (p : Place) : Prop where
  frames : p.frames = [⟨[], d, []⟩]
  before : p.before.IsOptionalName

/-- A place in a method that is in a last parameter where the interface is written around the
method. -/
def InMethod (p : Place) : Prop :=
  ∀ later, ((p.inside .brace later).behind (.keyword "interface")).LastParam

theorem LastParam.behind (t : Token) {p : Place} (h : p.LastParam) : (p.behind t).LastParam := by
  obtain ⟨frames, before⟩ := p
  cases frames with
  | nil => exact absurd rfl h.frames.ne_nil
  | cons frame frames => exact ⟨h.frames.behind t, h.before⟩

theorem LastParam.inside (d : Delim) (later : List Fragment) {p : Place} (h : p.LastParam) :
    (p.inside d later).LastParam :=
  ⟨h.frames.cons _, h.before⟩

/-- A group in parentheses behind `func` is a parameter list. -/
theorem LastItem.lastParam_func {p : Place} (h : p.LastItem .paren) :
    (p.behind (.keyword "func")).LastParam := by
  obtain ⟨frames, before⟩ := p
  obtain ⟨rfl, hbefore⟩ := h
  exact ⟨.func [] [], hbefore⟩

theorem LastParam.inMethod {p : Place} (h : p.LastParam) : p.InMethod :=
  fun later => (h.inside .brace later).behind _

/-- A group in parentheses behind the name of a method is a parameter list. -/
theorem LastItem.inMethod {p : Place} (h : p.LastItem .paren) (name : String) :
    (p.behind (.ident name)).InMethod := by
  intro later
  obtain ⟨frames, before⟩ := p
  obtain ⟨rfl, hbefore⟩ := h
  exact ⟨.method [] [] later name, hbefore⟩

end Place

/-! ### Markers -/

mutual

/-- The places of the marker in a token. -/
def Token.ellipses : Token → List Place
  | .punct .ellipsis => [.first]
  | .group d items => Fragment.ellipsesOfItems d items
  | _ => []

/-- The places of the marker in a fragment, at all depths. -/
def Fragment.ellipses : List Token → List Place
  | [] => []
  | t :: ts => t.ellipses ++ (Fragment.ellipses ts).map (Place.behind t)

/-- The places of the marker in the items of a group. -/
def Fragment.ellipsesOfItems (d : Delim) : List (List Token) → List Place
  | [] => []
  | f :: fs => (Fragment.ellipses f).map (Place.inside d fs) ++ Fragment.ellipsesOfItems d fs

end

theorem Fragment.ellipses_cons_of_eq_nil {t : Token} (ht : t.ellipses = []) (f : Fragment) :
    ellipses (t :: f) = (ellipses f).map (Place.behind t) := by
  rw [ellipses, ht, List.nil_append]

theorem Fragment.ellipses_singleton (t : Token) : ellipses [t] = t.ellipses := by
  rw [ellipses, ellipses, List.map_nil, List.append_nil]

/-- Whether what a walk comes to has a signature whose last parameter is written as taking any
number of values. -/
def Visit.isSpread : Visit → Bool
  | .type (.func s) | .method _ (.func s) => s.isSpread
  | _ => false

namespace Visit

/-- How many of the signatures that a walk comes to are variadic, with a slice as their last
parameter. -/
def spreads (vs : List Visit) : ℕ := vs.countP isSpread

@[simp] theorem spreads_nil : spreads [] = 0 := rfl

@[simp] theorem spreads_cons (v : Visit) (vs : List Visit) :
    spreads (v :: vs) = v.isSpread.toNat + spreads vs := by
  rw [spreads, List.countP_cons, Nat.add_comm]
  cases v.isSpread <;> rfl

theorem spreads_cons_of_eq_false {v : Visit} (hv : v.isSpread = false) (vs : List Visit) :
    spreads (v :: vs) = spreads vs := by
  rw [spreads_cons, hv, Bool.toNat_false, Nat.zero_add]

@[simp] theorem spreads_append (vs ws : List Visit) : spreads (vs ++ ws) = spreads vs + spreads ws :=
  List.countP_append

end Visit

open Visit (spreads)

/-! ### Counting places -/

/-- So many places, all of them with a property. -/
structure Places (R : Place → Prop) (n : ℕ) (ps : List Place) : Prop where
  length_eq : ps.length = n
  holds : ∀ p ∈ ps, R p

namespace Places

open Fragment

variable {R R' : Place → Prop} {n m : ℕ} {ps qs : List Place}

theorem nil : Places R 0 [] where
  length_eq := rfl
  holds _ h := by cases h

theorem append (h : Places R n ps) (h' : Places R m qs) : Places R (n + m) (ps ++ qs) where
  length_eq := by rw [List.length_append, h.length_eq, h'.length_eq]
  holds := List.forall_mem_append.mpr ⟨h.holds, h'.holds⟩

theorem map {k : Place → Place} (h : Places R n ps) (hk : ∀ p, R p → R' (k p)) :
    Places R' n (ps.map k) where
  length_eq := by rw [List.length_map, h.length_eq]
  holds := List.forall_mem_map.mpr fun p hp => hk p (h.holds p hp)

theorem imp (h : Places R n ps) (hR : ∀ p, R p → R' p) : Places R' n ps where
  length_eq := h.length_eq
  holds p hp := hR p (h.holds p hp)

/-- The markers of the items of a group. -/
theorem items {α : Type} {walk : α → List Visit} {as : List α} {fs : List Fragment} {d : Delim}
    (h : List.Forall₂ (fun a f => Places R (spreads (walk a)) (ellipses f)) as fs)
    (hR : ∀ later p, R p → R' (p.inside d later)) :
    Places R' (spreads (as.flatMap walk)) (ellipsesOfItems d fs) := by
  induction h with
  | nil => exact .nil
  | cons head tail ih =>
    rw [List.flatMap_cons, Visit.spreads_append, ellipsesOfItems]
    exact (head.map (hR _)).append ih

theorem items_lastParam {α : Type} {walk : α → List Visit} {as : List α} {fs : List Fragment}
    (d : Delim)
    (h : List.Forall₂ (fun a f => Places Place.LastParam (spreads (walk a)) (ellipses f)) as fs) :
    Places Place.LastParam (spreads (as.flatMap walk)) (ellipsesOfItems d fs) :=
  items h fun later _ hp => hp.inside d later

/-! What is written around a type adds no marker, and moves those of the type. -/

theorem cons {t : Token} {f : Fragment} (h : Places Place.LastParam n t.ellipses)
    (h' : Places Place.LastParam m (ellipses f)) :
    Places Place.LastParam (n + m) (ellipses (t :: f)) := by
  rw [ellipses]
  exact h.append (h'.map fun _ hp => hp.behind t)

theorem behind {t : Token} {f : Fragment} (ht : t.ellipses = [])
    (h : Places Place.LastParam n (ellipses f)) :
    Places Place.LastParam n (ellipses (t :: f)) := by
  rw [ellipses_cons_of_eq_nil ht]
  exact h.map fun _ hp => hp.behind t

theorem group {d : Delim} {f : Fragment} (h : Places Place.LastParam n (ellipses f)) :
    Places Place.LastParam n (Token.group d [f]).ellipses := by
  simpa [Token.ellipses, ellipsesOfItems] using h.map fun _ hp => hp.inside d []

theorem singleton {t : Token} (h : Places Place.LastParam n t.ellipses) :
    Places Place.LastParam n (ellipses [t]) :=
  ellipses_singleton t ▸ h

theorem chan {f : Fragment} (dir : ChanDir) (elem : TypeExpr)
    (h : Places Place.LastParam n (ellipses f)) :
    Places Place.LastParam n (ellipses (dir.tokens ++ TypeExpr.chanElem dir elem f)) := by
  have helem : Places Place.LastParam n (ellipses (TypeExpr.chanElem dir elem f)) := by
    rw [TypeExpr.chanElem]
    split
    · exact h.group.singleton
    · exact h
  cases dir with
  | both => exact helem.behind rfl
  | send => exact (helem.behind rfl).behind rfl
  | recv => exact (helem.behind rfl).behind rfl

theorem term {f : Fragment} (tilde : Bool) (h : Places Place.LastParam n (ellipses f)) :
    Places Place.LastParam n (ellipses (Fragment.term tilde f)) := by
  cases tilde with
  | false => exact h
  | true => exact h.behind rfl

theorem bracketed {fs : List Fragment}
    (h : Places Place.LastParam n (ellipsesOfItems .bracket fs)) :
    Places Place.LastParam n (ellipses (Fragment.bracketed fs)) := by
  cases fs with
  | nil => exact h
  | cons f fs =>
    have hgroup : Places Place.LastParam n (Token.group .bracket (f :: fs)).ellipses := h
    exact hgroup.singleton

end Places

/-! ### Markers in the source of a type -/

namespace TypeExpr

open Fragment

/-- The markers in the source of a type in a place: one in first position if the place is that
of a variadic parameter and the type a slice, and one in the last parameter of each variadic
signature in the type. -/
def Marked (spread : Bool) (t : TypeExpr) (f : Fragment) : Prop :=
  Places (fun p => p.LastParam ∨ (spread && t.isSlice) ∧ p = .first)
    ((spread && t.isSlice).toNat + spreads t.walk) (ellipses f)

theorem Marked.plain {spread : Bool} {t : TypeExpr} {f : Fragment} (h : Marked spread t f)
    (hplain : (spread && t.isSlice) = false) :
    Places Place.LastParam (spreads t.walk) (ellipses f) := by
  rw [Marked, hplain] at h
  simpa using h

theorem Marked.of_plain {spread : Bool} {t : TypeExpr} {f : Fragment}
    (hplain : (spread && t.isSlice) = false)
    (h : Places Place.LastParam (spreads t.walk) (ellipses f)) : Marked spread t f := by
  rw [Marked, hplain]
  simpa using h

/-- A type that is neither a slice nor a function has the markers of its parts. -/
theorem Marked.of_parts {spread : Bool} {t : TypeExpr} {f : Fragment} {vs : List Visit}
    (hslice : t.isSlice = false) (hfunc : t.signature? = none) (hwalk : t.walk = .type t :: vs)
    (h : Places Place.LastParam (spreads vs) (ellipses f)) : Marked spread t f := by
  have htype : (Visit.type t).isSpread = false := by
    cases t with
    | func s => cases hfunc
    | _ => rfl
  refine .of_plain (by rw [hslice, Bool.and_false]) ?_
  rwa [hwalk, Visit.spreads_cons_of_eq_false htype]

end TypeExpr

theorem Scope.ellipses_reference (scope : Scope) (path name : String) :
    (scope.reference path name).ellipses = [] := by
  rw [reference]
  split <;> rfl

theorem Rendered.places {scope : Scope} {t : TypeExpr} {f : Fragment}
    (h : Rendered scope TypeExpr.Marked false t f) :
    Places Place.LastParam (spreads t.walk) (Fragment.ellipses f) :=
  h.holds.plain rfl

namespace TypeExpr

open Fragment

variable {scope : Scope}

theorem places_entry {spread : Bool} {t : TypeExpr} {g : Fragment} (name : String)
    (h : Marked spread t g) :
    Places
      (fun p => p.LastParam ∨ (spread && t.isSlice) ∧ p.frames = [] ∧ p.before.IsOptionalName)
      ((spread && t.isSlice).toNat + spreads t.walk) (ellipses (entry name g)) := by
  rw [entry]
  split
  · refine Places.imp h ?_
    rintro p (hp | ⟨hspread, rfl⟩)
    · exact .inl hp
    · exact .inr ⟨hspread, rfl, .inl rfl⟩
  · rw [ellipses_cons_of_eq_nil rfl]
    refine Places.map h ?_
    rintro p (hp | ⟨hspread, rfl⟩)
    · exact .inl (hp.behind _)
    · exact .inr ⟨hspread, rfl, .inr ⟨name, rfl⟩⟩

/-- The markers of entries: the place of a variadic parameter is the last entry. -/
theorem places_entries (d : Delim) {variadic : Bool} {bs : List Binding} {gs : List Fragment}
    (h : Entries (Rendered scope Marked) variadic bs gs) :
    Places (fun p => p.LastParam ∨ variadic ∧ p.LastItem d)
      ((variadic && endsInSlice bs).toNat + spreads (walkBindings bs)) (ellipsesOfItems d gs) := by
  induction h with
  | nil => simpa [endsInSlice, walkBindings, ellipsesOfItems] using Places.nil
  | @cons b bs g gs head tail ih =>
    have hentry : Places (fun p => p.LastParam ∨ variadic ∧ p.LastItem d)
        ((variadic && bs.isEmpty && b.type.isSlice).toNat + spreads b.type.walk)
        ((ellipses (entry b.name g)).map (Place.inside d gs)) := by
      refine (places_entry b.name head.holds).map ?_
      rintro p (hp | ⟨hspread, hframes, hbefore⟩)
      · exact .inl (hp.inside d gs)
      · obtain ⟨⟨hvariadic, hempty⟩, -⟩ : (variadic = true ∧ bs = []) ∧ b.type.isSlice = true := by
          simpa using hspread
        subst hempty
        cases tail
        exact .inr ⟨hvariadic, by rw [Place.inside, hframes], hbefore⟩
    have hcount : (variadic && endsInSlice (b :: bs)).toNat + spreads (walkBindings (b :: bs)) =
        (variadic && bs.isEmpty && b.type.isSlice).toNat + spreads b.type.walk +
          ((variadic && endsInSlice bs).toNat + spreads (walkBindings bs)) := by
      rw [walkBindings, Visit.spreads_append]
      cases bs with
      | nil =>
        simp [endsInSlice]
        omega
      | cons b' bs =>
        simp [endsInSlice]
        omega
    rw [hcount, ellipsesOfItems]
    exact hentry.append ih

/-- The markers of results, which are written in parentheses if there are several. -/
theorem places_results {bs : List Binding} {gs : List Fragment}
    (h : List.Forall₂ (fun b g => Rendered scope Marked false b.type g) bs gs) :
    Places Place.LastParam (spreads (walkBindings bs)) (ellipses (resultClause gs)) := by
  have hitems : Places Place.LastParam (spreads (walkBindings bs)) (ellipsesOfItems .paren gs) := by
    rw [walkBindings_eq_flatMap]
    exact .items_lastParam .paren (h.imp fun _ _ hresult => hresult.places)
  match h with
  | .nil => exact .nil
  | .cons hresult .nil => simpa [walkBindings, resultClause] using hresult.places
  | .cons _ (.cons _ _) => exact hitems.singleton

theorem marked_slice (spread : Bool) {elem : TypeExpr} {g : Fragment}
    (h : Places Place.LastParam (spreads elem.walk) (ellipses g)) :
    Marked spread (.slice elem) (.punct (if spread then .ellipsis else .brackets) :: g) := by
  cases spread with
  | false => exact .of_plain rfl (h.behind rfl)
  | true =>
    have hfirst : Places (fun p => p.LastParam ∨ (true && (slice elem).isSlice) ∧ p = .first) 1
        [.first] := ⟨rfl, by simp [isSlice]⟩
    rw [Marked, ellipses, walk, Visit.spreads_cons_of_eq_false rfl]
    exact hfirst.append (h.map fun _ hp => .inl (hp.behind _))

theorem marked_rules (scope : Scope) :
    RenderRules scope Marked fun s f =>
      Places (fun p => p.LastParam ∨ p.LastItem .paren)
        (s.isSpread.toNat + spreads (walkSignature s)) (ellipses f) where
  basic _ _ := .of_parts rfl rfl rfl .nil
  pointer _ _ _ h := .of_parts rfl rfl rfl (h.places.behind rfl)
  slice spread _ _ h := marked_slice spread h.places
  array _ _ _ _ h := .of_parts rfl rfl rfl (h.places.behind rfl)
  map _ key value g g' hkey hvalue := by
    have hparts : Places Place.LastParam (spreads (key.walk ++ value.walk))
        (ellipses (.group .index [g] :: g')) := by
      rw [Visit.spreads_append]
      exact hkey.places.group.cons hvalue.places
    exact .of_parts rfl rfl rfl (hparts.behind rfl)
  chan _ dir elem _ h := .of_parts rfl rfl rfl (h.places.chan dir elem)
  struct _ fields gs h := by
    have hfields : Places Place.LastParam (spreads (walkBindings fields))
        (ellipsesOfItems .brace gs) := by
      simpa using places_entries .brace h
    exact .of_parts rfl rfl rfl (hfields.singleton.behind rfl)
  signature params results variadic gs gs' h h' := by
    rw [ellipses, Token.ellipses, walkSignature, Visit.spreads_append, ← Nat.add_assoc]
    refine Places.append ?_ ?_
    · exact (places_entries .paren h).imp fun p hp => hp.imp_right And.right
    · exact (places_results h').map fun p hp => .inl (hp.behind _)
  func _ s g h := by
    refine .of_plain (Bool.and_false _) ?_
    rw [ellipses_cons_of_eq_nil rfl, walk, Visit.spreads_cons]
    refine h.map ?_
    rintro p (hp | hp)
    · exact hp.behind _
    · exact hp.lastParam_func
  interface _ body gs hnone h := by
    have hmethods : Places (fun p => (p.behind (.keyword "interface")).LastParam)
        (spreads (walkMethods body.methods)) (ellipsesOfItems .brace gs) := by
      rw [walkMethods_eq_flatMap]
      refine .items (h.imp ?_) fun later p (hp : p.InMethod) => hp later
      rintro b f ⟨s, g, hs, hg, rfl⟩
      rw [hs, walkMethod, Visit.spreads_cons, ellipses_cons_of_eq_nil rfl]
      refine hg.map ?_
      rintro p (hp | hp)
      · exact (hp.behind _).inMethod
      · exact hp.inMethod b.name
    refine .of_parts rfl rfl (walk_interface_of_none hnone) ?_
    rw [ellipses_cons_of_eq_nil rfl, ellipses_singleton]
    exact hmethods.map fun _ hp => hp
  typeSet _ body terms g hterms h := .of_parts rfl rfl (walk_interface_of_some hterms) (h.plain rfl)
  named _ ref gs h := by
    obtain ⟨name, path, args⟩ := ref
    have hargs : Places Place.LastParam (spreads (walkAll args)) (ellipsesOfItems .bracket gs) := by
      rw [walkAll_eq_flatMap]
      exact .items_lastParam .bracket (h.imp fun _ _ harg => harg.places)
    exact .of_parts rfl rfl rfl (hargs.bracketed.behind (scope.ellipses_reference path name))
  typeParam _ _ := .of_parts rfl rfl rfl .nil
  union _ terms gs h := by
    have hterms : Places Place.LastParam (spreads (walkTerms terms)) (ellipsesOfItems .pipe gs) := by
      rw [walkTerms_eq_flatMap]
      refine .items_lastParam .pipe (h.imp ?_)
      rintro t f ⟨g, hg, rfl⟩
      exact hg.places.term t.tilde
    exact .of_parts rfl rfl rfl hterms.singleton

/-- **The markers in the source of a type.** -/
theorem marked_of_render {spread : Bool} {t : TypeExpr} {f : Fragment}
    (h : t.render scope spread = .ok f) : Marked spread t f :=
  (marked_rules scope).render t h

/-- Only the first token of a slice depends on its place. -/
theorem exists_render_of_isSlice {spread : Bool} {t : TypeExpr} {f : Fragment}
    (h : t.render scope spread = .ok f) (hslice : t.isSlice = true) :
    ∃ g, t.render scope true = .ok (.punct .ellipsis :: g) ∧
      t.render scope false = .ok (.punct .brackets :: g) := by
  cases t with
  | slice elem =>
    simp only [render, bind_eq_ok_iff, pure_eq_ok_iff] at h
    obtain ⟨g, hg, -⟩ := h
    exact ⟨g, by rw [render, hg]; rfl, by rw [render, hg]; rfl⟩
  | _ => cases hslice

/-- **The place of a variadic parameter** changes the first token of a slice and nothing else.
The marker is written there and once for each variadic signature in the type, in the last item
of its parameter list. -/
theorem render_spread {spread : Bool} {t : TypeExpr} {f : Fragment}
    (h : t.render scope spread = .ok f) :
    (t.isSlice = false → t.render scope true = t.render scope false) ∧
      (t.isSlice = true → ∃ g, t.render scope true = .ok (.punct .ellipsis :: g) ∧
        t.render scope false = .ok (.punct .brackets :: g)) ∧
      (ellipses f).length = (if spread && t.isSlice then 1 else 0) + spreads t.walk ∧
      ∀ p ∈ ellipses f, p = .first ∨ p.LastParam := by
  have hmarked := marked_of_render h
  refine ⟨fun hslice => render_of_isSlice_eq_false hslice true, exists_render_of_isSlice h, ?_, ?_⟩
  · rw [hmarked.length_eq]
    cases spread && t.isSlice <;> rfl
  · intro p hp
    exact (hmarked.holds p hp).elim .inr fun hfirst => .inl hfirst.2

/-- A slice of functions in the place of a variadic parameter: type arguments, results and the
methods of an interface stand under it. -/
theorem render_spread_loggers :
    let scope : Scope := ⟨"example.com/app", ""⟩
    let log : Signature := ⟨[⟨"format", string⟩, ⟨"args", .slice error⟩], [], true⟩
    let run : Signature :=
      ⟨[⟨"", .slice (.named ⟨"Option", "example.com/opt", [.slice int]⟩)⟩], [⟨"", .slice int⟩], true⟩
    let logger : TypeExpr := .interface ⟨[⟨"Log", .func log⟩, ⟨"Run", .func run⟩], []⟩
    let t : TypeExpr := .slice (.func ⟨[⟨"to", logger⟩, ⟨"tags", .slice (.slice string)⟩], [], true⟩)
    ∃ f, t.render scope true = .ok f ∧
      f.text = "...func(to interface\x7b Log(format string, args ...error); " ++
        "Run(...opt.Option[[]int]) []int \x7d, tags ...[]string)" ∧
      (ellipses f).length = 4 ∧ ∀ p ∈ ellipses f, p = .first ∨ p.LastParam := by
  intro scope log run logger t
  have ht : ∃ f, t.render scope true = .ok f := ⟨_, rfl⟩
  obtain ⟨f, hf⟩ := ht
  obtain ⟨-, -, hcount, hplaces⟩ := render_spread hf
  refine ⟨f, hf, ?_, hcount.trans rfl, hplaces⟩
  cases hf
  decide +kernel

/-- The place of the marker in `func(format string, args ...error)`. -/
example :
    ellipses [.keyword "func", .group .paren
      [[.ident "format", .ident "string"], [.ident "args", .punct .ellipsis, .ident "error"]]] =
        [⟨[⟨[.keyword "func"], .paren, []⟩], [.ident "args"]⟩] := rfl

end TypeExpr

end GoDecl
