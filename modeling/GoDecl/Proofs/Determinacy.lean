import GoDecl.Declaration.Source
import GoDecl.Fragment.Text
import GoDecl.Proofs.Erasure
import GoDecl.Token.Equality

/-!
# What a written declaration determines

The names of a group of type parameters, the commas between them, the constraint and the
comma that may stand behind it are one flat list of tokens, and neither the clause of the type
parameters nor the type set leaves a mark where it is missing.  Still, two declarations have
the same tokens only if they agree part by part.  The names end where a type begins, for a
type that begins with a name goes on with brackets or not at all; the type set is the one item
of the body that does not begin with a name.

## Main definitions

* `Fragment.splitNames`: the names before a type, read off the tokens
* `Shape.Signature.Alike`, `TypeParamGroup.Alike`, `InterfaceDecl.Alike`: parts that differ at
  most in what is not written

## Main results

* `splitNames_nameList`: the names before a type are found again
* `entry_inj`, `term_inj`, `resultClause_inj`: an entry, a term and a result clause determine
  their parts
* `declaration_eq_iff_alike`: declarations with the same tokens agree part by part
-/

namespace GoDecl

/-! ### Declarations that agree part by part -/

/-- Two types are written alike in a scope, or fail alike. -/
def TypeExpr.Alike (scope : Scope) (t t' : TypeExpr) : Prop :=
  t.render scope false = t'.render scope false

/-- Whether the last parameter is written as taking any number of values. -/
def Shape.Signature.isSpread (s : Shape.Signature TypeExpr) : Bool :=
  s.variadic && TypeExpr.endsInSlice s.params

/-- Signatures with the same names and types of parameters, the same types of results, and the
same marker of a variadic parameter. -/
structure Shape.Signature.Alike (scope : Scope) (s s' : Shape.Signature TypeExpr) : Prop where
  params : List.Forall₂ (fun b b' => b.name = b'.name ∧ b.type.Alike scope b'.type)
    s.params s'.params
  results : List.Forall₂ (fun b b' => b.type.Alike scope b'.type) s.results s'.results
  isSpread_eq : s.isSpread = s'.isSpread

/-- Groups with the same names and the same constraint. -/
structure TypeParamGroup.Alike (scope : Scope) (g g' : TypeParamGroup) : Prop where
  names_eq : g.names = g'.names
  constraint : g.constraint.Alike scope g'.constraint

/-- Terms with the same type, both with a tilde or both without one. -/
structure Shape.Term.Alike (scope : Scope) (t t' : Shape.Term TypeExpr) : Prop where
  tilde_eq : t.tilde = t'.tilde
  type : t.type.Alike scope t'.type

/-- Methods with the same name and signatures that agree. -/
structure Method.Alike (scope : Scope) (m m' : Method) : Prop where
  name_eq : m.name = m'.name
  signature : m.signature.Alike scope m'.signature

/-- Declarations with the same name whose type parameters, type sets and methods agree one by
one. -/
structure InterfaceDecl.Alike (scope : Scope) (d d' : InterfaceDecl) : Prop where
  name_eq : d.name = d'.name
  typeParams : List.Forall₂ (TypeParamGroup.Alike scope) d.typeParams d'.typeParams
  typeSet : List.Forall₂ (Shape.Term.Alike scope) d.typeSet d'.typeSet
  methods : List.Forall₂ (Method.Alike scope) d.methods d'.methods

/-! ### Lists side by side -/

section Lists

variable {α β ε : Type} {R : α → α → Prop} {k k' : α → Except ε β} {as as' : List α}

/-- Elements with the same results are related one by one. -/
theorem forall₂_of_mapM_eq {bs : List β} (h : as.mapM k = .ok bs) (h' : as'.mapM k' = .ok bs)
    (hR : ∀ a a' b, k a = .ok b → k' a' = .ok b → R a a') : List.Forall₂ R as as' := by
  have hk := forall₂_of_mapM h
  have hk' := forall₂_of_mapM h'
  clear h h'
  induction hk generalizing as' with
  | nil =>
    rcases hk' with - | -
    exact .nil
  | cons head tail ih =>
    rcases hk' with - | ⟨head', tail'⟩
    exact .cons (hR _ _ _ head head') (ih tail')

theorem mapM_congr_of_forall₂ (h : List.Forall₂ R as as')
    (hk : ∀ a a', R a a' → k a = k' a') : as.mapM k = as'.mapM k' := by
  induction h with
  | nil => rfl
  | cons head tail ih => rw [List.mapM_cons, List.mapM_cons, hk _ _ head, ih]

end Lists

namespace Fragment

variable {scope : Scope}

/-! ### The names before a type -/

/-- The names at the beginning of some tokens, and the tokens behind them.  A comma stands
behind every name but the last, which stands before a type. -/
def splitNames : Fragment → List String × Fragment
  | .ident name :: .punct .comma :: rest => (name :: (splitNames rest).1, (splitNames rest).2)
  | .ident name :: u :: us =>
    if u.opensType then ([name], u :: us) else ([], .ident name :: u :: us)
  | f => ([], f)

/-- Tokens that begin like a type and with no name before it. -/
structure Unnamed (f : Fragment) : Prop where
  opens : f.Opens
  name_closed : ∀ name u us, f = .ident name :: u :: us → u.opensType = false ∧ u.isComma = false

/-- The source of a type begins with no name of a list: behind a name at its beginning stands
neither a type nor a comma. -/
theorem unnamed_of_render {spread : Bool} {t : TypeExpr} {f : Fragment}
    (h : t.render scope spread = .ok f) : f.Unnamed := by
  refine ⟨opens_of_render h, ?_⟩
  rintro name u us rfl
  refine ⟨(typeHead_of_render h).name_closed name u us rfl, ?_⟩
  have hread := readType_render h
  cases hcomma : u.isComma with
  | false => rfl
  | true =>
    obtain rfl : u = .punct .comma := by
      unfold Token.isComma at hcomma
      split at hcomma
      · rfl
      · cases hcomma
    rcases us with - | ⟨v, vs⟩
    · simp [readType, readArgs] at hread
    · simp [readType] at hread

theorem splitNames_of_unnamed {f : Fragment} (h : f.Unnamed) : splitNames f = ([], f) := by
  unfold splitNames
  split
  · next name rest => cases (h.name_closed name _ rest rfl).2
  · next name u us _ => rw [(h.name_closed name u us rfl).1, if_neg Bool.false_ne_true]
  · rfl

/-- **The names before a type are found again.** -/
theorem splitNames_nameList {f : Fragment} (h : f.Unnamed) (names : List String) :
    splitNames (nameList names ++ f) = (names, f) := by
  induction names with
  | nil => exact splitNames_of_unnamed h
  | cons name names ih =>
    cases names with
    | nil =>
      obtain ⟨u, us, rfl, hu⟩ := h.opens
      show splitNames (.ident name :: u :: us) = _
      rw [splitNames, if_pos hu]
      rintro rfl
      cases hu
    | cons name' names =>
      rw [nameList_cons_cons, List.cons_append, List.cons_append, splitNames, ih]

/-- In `K, V C` a comma tells the first name, and the type behind it the second. -/
example :
    splitNames [.ident "K", .punct .comma, .ident "V", .ident "C"] =
      (["K", "V"], [.ident "C"]) := by
  decide

/-! ### Entries, terms and results -/

section Parts

variable {g g' : Fragment}

/-- A type is not a name and a type. -/
theorem Unnamed.ne_ident_cons (hg : g.Unnamed) (hg' : g'.Unnamed) (name : String) :
    g ≠ .ident name :: g' := by
  rintro rfl
  obtain ⟨u, us, rfl, hu⟩ := hg'.opens
  exact absurd hu (by simp [(hg.name_closed name u us rfl).1])

/-- An entry determines its name and its type. -/
theorem entry_inj (hg : g.Unnamed) (hg' : g'.Unnamed) {name name' : String}
    (h : entry name g = entry name' g') : name = name' ∧ g = g' := by
  unfold entry at h
  by_cases hname : name = ""
  · by_cases hname' : name' = ""
    · rw [if_pos hname, if_pos hname'] at h
      exact ⟨hname.trans hname'.symm, h⟩
    · rw [if_pos hname, if_neg hname'] at h
      exact absurd h (hg.ne_ident_cons hg' name')
  · by_cases hname' : name' = ""
    · rw [if_neg hname, if_pos hname'] at h
      exact absurd h.symm (hg'.ne_ident_cons hg name)
    · rw [if_neg hname, if_neg hname'] at h
      obtain ⟨hident, htype⟩ := List.cons.inj h
      exact ⟨Token.ident.inj hident, htype⟩

/-- A term determines its tilde and its type. -/
theorem term_inj (hg : g.Opens) (hg' : g'.Opens) {tilde tilde' : Bool}
    (h : term tilde g = term tilde' g') : tilde = tilde' ∧ g = g' := by
  obtain ⟨u, us, rfl, hu⟩ := hg
  obtain ⟨v, vs, rfl, hv⟩ := hg'
  unfold term at h
  cases tilde with
  | true =>
    cases tilde' with
    | true => exact ⟨rfl, (List.cons.inj h).2⟩
    | false =>
      obtain rfl : .punct .tilde = v := (List.cons.inj h).1
      cases hv
  | false =>
    cases tilde' with
    | true =>
      obtain rfl : u = .punct .tilde := (List.cons.inj h).1
      cases hu
    | false => exact ⟨rfl, h⟩

theorem Opens.ne_nil (hg : g.Opens) : g ≠ [] := by
  obtain ⟨u, us, rfl, -⟩ := hg
  exact List.cons_ne_nil u us

theorem Opens.ne_parens (hg : g.Opens) (items : List Fragment) : g ≠ [.group .paren items] := by
  rintro rfl
  obtain ⟨u, us, hcons, hu⟩ := hg
  obtain rfl : .group .paren items = u := (List.cons.inj hcons).1
  cases hu

/-- A result clause determines the results, however many they are: one result is neither
nothing nor a group in parentheses. -/
theorem resultClause_inj {gs gs' : List Fragment} (hgs : ∀ g ∈ gs, g.Opens)
    (hgs' : ∀ g ∈ gs', g.Opens) (h : resultClause gs = resultClause gs') : gs = gs' := by
  match gs, gs', h with
  | [], [], _ => rfl
  | [], [g], h => exact absurd h.symm (hgs' g List.mem_cons_self).ne_nil
  | [g], [], h => exact absurd h (hgs g List.mem_cons_self).ne_nil
  | [_], [_], h => exact congrArg ([·]) h
  | [g], _ :: _ :: _, h => exact absurd h ((hgs g List.mem_cons_self).ne_parens _)
  | _ :: _ :: _, [g], h => exact absurd h.symm ((hgs' g List.mem_cons_self).ne_parens _)
  | _ :: _ :: _, _ :: _ :: _, h => exact (Token.group.inj (List.cons.inj h).1).2

theorem bracketed_inj {gs gs' : List Fragment} (h : bracketed gs = bracketed gs') : gs = gs' := by
  match gs, gs', h with
  | [], [], _ => rfl
  | _ :: _, _ :: _, h => exact (Token.group.inj (List.cons.inj h).1).2

end Parts

end Fragment

/-! ### Signatures -/

namespace TypeExpr

variable {scope : Scope}

/-- The source of a type in the place of a variadic parameter: only its first token can
differ. -/
theorem render_eq_map (spread : Bool) (t : TypeExpr) :
    t.render scope spread = (t.render scope false).map fun g =>
      if spread && t.isSlice then .punct .ellipsis :: g.tail else g := by
  cases hslice : t.isSlice with
  | false =>
    rw [render_of_isSlice_eq_false hslice]
    cases t.render scope false <;> simp [Except.map]
  | true =>
    cases t with
    | slice elem =>
      rw [render, render]
      cases elem.render scope false <;> cases spread <;> rfl
    | _ => cases hslice

theorem exists_render_plain {spread : Bool} {t : TypeExpr} {g : Fragment}
    (h : t.render scope spread = .ok g) : ∃ g', t.render scope false = .ok g' := by
  rw [render_eq_map] at h
  cases hplain : t.render scope false with
  | error e =>
    rw [hplain] at h
    cases h
  | ok g' => exact ⟨g', rfl⟩

/-- Types with the same source in their places are written alike. -/
theorem alike_of_render_eq {spread spread' : Bool} {t t' : TypeExpr} {g : Fragment}
    (h : t.render scope spread = .ok g) (h' : t'.render scope spread' = .ok g) :
    t.Alike scope t' := by
  have hread := Fragment.readType_render h
  rw [Fragment.readType_render h'] at hread
  have herase : t'.erase id scope = t.erase id scope := Option.some.inj hread
  obtain ⟨f, hf⟩ := exists_render_plain h
  obtain ⟨f', hf'⟩ := exists_render_plain h'
  unfold Alike
  rw [hf, hf', ← render_erase hf, ← render_erase hf', herase]

/-! ### Signatures -/

theorem alike_of_renderEntries {variadic variadic' : Bool} {bs bs' : List Binding}
    {gs : List Fragment} (h : renderEntries scope variadic bs = .ok gs)
    (h' : renderEntries scope variadic' bs' = .ok gs) :
    List.Forall₂ (fun b b' => b.name = b'.name ∧ b.type.Alike scope b'.type) bs bs' := by
  induction bs generalizing bs' gs with
  | nil =>
    rw [renderEntries, pure_eq_ok_iff] at h
    subst h
    rcases bs' with - | ⟨b', bs'⟩
    · exact .nil
    · simp only [renderEntries, bind_eq_ok_iff, pure_eq_ok_iff] at h'
      obtain ⟨_, _, _, _, hentries⟩ := h'
      cases hentries
  | cons b bs ih =>
    simp only [renderEntries, bind_eq_ok_iff, pure_eq_ok_iff] at h
    obtain ⟨g, hg, rest, hrest, rfl⟩ := h
    rcases bs' with - | ⟨b', bs'⟩
    · simp [renderEntries, pure_eq_ok_iff] at h'
    simp only [renderEntries, bind_eq_ok_iff, pure_eq_ok_iff] at h'
    obtain ⟨g', hg', rest', hrest', hentries⟩ := h'
    obtain ⟨hentry, rfl⟩ := List.cons.inj hentries
    obtain ⟨hname, rfl⟩ := Fragment.entry_inj (Fragment.unnamed_of_render hg')
      (Fragment.unnamed_of_render hg) hentry
    exact .cons ⟨hname.symm, alike_of_render_eq hg hg'⟩ (ih hrest hrest')

theorem renderEntries_congr {variadic variadic' : Bool} {bs bs' : List Binding}
    (h : List.Forall₂ (fun b b' => b.name = b'.name ∧ b.type.Alike scope b'.type) bs bs')
    (hspread : (variadic && endsInSlice bs) = (variadic' && endsInSlice bs')) :
    renderEntries scope variadic bs = renderEntries scope variadic' bs' := by
  induction h with
  | nil => rfl
  | @cons b b' bs bs' head tail ih =>
    obtain ⟨hname, halike⟩ := head
    unfold Alike at halike
    rw [renderEntries, renderEntries, hname]
    rcases tail with - | ⟨head', tail'⟩
    · have hlast : b.type.render scope variadic = b'.type.render scope variadic' := by
        rw [render_eq_map variadic, render_eq_map variadic', halike]
        simp only [endsInSlice, List.getLast?_singleton, Option.any_some] at hspread
        rw [hspread]
      simp only [List.isEmpty_nil, Bool.and_true, hlast]
      rfl
    · simp only [endsInSlice, List.getLast?_cons_cons] at hspread ih
      simp only [List.isEmpty_cons, Bool.and_false, halike, ih hspread]

end TypeExpr

namespace Shape.Signature

open TypeExpr

variable {scope : Scope} {s s' : Shape.Signature TypeExpr}

theorem alike_of_renderSignature {f : Fragment} (h : renderSignature scope s = .ok f)
    (h' : renderSignature scope s' = .ok f) : s.Alike scope s' := by
  obtain ⟨params, results, variadic⟩ := s
  obtain ⟨params', results', variadic'⟩ := s'
  simp only [renderSignature, bind_eq_ok_iff, pure_eq_ok_iff] at h h'
  obtain ⟨ps, hps, rs, hrs, rfl⟩ := h
  obtain ⟨ps', hps', rs', hrs', hsig⟩ := h'
  obtain ⟨hparams, hresults⟩ := List.cons.inj hsig
  obtain rfl : ps' = ps := (Token.group.inj hparams).2
  have hopens {results : List (Binding TypeExpr)} {rs : List Fragment}
      (h : renderResults scope results = .ok rs) : ∀ r ∈ rs, r.Opens :=
    forall_mem_of_forall₂ ((opens_rules scope).renderResults results h) fun _ _ hr => hr.opens
  obtain rfl := Fragment.resultClause_inj (hopens hrs') (hopens hrs) hresults
  constructor
  · exact alike_of_renderEntries hps hps'
  · rw [renderResults_eq_mapM] at hrs hrs'
    exact forall₂_of_mapM_eq hrs hrs' fun _ _ _ hb hb' => alike_of_render_eq hb hb'
  · have hspread := Fragment.endsSpread_of_entries ((opens_rules scope).renderEntries params hps)
    have hspread' := Fragment.endsSpread_of_entries ((opens_rules scope).renderEntries params' hps')
    exact hspread.symm.trans hspread'

theorem Alike.renderSignature_eq (h : s.Alike scope s') :
    renderSignature scope s = renderSignature scope s' := by
  obtain ⟨params, results, variadic⟩ := s
  obtain ⟨params', results', variadic'⟩ := s'
  obtain ⟨hparams, hresults, hspread⟩ := h
  have hentries := renderEntries_congr hparams hspread
  have hres : renderResults scope results = renderResults scope results' := by
    rw [renderResults_eq_mapM, renderResults_eq_mapM]
    exact mapM_congr_of_forall₂ hresults fun _ _ hb => hb
  rw [renderSignature, renderSignature, hentries, hres]

end Shape.Signature

/-! ### Groups of type parameters -/

namespace TypeParams

open Fragment

variable {scope : Scope} {ps ps' : TypeParams}

/-- A group of type parameters is its names, its constraint, and perhaps a comma; the
constraint and the comma do not begin with a name. -/
theorem exists_of_renderGroup {lone : Bool} {g : TypeParamGroup} {item : Fragment}
    (h : g.render scope lone = .ok item) :
    ∃ c comma, g.constraint.render scope false = .ok c ∧
      comma = (if lone && startsWithStar c then [.punct .comma] else []) ∧
      item = nameList g.names ++ (c ++ comma) ∧ (c ++ comma).Unnamed := by
  simp only [TypeParamGroup.render, bind_eq_ok_iff, pure_eq_ok_iff] at h
  obtain ⟨c, hc, rfl⟩ := h
  refine ⟨c, _, hc, rfl, List.append_assoc _ _ _, ?_⟩
  have hunnamed := unnamed_of_render hc
  split
  · next hcomma =>
    have hstar : startsWithStar c = true := (Bool.and_eq_true_iff.mp hcomma).2
    obtain ⟨u, us, rfl, hu⟩ := hunnamed.opens
    refine ⟨⟨u, us ++ [.punct .comma], rfl, hu⟩, ?_⟩
    rintro name v vs hcons
    obtain rfl : u = .ident name := (List.cons.inj hcons).1
    cases hstar
  · rwa [List.append_nil]

theorem names_eq_of_renderGroup {lone lone' : Bool} {g g' : TypeParamGroup} {item : Fragment}
    (h : g.render scope lone = .ok item) (h' : g'.render scope lone' = .ok item) :
    g.names = g'.names := by
  obtain ⟨c, comma, -, -, rfl, hc⟩ := exists_of_renderGroup h
  obtain ⟨c', comma', -, -, hitem, hc'⟩ := exists_of_renderGroup h'
  have hsplit := congrArg splitNames hitem
  rw [splitNames_nameList hc, splitNames_nameList hc'] at hsplit
  exact (Prod.mk.inj hsplit).1

theorem startsWithStar_append {c : Fragment} (hc : c.Opens) (f : Fragment) :
    startsWithStar (c ++ f) = startsWithStar c := by
  obtain ⟨u, us, rfl, -⟩ := hc
  rfl

/-- With the same number of names in the clause, a group determines its names and its
constraint. -/
theorem alike_of_renderGroup {lone : Bool} {g g' : TypeParamGroup} {item : Fragment}
    (h : g.render scope lone = .ok item) (h' : g'.render scope lone = .ok item) :
    g.Alike scope g' := by
  have hnames := names_eq_of_renderGroup h h'
  obtain ⟨c, comma, hc, hcomma, rfl, -⟩ := exists_of_renderGroup h
  obtain ⟨c', comma', hc', hcomma', hitem, -⟩ := exists_of_renderGroup h'
  rw [hnames] at hitem
  have hconstraint : c ++ comma = c' ++ comma' := List.append_cancel_left hitem
  have hstar : startsWithStar c = startsWithStar c' := by
    rw [← startsWithStar_append (opens_of_render hc) comma, hconstraint,
      startsWithStar_append (opens_of_render hc')]
  obtain rfl : comma = comma' := by rw [hcomma, hcomma', hstar]
  obtain rfl : c = c' := List.append_cancel_right hconstraint
  exact ⟨hnames, TypeExpr.alike_of_render_eq hc hc'⟩

theorem isLone_congr (h : List.Forall₂ (fun g g' => g.names = g'.names) ps ps') :
    isLone ps = isLone ps' := by
  rcases h with - | ⟨head, - | ⟨-, -⟩⟩
  · rfl
  · show decide (_ = 1) = decide (_ = 1)
    rw [head]
  · rfl

/-- A clause determines its groups.  The names are read without the comma that may stand behind the
constraint, and they tell whether it does. -/
theorem alike_of_clause {f : Fragment} (h : ps.clause scope = .ok f)
    (h' : ps'.clause scope = .ok f) : List.Forall₂ (TypeParamGroup.Alike scope) ps ps' := by
  simp only [clause, bind_eq_ok_iff, pure_eq_ok_iff] at h h'
  obtain ⟨items, hitems, rfl⟩ := h
  obtain ⟨items', hitems', hclause⟩ := h'
  obtain rfl : items' = items := bracketed_inj hclause
  have hnames : List.Forall₂ (fun g g' => g.names = g'.names) ps ps' :=
    forall₂_of_mapM_eq hitems hitems' fun _ _ _ => names_eq_of_renderGroup
  rw [← isLone_congr hnames] at hitems'
  exact forall₂_of_mapM_eq hitems hitems' fun _ _ _ => alike_of_renderGroup

theorem clause_congr (h : List.Forall₂ (TypeParamGroup.Alike scope) ps ps') :
    ps.clause scope = ps'.clause scope := by
  have hitems : ps.mapM (TypeParamGroup.render scope (isLone ps)) =
      ps'.mapM (TypeParamGroup.render scope (isLone ps')) := by
    rw [isLone_congr (h.imp fun _ _ hg => hg.names_eq)]
    apply mapM_congr_of_forall₂ h
    rintro g g' ⟨hnames, hconstraint⟩
    unfold TypeExpr.Alike at hconstraint
    rw [TypeParamGroup.render, TypeParamGroup.render, hnames, hconstraint]
  rw [clause, clause, hitems]

end TypeParams

/-! ### Declarations -/

namespace InterfaceDecl

open TypeExpr

variable {scope : Scope} {d d' : InterfaceDecl}

theorem alike_of_renderTerms {ts ts' : List Term} {gs : List Fragment}
    (h : renderTerms scope ts = .ok gs) (h' : renderTerms scope ts' = .ok gs) :
    List.Forall₂ (Shape.Term.Alike scope) ts ts' := by
  rw [renderTerms_eq_mapM] at h h'
  apply forall₂_of_mapM_eq h h'
  intro t t' f ht ht'
  simp only [bind_eq_ok_iff, pure_eq_ok_iff] at ht ht'
  obtain ⟨g, hg, rfl⟩ := ht
  obtain ⟨g', hg', hterm⟩ := ht'
  obtain ⟨htilde, rfl⟩ := Fragment.term_inj (opens_of_render hg') (opens_of_render hg) hterm
  exact ⟨htilde.symm, alike_of_render_eq hg hg'⟩

theorem alike_of_entry {m m' : Method} {f : Fragment} (h : m.entry scope = .ok f)
    (h' : m'.entry scope = .ok f) : m.Alike scope m' := by
  simp only [Method.entry, bind_eq_ok_iff, pure_eq_ok_iff] at h h'
  obtain ⟨g, hg, rfl⟩ := h
  obtain ⟨g', hg', hentry⟩ := h'
  obtain ⟨hname, rfl⟩ := List.cons.inj hentry
  exact ⟨(Token.ident.inj hname).symm, Shape.Signature.alike_of_renderSignature hg hg'⟩

theorem ident_head_of_entries {methods : List Method} {ms : List Fragment}
    (h : methods.mapM (Method.entry scope) = .ok ms) :
    ∀ f ∈ ms, ∃ name g, f = .ident name :: g := by
  refine forall_mem_of_forall₂ (forall₂_of_mapM h) ?_
  intro m f hm
  simp only [Method.entry, bind_eq_ok_iff, pure_eq_ok_iff] at hm
  obtain ⟨g, -, rfl⟩ := hm
  exact ⟨m.name, g, rfl⟩

theorem typeSetEntry_eq_ok {ts : List Term} {us : List Fragment}
    (h : typeSetEntry scope ts = .ok us) :
    ts = [] ∧ us = [] ∨ ∃ gs, renderTerms scope ts = .ok gs ∧ us = [[.group .pipe gs]] := by
  unfold typeSetEntry at h
  split at h
  · next hempty => exact .inl ⟨List.isEmpty_iff.mp hempty, (pure_eq_ok_iff.mp h).symm⟩
  · simp only [render, bind_eq_ok_iff, pure_eq_ok_iff] at h
    obtain ⟨_, ⟨gs, hgs, rfl⟩, rfl⟩ := h
    exact .inr ⟨gs, hgs, rfl⟩

/-- A union is not the first of some methods. -/
theorem union_cons_ne_entries {gs us ms : List Fragment}
    (hms : ∀ f ∈ ms, ∃ name g, f = .ident name :: g) : [.group .pipe gs] :: us ≠ ms := by
  rintro rfl
  obtain ⟨name, g, hcons⟩ := hms _ List.mem_cons_self
  cases hcons

/-- The type set is the one element of the body that does not begin with a name. -/
theorem typeSetEntry_append_inj {ts ts' : List Term} {us us' ms ms' : List Fragment}
    (h : typeSetEntry scope ts = .ok us) (h' : typeSetEntry scope ts' = .ok us')
    (hms : ∀ f ∈ ms, ∃ name g, f = .ident name :: g)
    (hms' : ∀ f ∈ ms', ∃ name g, f = .ident name :: g) (heq : us ++ ms = us' ++ ms') :
    List.Forall₂ (Shape.Term.Alike scope) ts ts' ∧ ms = ms' := by
  rcases typeSetEntry_eq_ok h with ⟨rfl, rfl⟩ | ⟨gs, hgs, rfl⟩
  · rcases typeSetEntry_eq_ok h' with ⟨rfl, rfl⟩ | ⟨gs', -, rfl⟩
    · exact ⟨.nil, heq⟩
    · exact absurd heq.symm (union_cons_ne_entries hms)
  · rcases typeSetEntry_eq_ok h' with ⟨rfl, rfl⟩ | ⟨gs', hgs', rfl⟩
    · exact absurd heq (union_cons_ne_entries hms')
    · obtain ⟨hunion, rfl⟩ := List.cons.inj heq
      obtain rfl : gs = gs' := (Token.group.inj (List.cons.inj hunion).1).2
      exact ⟨alike_of_renderTerms hgs hgs', rfl⟩

/-- A declaration determines its parts: the word `interface` and the body are its last two
tokens. -/
theorem alike_of_declaration {f : Fragment} (h : d.declaration scope = .ok f)
    (h' : d'.declaration scope = .ok f) : d.Alike scope d' := by
  simp only [declaration, bind_eq_ok_iff, pure_eq_ok_iff] at h h'
  obtain ⟨us, hus, ms, hms, clause, hclause, rfl⟩ := h
  obtain ⟨us', hus', ms', hms', clause', hclause', hdecl⟩ := h'
  obtain ⟨-, hdecl⟩ := List.cons.inj hdecl
  obtain ⟨hname, hdecl⟩ := List.cons.inj hdecl
  obtain ⟨rfl, hbody⟩ := List.append_inj' hdecl rfl
  obtain ⟨-, hbody⟩ := List.cons.inj hbody
  have hitems : us' ++ ms' = us ++ ms := (Token.group.inj (List.cons.inj hbody).1).2
  obtain ⟨htypeSet, rfl⟩ :=
    typeSetEntry_append_inj hus hus' (ident_head_of_entries hms) (ident_head_of_entries hms')
      hitems.symm
  constructor
  · exact (Token.ident.inj hname).symm
  · exact TypeParams.alike_of_clause hclause hclause'
  · exact htypeSet
  · exact forall₂_of_mapM_eq hms hms' fun _ _ _ => alike_of_entry

theorem Alike.declaration_eq (h : d.Alike scope d') :
    d.declaration scope = d'.declaration scope := by
  obtain ⟨hname, htypeParams, htypeSet, hmethods⟩ := h
  have hterms : renderTerms scope d.typeSet = renderTerms scope d'.typeSet := by
    rw [renderTerms_eq_mapM, renderTerms_eq_mapM]
    apply mapM_congr_of_forall₂ htypeSet
    rintro t t' ⟨htilde, htype⟩
    unfold TypeExpr.Alike at htype
    rw [htilde, htype]
  have hset : typeSetEntry scope d.typeSet = typeSetEntry scope d'.typeSet := by
    have hempty : d.typeSet.isEmpty = d'.typeSet.isEmpty := by
      rw [Bool.eq_iff_iff, List.isEmpty_iff_length_eq_zero, List.isEmpty_iff_length_eq_zero,
        htypeSet.length_eq]
    rw [typeSetEntry, typeSetEntry, render, render, hterms, hempty]
  have hentries : d.methods.mapM (Method.entry scope) = d'.methods.mapM (Method.entry scope) := by
    apply mapM_congr_of_forall₂ hmethods
    rintro m m' ⟨hname, hsignature⟩
    rw [Method.entry, Method.entry, hname, hsignature.renderSignature_eq]
  rw [declaration, declaration, hset, hentries, TypeParams.clause_congr htypeParams, hname]

/-- **Declarations with the same tokens agree part by part:** in their name, in how their type
parameters are grouped, in the constraints, in the terms of the type set, and in the methods
with their parameters and results.  Conversely, declarations that agree have the same
tokens. -/
theorem declaration_eq_iff_alike {f f' : Fragment} (h : d.declaration scope = .ok f)
    (h' : d'.declaration scope = .ok f') : f = f' ↔ d.Alike scope d' := by
  constructor
  · rintro rfl
    exact alike_of_declaration h h'
  · intro halike
    rw [halike.declaration_eq, h'] at h
    exact (Except.ok.inj h).symm

/-- Two declarations that differ in their import path, in the names of results, in a flag that
no slice shows and in a type without a qualifier; and one that groups its type parameters
otherwise. -/
theorem declaration_eq_iff_alike_store :
    let scope : Scope := ⟨"example.com/store", "example.com/mocks"⟩
    let key : TypeExpr := .pointer (.named ⟨"Key", "example.com/lib", []⟩)
    let d : InterfaceDecl := ⟨"Store", "example.com/store", [⟨["K"], key⟩],
      [⟨"Get", ⟨[⟨"key", .typeParam "K"⟩], [⟨"", .slice .int⟩, ⟨"", .error⟩], true⟩⟩,
        ⟨"Put", ⟨[⟨"", .typeParam "K"⟩, ⟨"values", .slice .int⟩], [], true⟩⟩], [.approx .int]⟩
    let d' : InterfaceDecl := ⟨"Store", "", [⟨["K"], key⟩],
      [⟨"Get", ⟨[⟨"key", .named ⟨"K", "example.com/store", []⟩⟩],
          [⟨"values", .slice .int⟩, ⟨"err", .error⟩], false⟩⟩,
        ⟨"Put", ⟨[⟨"", .basic "K"⟩, ⟨"values", .slice .int⟩], [], true⟩⟩], [.approx .int]⟩
    let split : InterfaceDecl := ⟨"Store", "", [⟨["K"], key⟩, ⟨[], .int⟩], [], []⟩
    let joined : InterfaceDecl := ⟨"Store", "", [⟨["K", "V"], key⟩], [], []⟩
    (∃ f, d.declaration scope = .ok f ∧ d'.declaration scope = .ok f ∧
      Fragment.text f = "type Store[K *lib.Key,] interface\x7b ~int; " ++
        "Get(key K) ([]int, error); Put(K, values ...int) \x7d" ∧ d.Alike scope d') ∧
    ∃ f f', split.declaration scope = .ok f ∧ joined.declaration scope = .ok f' ∧
      f ≠ f' ∧ ¬ split.Alike scope joined := by
  intro scope key d d' split joined
  obtain ⟨f, hf⟩ : ∃ f, d.declaration scope = .ok f := ⟨_, rfl⟩
  obtain ⟨f', hf'⟩ : ∃ f', d'.declaration scope = .ok f' := ⟨_, rfl⟩
  obtain ⟨g, hg⟩ : ∃ g, split.declaration scope = .ok g := ⟨_, rfl⟩
  obtain ⟨g', hg'⟩ : ∃ g', joined.declaration scope = .ok g' := ⟨_, rfl⟩
  have hff' : f = f' := by
    cases hf
    cases hf'
    rfl
  have hgg' : g ≠ g' := by
    cases hg
    cases hg'
    decide
  refine ⟨⟨f, hf, hff' ▸ hf', ?_, (declaration_eq_iff_alike hf hf').mp hff'⟩, g, g', hg, hg', hgg',
    fun halike => hgg' ((declaration_eq_iff_alike hg hg').mpr halike)⟩
  cases hf
  decide +kernel

end InterfaceDecl

end GoDecl
