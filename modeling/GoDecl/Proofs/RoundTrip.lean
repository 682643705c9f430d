import GoDecl.Proofs.Conditions
import GoDecl.Proofs.Productions

/-!
# Reading a rendered type

The text of a printable type is read by the grammar of types, and what is read is the
type again: with package names in the place of import paths, and without what is never
written.  The reader goes by lexemes alone, so nothing depends on the spaces, and what
stands behind a type decides where it ends.

## Main definitions

* `TypeExpr.isPrintable`: whether a type can be written and read again
* `Readable`: a type with its source, as the grammar reads it

## Main results

* `readable_named`, `readable_signature`, `readable_chan`: the shapes of types whose end
  depends on what stands behind them
* `readable_rules`: the source of a printable type is read as that type
-/

namespace GoDecl

open Grammar

namespace TypeExpr

/-- Whether a type is written as a reference. -/
def isReference : TypeExpr → Bool
  | basic _ | named _ | typeParam _ => true
  | _ => false

/-- Whether a type can be that of a field without a name. -/
def isEmbeddable : TypeExpr → Bool
  | pointer elem => elem.isReference
  | t => t.isReference

/-- Whether a type can be written and read again, as far as it shows in the type
itself. -/
def isPrintable (scope : Scope) : TypeExpr → Bool
  | basic name | typeParam name => isIdentifier name
  | named ref =>
    isIdentifier ref.name &&
      !(scope.qualifies ref.path && ImportPath.packageName ref.path ∈ keywords)
  | struct fields =>
    fields.all fun b => if b.name = "" then b.type.isEmbeddable else isIdentifier b.name
  | func s =>
    ((s.params.all fun b => b.name = "") || s.params.all fun b => isIdentifier b.name) &&
      (!s.variadic || endsInSlice s.params)
  | interface body =>
    body.unionTerms?.isNone &&
      body.methods.all fun b => isIdentifier b.name && b.type.signature?.isSome
  | union _ | tuple _ => false
  | _ => true

theorem isWord_of_isIdentifier {x : String} (h : isIdentifier x = true) : isWord x = true := by
  simp only [isIdentifier, Bool.and_eq_true] at h
  exact h.1.1

theorem ne_empty_of_isIdentifier {x : String} (h : isIdentifier x = true) : x ≠ "" := by
  rintro rfl
  cases h

theorem isIdentifier_packageName {path : String} (h : ImportPath.packageName path ∉ keywords) :
    isIdentifier (ImportPath.packageName path) = true := by
  obtain ⟨c, cs, hname, hc, -⟩ := ImportPath.packageName_chars path
  have hdigit := ImportPath.isDigit_of_isLower hc
  simp [isIdentifier, isWord_packageName, hname, hdigit, h]

theorem namesAreWords_of_isPrintable {scope : Scope} {t : TypeExpr}
    (h : t.isPrintable scope = true) : t.namesAreWords = true := by
  cases t with
  | basic name => exact isWord_of_isIdentifier h
  | typeParam name => exact isWord_of_isIdentifier h
  | named ref => exact isWord_of_isIdentifier (Bool.and_eq_true_iff.mp h).1
  | struct fields =>
    simp only [isPrintable, namesAreWords, List.all_eq_true] at h ⊢
    intro b hb
    have hname := h b hb
    split at hname
    · next hempty => simp [hempty]
    · simp [isWord_of_isIdentifier hname]
  | func s =>
    simp only [isPrintable, namesAreWords, Bool.and_eq_true, Bool.or_eq_true,
      List.all_eq_true] at h ⊢
    intro b hb
    rcases h.1 with hnone | hnames
    · exact .inl (hnone b hb)
    · exact .inr (isWord_of_isIdentifier (hnames b hb))
  | interface body =>
    simp only [isPrintable, namesAreWords, Bool.and_eq_true, List.all_eq_true] at h ⊢
    intro b hb
    exact isWord_of_isIdentifier (h.2 b hb).1
  | _ => rfl

theorem hasSyntax_of_isPrintable {scope : Scope} {t : TypeExpr}
    (h : t.isPrintable scope = true) : t.hasSyntax = true := by
  cases t with
  | interface body =>
    simp only [isPrintable, hasSyntax, Bool.and_eq_true, Bool.or_eq_true, List.all_eq_true] at h ⊢
    exact .inr fun b hb => (h.2 b hb).2
  | tuple items => cases h
  | _ => rfl

/-! ### What a place holds -/

/-- A type in the place of a parameter: whether any number of values is taken there, and
the type of one of them. -/
def inPlace : Bool → TypeExpr → Bool × TypeExpr
  | true, slice elem => (true, elem)
  | _, t => (false, t)

theorem inPlace_false (t : TypeExpr) : inPlace false t = (false, t) := rfl

theorem inPlace_of_isSlice_eq_false {t : TypeExpr} (h : t.isSlice = false) (spread : Bool) :
    inPlace spread t = (false, t) := by
  cases spread with
  | false => rfl
  | true =>
    cases t with
    | slice elem => cases h
    | _ => rfl

end TypeExpr

open TypeExpr

/-- A type with its source, as the grammar reads it.  In the place of a variadic
parameter a slice is read as the type of one value. -/
structure Readable (scope : Scope) (spread : Bool) (t : TypeExpr) (f : Fragment) : Prop where
  takes : ∀ rest, closesType rest = true →
    Takes place? (Fragment.lexemes f ++ rest)
      (inPlace spread (t.erase ImportPath.packageName scope)) rest
  head : ∃ l ls, Fragment.lexemes f = l :: ls ∧ l ≠ .mark '('

namespace Readable

variable {scope : Scope} {spread : Bool} {t : TypeExpr} {f : Fragment} {rest : List Lexeme}

theorem takes_type (h : Readable scope false t f) (hrest : closesType rest = true) :
    Takes type? (Fragment.lexemes f ++ rest) (t.erase ImportPath.packageName scope) rest :=
  takes_one_iff.mp (h.takes rest hrest)

/-- A type that is no slice is read alike in every place. -/
theorem of_takes (hslice : t.isSlice = false)
    (htakes : ∀ rest, closesType rest = true → Takes type? (Fragment.lexemes f ++ rest)
      (t.erase ImportPath.packageName scope) rest)
    (hhead : ∃ l ls, Fragment.lexemes f = l :: ls ∧ l ≠ .mark '(') : Readable scope spread t f := by
  refine ⟨?_, hhead⟩
  intro rest hrest
  rw [inPlace_of_isSlice_eq_false ((isSlice_erase _ _ _).trans hslice)]
  exact takes_one (htakes rest hrest)

end Readable

/-! ### References -/

section References

variable {scope : Scope} {rest : List Lexeme}

/-- A declared name in a scope is read with its qualifier, if it has one. -/
theorem takes_typeName_reference {path name : String} (hname : isIdentifier name = true)
    (hpath : (scope.qualifies path && ImportPath.packageName path ∈ keywords) = false)
    (hrest : ∀ ls', rest ≠ .mark '.' :: ls') :
    Takes typeName? ((scope.reference path name).lexemes ++ rest)
      (if scope.qualifies path then ImportPath.packageName path else "", name) rest := by
  rw [Scope.reference]
  split
  · next hqualifies =>
    rw [hqualifies, Bool.true_and, decide_eq_false_iff_not] at hpath
    exact takes_qualified (isIdentifier_packageName hpath) hname
  · exact takes_plain hname hrest

theorem exists_word_reference {path name : String} (hname : isIdentifier name = true)
    (hpath : (scope.qualifies path && ImportPath.packageName path ∈ keywords) = false) :
    ∃ x ls, (scope.reference path name).lexemes = .word x :: ls ∧ isIdentifier x = true := by
  rw [Scope.reference]
  split
  · next hqualifies =>
    rw [hqualifies, Bool.true_and, decide_eq_false_iff_not] at hpath
    exact ⟨_, _, rfl, isIdentifier_packageName hpath⟩
  · exact ⟨_, _, rfl, hname⟩

end References

variable {scope : Scope}

theorem takes_args_list {ts : List TypeExpr} {gs : List Fragment}
    (h : List.Forall₂ (Rendered scope (Readable scope) false) ts gs) :
    List.Forall₂ (fun t ls => ∀ rest, Ends ',' ']' rest → Takes type? (ls ++ rest) t rest)
      (eraseAll ImportPath.packageName scope ts) (gs.map Fragment.lexemes) := by
  induction h with
  | nil => exact .nil
  | cons head tail ih =>
    refine .cons ?_ ih
    intro rest hrest
    exact head.holds.takes_type (hrest.closesType rfl rfl)

/-- A reference is read back: what closes a type is neither the dot of a package nor a bracket. -/
theorem readable_named {ref : TypeRef} {gs : List Fragment}
    (h : List.Forall₂ (Rendered scope (Readable scope) false) ref.args gs)
    (href : isPrintable scope (.named ref) = true) (spread : Bool) :
    Readable scope spread (.named ref)
      (scope.reference ref.path ref.name :: Fragment.bracketed gs) := by
  obtain ⟨name, path, args⟩ := ref
  rw [isPrintable, Bool.and_eq_true, Bool.not_eq_true'] at href
  obtain ⟨hname, hpath⟩ := href
  obtain ⟨x, ls, hword, hx⟩ := exists_word_reference hname hpath
  have hhead : ∃ l ls, Fragment.lexemes (scope.reference path name :: Fragment.bracketed gs) =
      l :: ls ∧ l ≠ .mark '(' :=
    ⟨.word x, _, by rw [Fragment.lexemes, hword]; rfl, by simp⟩
  refine .of_takes rfl ?_ hhead
  intro rest hrest
  have htakes : Takes reference?
      (Fragment.lexemes (scope.reference path name :: Fragment.bracketed gs) ++ rest)
      (eraseRef ImportPath.packageName scope ⟨name, path, args⟩) rest := by
    rw [Fragment.lexemes, eraseRef]
    cases h with
    | nil =>
      rw [Fragment.bracketed, Fragment.lexemes, List.append_nil]
      apply takes_name
      · exact takes_typeName_reference hname hpath (ne_mark_of_closesType hrest rfl)
      · intro ls' hls
        exact absurd hls (ne_mark_of_closesType hrest rfl ls')
    | @cons t g ts gs head tail =>
      have hlist := takes_types (takes_args_list (.cons head tail)) rest
      have hopens := opensElement_of_opensType (opensType_of_takes_args hlist)
      have hreference := takes_args (takes_typeName_reference hname hpath (by simp)) hopens hlist
      simpa [Fragment.bracketed, Fragment.lexemes, Token.lexemes_group, Delim.openingLexemes,
        Delim.closingLexemes, Delim.separatorLexeme] using hreference
  rw [Fragment.lexemes, hword] at htakes ⊢
  rw [erase]
  exact (takes_reference_iff hx).mpr htakes

/-! ### Fields -/

/-- The source of a reference begins with a name. -/
theorem exists_word_of_isReference {spread : Bool} {t : TypeExpr} {g : Fragment}
    (ht : t.isReference = true) (hall : t.all (isPrintable scope) = true)
    (h : t.render scope spread = .ok g) :
    ∃ x ls r, Fragment.lexemes g = .word x :: ls ∧ isIdentifier x = true ∧
      t.erase ImportPath.packageName scope = .named r := by
  have hitself := holds_of_all hall
  cases t with
  | basic name =>
    cases h
    exact ⟨name, [], _, rfl, hitself, rfl⟩
  | typeParam name =>
    cases h
    exact ⟨name, [], _, rfl, hitself, rfl⟩
  | named ref =>
    obtain ⟨name, path, args⟩ := ref
    rw [isPrintable, Bool.and_eq_true, Bool.not_eq_true'] at hitself
    simp only [render, renderRef, bind_eq_ok_iff, pure_eq_ok_iff] at h
    obtain ⟨gs, -, rfl⟩ := h
    obtain ⟨x, ls, hword, hx⟩ := exists_word_reference hitself.1 hitself.2
    exact ⟨x, _, _, by rw [Fragment.lexemes, hword]; rfl, hx, by rw [erase]⟩
  | _ => cases ht

theorem takes_embedded {t : TypeExpr} {g : Fragment} {rest : List Lexeme}
    (h : Rendered scope (Readable scope) false t g) (ht : t.isEmbeddable = true)
    (hall : t.all (isPrintable scope) = true) (hrest : Ends ';' '\x7d' rest) :
    Takes field? (Fragment.lexemes g ++ rest) [⟨"", t.erase ImportPath.packageName scope⟩]
      rest := by
  have htype := h.holds.takes_type (hrest.closesType rfl rfl)
  by_cases hreference : t.isReference = true
  · obtain ⟨x, ls, r, hword, hx, herase⟩ := exists_word_of_isReference hreference hall h.render_eq
    rw [hword, herase] at htype ⊢
    exact takes_field_reference hx ((takes_reference_iff hx).mp htype) hrest
  · cases t with
    | pointer elem =>
      have hrender := h.render_eq
      simp only [render, bind_eq_ok_iff, pure_eq_ok_iff] at hrender
      obtain ⟨g, hg, rfl⟩ := hrender
      obtain ⟨x, ls, r, hword, hx, herase⟩ :=
        exists_word_of_isReference ht (Bool.and_eq_true_iff.mp hall).2 hg
      rw [erase, herase] at htype ⊢
      rw [Fragment.lexemes, hword] at htype ⊢
      exact takes_field_pointer ((takes_reference_iff hx).mp (takes_of_takes_pointer htype))
    | _ => exact absurd ht hreference

theorem takes_field_list {bs : List Binding} {gs : List Fragment}
    (h : Entries (Rendered scope (Under (isPrintable scope) (Readable scope))) false bs gs)
    (hnames : (bs.all fun b => if b.name = "" then b.type.isEmbeddable else isIdentifier b.name) =
      true)
    (hbs : allBindings (isPrintable scope) bs = true) :
    List.Forall₂ (fun bs ls => ∀ rest, Ends ';' '\x7d' rest → Takes field? (ls ++ rest) bs rest)
      ((eraseBindings ImportPath.packageName scope bs).map fun b => [b])
      (gs.map Fragment.lexemes) := by
  induction h with
  | nil => exact .nil
  | @cons b bs g gs head tail ih =>
    obtain ⟨hname, hnames⟩ := Bool.and_eq_true_iff.mp hnames
    obtain ⟨hb, hbs⟩ := Bool.and_eq_true_iff.mp hbs
    have hreadable := Under.rendered head hb
    refine .cons ?_ (ih hnames hbs)
    intro rest hrest
    rw [Fragment.entry]
    by_cases hempty : b.name = ""
    · rw [if_pos hempty, hempty]
      exact takes_embedded hreadable (by simpa [hempty] using hname) hb hrest
    · rw [if_neg hempty]
      have htype := hreadable.holds.takes_type (hrest.closesType rfl rfl)
      exact takes_field_named (by simpa [hempty] using hname) htype

/-! ### Parameters -/

/-- Parameters as they are read.  With `variadic` the last one may take any number of
values. -/
def placedParams (variadic : Bool) : List Binding → List Param
  | [] => []
  | b :: bs =>
    let place := inPlace (variadic && bs.isEmpty) b.type
    ⟨b.name, place.1, place.2⟩ :: placedParams variadic bs

theorem bindings?_placedParams (variadic : Bool) (bs : List Binding) :
    Param.bindings? (placedParams variadic bs) = some (bs, variadic && endsInSlice bs) := by
  induction bs with
  | nil => simp [placedParams, Param.bindings?, endsInSlice]
  | cons b bs ih =>
    obtain ⟨name, type⟩ := b
    cases bs with
    | nil =>
      cases hslice : type.isSlice with
      | false =>
        simp [placedParams, inPlace_of_isSlice_eq_false hslice, Param.bindings?, endsInSlice,
          hslice]
      | true =>
        cases type with
        | slice elem =>
          cases variadic <;> simp [placedParams, inPlace, Param.bindings?, endsInSlice, hslice]
        | _ => cases hslice
    | cons b' bs =>
      rw [placedParams, List.isEmpty_cons, Bool.and_false, inPlace_false, Param.bindings?, ih,
        endsInSlice, endsInSlice, List.getLast?_cons_cons]
      rfl

theorem name_mem_placedParams {variadic : Bool} {bs : List Binding} {p : Param}
    (h : p ∈ placedParams variadic bs) : ∃ b ∈ bs, p.name = b.name := by
  induction bs with
  | nil => cases h
  | cons b bs ih =>
    rcases List.mem_cons.mp h with rfl | h
    · exact ⟨b, List.mem_cons_self, rfl⟩
    · obtain ⟨b', hb', hname⟩ := ih h
      exact ⟨b', List.mem_cons_of_mem b hb', hname⟩

theorem share?_of_named {ps : List Param} (h : ∀ p ∈ ps, p.name ≠ "") :
    Param.share? ps = some ps := by
  induction ps with
  | nil => rfl
  | cons p ps ih =>
    obtain ⟨hp, hps⟩ := List.forall_mem_cons.mp h
    simp [Param.share?, ih hps, hp]

/-- Parameters are told apart from types by their names. -/
theorem resolve?_placedParams (variadic : Bool) {bs : List Binding}
    (h : (∀ b ∈ bs, b.name = "") ∨ ∀ b ∈ bs, b.name ≠ "") :
    Param.resolve? (placedParams variadic bs) = some (bs, variadic && endsInSlice bs) := by
  rw [Param.resolve?]
  rcases h with hnone | hnames
  · rw [if_pos, bindings?_placedParams]
    simp only [List.all_eq_true, decide_eq_true_eq]
    intro p hp
    obtain ⟨b, hb, hname⟩ := name_mem_placedParams hp
    exact hname.trans (hnone b hb)
  · split
    · exact bindings?_placedParams variadic bs
    · have hnamed : ∀ p ∈ placedParams variadic bs, p.name ≠ "" := by
        intro p hp
        obtain ⟨b, hb, hname⟩ := name_mem_placedParams hp
        exact hname ▸ hnames b hb
      rw [share?_of_named hnamed]
      exact bindings?_placedParams variadic bs

/-! ### Methods -/

/-- A signature with its source, as the grammar reads it. -/
structure ReadableSignature (scope : Scope) (s : Signature) (f : Fragment) : Prop where
  takes : ∀ rest, closesType rest = true → Takes signature? (Fragment.lexemes f ++ rest)
    (eraseSignature ImportPath.packageName scope s) rest
  paren : ∃ ls, Fragment.lexemes f = .mark '(' :: ls

theorem takes_method_list {bs : List Binding} {gs : List Fragment}
    (h : List.Forall₂ (fun b f => ∃ s g, b.type = .func s ∧ ReadableSignature scope s g ∧
      f = .ident b.name :: g) bs gs)
    (hnames : (bs.all fun b => isIdentifier b.name && b.type.signature?.isSome) = true) :
    List.Forall₂
      (fun body ls => ∀ rest, Ends ';' '\x7d' rest → Takes element? (ls ++ rest) body rest)
      ((eraseBindings ImportPath.packageName scope bs).map fun b => ⟨[b], []⟩)
      (gs.map Fragment.lexemes) := by
  induction h with
  | nil => exact .nil
  | @cons b f bs gs head tail ih =>
    obtain ⟨s, g, hs, hsignature, rfl⟩ := head
    obtain ⟨hname, hnames⟩ := Bool.and_eq_true_iff.mp hnames
    refine .cons ?_ (ih hnames)
    intro rest hrest
    obtain ⟨ls, hparen⟩ := hsignature.paren
    have htakes := hsignature.takes rest (hrest.closesType rfl rfl)
    rw [hs, erase, Fragment.lexemes, hparen]
    rw [hparen] at htakes
    exact takes_method (Bool.and_eq_true_iff.mp hname).1 htakes

/-! ### Signatures -/

theorem eraseBindings_isEmpty (mark : String → String) (bs : List Binding) :
    (eraseBindings mark scope bs).isEmpty = bs.isEmpty := by
  rw [eraseBindings_eq_map, List.isEmpty_map]

theorem endsInSlice_eraseBindings (mark : String → String) (bs : List Binding) :
    endsInSlice (eraseBindings mark scope bs) = endsInSlice bs := by
  rw [endsInSlice, endsInSlice, eraseBindings_eq_map, List.getLast?_map, Option.any_map]
  simp only [isSlice_erase]

theorem name_mem_eraseBindings {mark : String → String} {bs : List Binding} {b : Binding}
    (h : b ∈ eraseBindings mark scope bs) : ∃ b' ∈ bs, b.name = b'.name := by
  rw [eraseBindings_eq_map] at h
  obtain ⟨b', hb', rfl⟩ := List.mem_map.mp h
  exact ⟨b', hb', rfl⟩

theorem takes_param_list {variadic : Bool} {bs : List Binding} {gs : List Fragment}
    (h : Entries (Rendered scope (Readable scope)) variadic bs gs)
    (hnames : (∀ b ∈ bs, b.name = "") ∨ ∀ b ∈ bs, isIdentifier b.name = true) :
    List.Forall₂ (fun p ls => ∀ rest, Ends ',' ')' rest → Takes param? (ls ++ rest) p rest)
      (placedParams variadic (eraseBindings ImportPath.packageName scope bs))
      (gs.map Fragment.lexemes) := by
  induction h with
  | nil => exact .nil
  | @cons b bs g gs head tail ih =>
    rw [eraseBindings, placedParams, eraseBindings_isEmpty]
    refine .cons ?_ (ih ?_)
    · intro rest hrest
      have hcloses := hrest.closesType rfl rfl
      have hplace := head.holds.takes rest hcloses
      rw [Fragment.entry]
      rcases hnames with hnone | hnames
      · have hempty := hnone b List.mem_cons_self
        rw [if_pos hempty, hempty]
        exact takes_param_alone hplace hcloses
      · have hname := hnames b List.mem_cons_self
        rw [if_neg (ne_empty_of_isIdentifier hname)]
        exact takes_param_named hname hplace
    · rcases hnames with hnone | hnames
      · exact .inl fun b' hb' => hnone b' (List.mem_cons_of_mem b hb')
      · exact .inr fun b' hb' => hnames b' (List.mem_cons_of_mem b hb')

theorem takes_result_list {bs : List Binding} {gs : List Fragment}
    (h : List.Forall₂ (fun b g => Rendered scope (Readable scope) false b.type g) bs gs) :
    List.Forall₂ (fun p ls => ∀ rest, Ends ',' ')' rest → Takes param? (ls ++ rest) p rest)
      (placedParams false (eraseResults ImportPath.packageName scope bs))
      (gs.map Fragment.lexemes) := by
  induction h with
  | nil => exact .nil
  | @cons b g bs gs head tail ih =>
    refine .cons ?_ ih
    intro rest hrest
    have hcloses := hrest.closesType rfl rfl
    exact takes_param_alone (head.holds.takes rest hcloses) hcloses

theorem resolve?_eraseResults (results : List Binding) :
    Param.resolve? (placedParams false (eraseResults ImportPath.packageName scope results)) =
      some (eraseResults ImportPath.packageName scope results, false) := by
  rw [resolve?_placedParams, Bool.false_and]
  left
  intro b hb
  rw [eraseResults_eq_map] at hb
  obtain ⟨b', -, rfl⟩ := List.mem_map.mp hb
  rfl

theorem lexemes_parens (gs : List Fragment) (f : Fragment) (rest : List Lexeme) :
    Fragment.lexemes (.group .paren gs :: f) ++ rest =
      .mark '(' :: ([.mark ','].intercalate (gs.map Fragment.lexemes) ++
        .mark ')' :: (Fragment.lexemes f ++ rest)) := by
  simp [Fragment.lexemes, Token.lexemes_group, Delim.openingLexemes, Delim.closingLexemes,
    Delim.separatorLexeme]

/-- A signature is read back, with one result, which does not begin with a parenthesis, or with
several, which are read like parameters without names. -/
theorem readable_signature {params results : List Binding} {variadic : Bool}
    {gs gs' : List Fragment} (h : Entries (Rendered scope (Readable scope)) variadic params gs)
    (h' : List.Forall₂ (fun b g => Rendered scope (Readable scope) false b.type g) results gs')
    (hprintable : isPrintable scope (.func ⟨params, results, variadic⟩) = true) :
    ReadableSignature scope ⟨params, results, variadic⟩
      (.group .paren gs :: Fragment.resultClause gs') := by
  simp only [isPrintable, Bool.and_eq_true, Bool.or_eq_true, List.all_eq_true,
    decide_eq_true_eq] at hprintable
  obtain ⟨hnames, -⟩ := hprintable
  have hresolve : Param.resolve? (placedParams variadic
      (eraseBindings ImportPath.packageName scope params)) =
        some (eraseBindings ImportPath.packageName scope params,
          variadic && endsInSlice params) := by
    rw [resolve?_placedParams, endsInSlice_eraseBindings]
    rcases hnames with hnone | hnames
    · left
      intro b hb
      obtain ⟨b', hb', hname⟩ := name_mem_eraseBindings hb
      exact hname.trans (hnone b' hb')
    · right
      intro b hb
      obtain ⟨b', hb', hname⟩ := name_mem_eraseBindings hb
      rw [hname]
      exact ne_empty_of_isIdentifier (hnames b' hb')
  refine ⟨?_, _, (List.append_nil _).symm.trans (lexemes_parens gs _ [])⟩
  intro rest hrest
  have hlist := takes_params (takes_param_list h hnames)
  rw [lexemes_parens, eraseSignature]
  have hlist' := takes_params (takes_result_list h') rest
  cases h' with
  | nil => exact takes_no_result (hlist _) hresolve (opensType_of_closesType hrest)
  | @cons b g bs gs' head tail =>
    cases tail with
    | nil =>
      have hresult := head.holds
      obtain ⟨l, ls, hhead, hl⟩ := hresult.head
      refine takes_result (hlist _) hresolve ?_ (hresult.takes_type hrest)
      intro ls' hls
      rw [Fragment.resultClause, hhead] at hls
      exact hl (List.cons.inj hls).1
    | @cons b' g' bs gs' head' tail' =>
      have hclause : Fragment.resultClause (g :: g' :: gs') = [.group .paren (g :: g' :: gs')] :=
        rfl
      rw [hclause, lexemes_parens]
      exact takes_results (hlist _) hresolve hlist' (resolve?_eraseResults _)

/-! ### Types -/

/-- A name without a package is read as a reference. -/
theorem readable_plain {t : TypeExpr} {name : String} (hname : isIdentifier name = true)
    (hslice : t.isSlice = false)
    (herase : t.erase ImportPath.packageName scope = .named ⟨name, "", []⟩) (spread : Bool) :
    Readable scope spread t [.ident name] := by
  refine .of_takes hslice ?_ ⟨.word name, [], rfl, by simp⟩
  intro rest hrest
  rw [herase]
  apply (takes_reference_iff hname).mpr
  apply takes_name
  · exact takes_plain hname (ne_mark_of_closesType hrest rfl)
  · intro ls hls
    exact absurd hls (ne_mark_of_closesType hrest rfl ls)

/-- A channel is read back: the parentheses around its element are transparent, and without them
the element does not begin with an arrow. -/
theorem readable_chan (dir : ChanDir) {elem : TypeExpr} {g : Fragment}
    (h : Readable scope false elem g) (spread : Bool) :
    Readable scope spread (.chan dir elem) (dir.tokens ++ chanElem dir elem g) := by
  cases dir with
  | both =>
    refine .of_takes rfl ?_ ⟨.word "chan", _, rfl, by simp⟩
    intro rest hrest
    rw [erase]
    cases hrecv : elem.isRecvChan with
    | true =>
      have hlexemes : Fragment.lexemes (ChanDir.both.tokens ++ chanElem .both elem g) ++ rest =
          .word "chan" :: .mark '(' :: (Fragment.lexemes g ++ .mark ')' :: rest) := by
        simp [chanElem, hrecv, ChanDir.tokens, Fragment.lexemes, Token.lexemes,
          Fragment.lexemesOfItems, Delim.openingLexemes, Delim.closingLexemes]
      rw [hlexemes]
      exact takes_chan (by simp) (takes_parens (h.takes_type rfl))
    | false =>
      have hlexemes : Fragment.lexemes (ChanDir.both.tokens ++ chanElem .both elem g) ++ rest =
          .word "chan" :: (Fragment.lexemes g ++ rest) := by
        simp [chanElem, hrecv, ChanDir.tokens, Fragment.lexemes, Token.lexemes]
      rw [hlexemes]
      have htype := h.takes_type hrest
      refine takes_chan ?_ htype
      intro ls hls
      rw [hls] at htype
      have herase := isRecvChan_of_takes htype
      rw [isRecvChan_erase, hrecv] at herase
      cases herase
  | send =>
    refine .of_takes rfl ?_ ⟨.word "chan", _, rfl, by simp⟩
    intro rest hrest
    rw [erase]
    exact takes_send (h.takes_type hrest)
  | recv =>
    refine .of_takes rfl ?_ ⟨.arrow, _, rfl, by simp⟩
    intro rest hrest
    rw [erase]
    exact takes_recv (h.takes_type hrest)

theorem foldr_append_singletons {α : Type} (as : List α) :
    (as.map fun a => [a]).foldr List.append [] = as := by
  induction as with
  | nil => rfl
  | cons a as ih => rw [List.map_cons, List.foldr_cons, ih]; rfl

theorem foldr_methods (bs : List Binding) :
    (bs.map fun b => (⟨[b], []⟩ : InterfaceBody)).foldr
      (fun b b' : InterfaceBody => ⟨b.methods ++ b'.methods, b.embeds ++ b'.embeds⟩) .empty =
        (⟨bs, []⟩ : InterfaceBody) := by
  induction bs with
  | nil => rfl
  | cons b bs ih => rw [List.map_cons, List.foldr_cons, ih]; rfl

/-- **The source of a printable type is read as that type.** -/
theorem readable_rules (scope : Scope) :
    RenderRules scope (Under (isPrintable scope) (Readable scope)) (fun s f =>
      (TypeExpr.func s).all (isPrintable scope) = true → ReadableSignature scope s f) where
  basic spread _ h := readable_plain h rfl rfl spread
  pointer spread elem g hg h := by
    have helem := hg.holds (Bool.and_eq_true_iff.mp h).2
    refine .of_takes rfl ?_ ⟨_, _, rfl, by simp⟩
    intro rest hrest
    rw [erase]
    exact takes_pointer (helem.takes_type hrest)
  slice spread elem g hg h := by
    have helem := hg.holds (Bool.and_eq_true_iff.mp h).2
    cases spread with
    | false =>
      refine ⟨?_, ⟨_, _, rfl, by simp⟩⟩
      intro rest hrest
      rw [erase]
      exact takes_one (takes_slice (helem.takes_type hrest))
    | true =>
      refine ⟨?_, ⟨_, _, rfl, by simp⟩⟩
      intro rest hrest
      rw [erase]
      exact takes_many (helem.takes_type hrest)
  array spread len elem g hg h := by
    have helem := hg.holds (Bool.and_eq_true_iff.mp h).2
    refine .of_takes rfl ?_ ⟨_, _, rfl, by simp⟩
    intro rest hrest
    rw [erase]
    exact takes_array (Fragment.length?_toString len) (helem.takes_type hrest)
  map spread key value g g' hk hv h := by
    obtain ⟨hkey, hvalue⟩ := Bool.and_eq_true_iff.mp (Bool.and_eq_true_iff.mp h).2
    refine .of_takes rfl ?_ ⟨_, _, rfl, by simp⟩
    intro rest hrest
    have htype := takes_map ((hk.holds hkey).takes_type rfl) ((hv.holds hvalue).takes_type hrest)
    rw [erase]
    simpa [Fragment.lexemes, Token.lexemes, Fragment.lexemesOfItems_eq_map, Delim.openingLexemes,
      Delim.closingLexemes] using htype
  chan spread dir elem g hg h := readable_chan dir (hg.holds (Bool.and_eq_true_iff.mp h).2) spread
  struct spread fields gs hgs h := by
    obtain ⟨hnames, hfields⟩ := Bool.and_eq_true_iff.mp h
    refine .of_takes rfl ?_ ⟨_, _, rfl, by simp⟩
    intro rest hrest
    have hlist := takes_fields (takes_field_list hgs hnames hfields) rest
    rw [foldr_append_singletons] at hlist
    rw [erase]
    simpa [Fragment.lexemes, Token.lexemes, Fragment.lexemesOfItems_eq_map, Delim.openingLexemes,
      Delim.closingLexemes, Delim.separatorLexeme] using takes_struct hlist
  signature _ _ _ _ _ hgs hgs' h := by
    obtain ⟨hitself, hparts⟩ := Bool.and_eq_true_iff.mp h
    obtain ⟨hparams, hresults⟩ := Bool.and_eq_true_iff.mp hparts
    exact readable_signature (Under.entries hgs hparams) (Under.results hgs' hresults) hitself
  func spread s g hg h := by
    refine .of_takes rfl ?_ ⟨_, _, rfl, by simp⟩
    intro rest hrest
    rw [erase]
    exact takes_func ((hg h).takes rest hrest)
  interface spread body gs hnone hgs h := by
    obtain ⟨hitself, hbody⟩ := Bool.and_eq_true_iff.mp h
    rw [allBody_of_none hnone] at hbody
    refine .of_takes rfl ?_ ⟨_, _, rfl, by simp⟩
    intro rest hrest
    have hlist := takes_elements
      (takes_method_list (Under.methods hgs hbody) (Bool.and_eq_true_iff.mp hitself).2) rest
    rw [foldr_methods] at hlist
    rw [erase, eraseBody_of_none hnone]
    simpa [Fragment.lexemes, Token.lexemes, Fragment.lexemesOfItems_eq_map, Delim.openingLexemes,
      Delim.closingLexemes, Delim.separatorLexeme] using takes_interface hlist
  typeSet spread body terms g hterms _ h := by
    have hitself := holds_of_all h
    rw [isPrintable, hterms] at hitself
    cases hitself
  named spread ref gs hgs h := by
    obtain ⟨name, path, args⟩ := ref
    obtain ⟨hitself, hargs⟩ := Bool.and_eq_true_iff.mp h
    exact readable_named (Under.args hgs hargs) hitself spread
  typeParam spread _ h := readable_plain h rfl rfl spread
  union spread terms gs _ h := by
    cases (Bool.and_eq_true_iff.mp h).1

/-- **Rendering and parsing a printable type** gives the type again: every name of a type
is a reference, to a package instead of an import path, and the names of results and the
embedded types of interfaces are gone. -/
theorem parse_text_render (scope : Scope) {t : TypeExpr}
    (h : t.all (isPrintable scope) = true) :
    ∃ f, t.render scope false = .ok f ∧
      parse f.text = some (t.erase ImportPath.packageName scope) := by
  obtain ⟨f, hf⟩ := exists_render scope t false (all_mono (fun _ => hasSyntax_of_isPrintable) h)
  have hworded := worded_of_render hf (all_mono (fun _ => namesAreWords_of_isPrintable) h)
  have hreadable := (readable_rules scope).render t hf h
  have htakes : Takes type? (Fragment.lexemes f ++ []) _ [] := hreadable.takes_type rfl
  rw [List.append_nil, ← Fragment.ofText_text hworded] at htakes
  exact ⟨f, hf, parse_of_takes htakes⟩

/-- A variadic function with an array beside a generic type, functions that return
functions, and a channel of channels. -/
theorem parse_text_render_subscribe :
    let scope : Scope := ⟨"example.com/app", "example.com/app/mocks"⟩
    let event : TypeExpr := .named ⟨"Event", "example.com/lib/v2", [.basic "int"]⟩
    let t : TypeExpr := .func
      ⟨[⟨"ids", .array 4 (.typeParam "T")⟩,
          ⟨"opts", .slice (.func
            ⟨[⟨"", event⟩, ⟨"", .basic "int"⟩], [⟨"", .func .empty⟩], false⟩)⟩],
        [⟨"events", .chan .both (.chan .recv event)⟩,
          ⟨"stop", .struct [⟨"", .pointer (.named ⟨"Mutex", "sync", []⟩)⟩, ⟨"n", .basic "int"⟩]⟩],
        true⟩
    t.all (isPrintable scope) = true ∧ ∃ f, t.render scope false = .ok f ∧
      parse f.text = some (t.erase ImportPath.packageName scope) := by
  intro scope event t
  have hprintable : t.all (isPrintable scope) = true := by decide +kernel
  exact ⟨hprintable, parse_text_render scope hprintable⟩

end GoDecl
