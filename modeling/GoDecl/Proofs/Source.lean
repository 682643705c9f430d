import GoDecl.Fragment.Text
import GoDecl.Proofs.Rendering

/-!
# The source of a type, written directly

Each shape of type has one line that says how it is written, from the text of its
parts alone.  The layout of the tokens agrees: whatever the parts are, the spaces
that neighbouring tokens ask for are the ones that these lines have.

## Main definitions

* `TypeExpr.source`: how a type is written, with one function for each kind of
  part

## Main results

* `text_cons_glued`, `text_cons_spaced`: a token before a type
* `source_rules`: the text of a type is its source if that is so for its parts
-/

namespace GoDecl

/-! ### How a type is written -/

/-- Items in braces, which stand apart from the items. -/
def braced : List String → String
  | [] => "\x7b\x7d"
  | items => "\x7b " ++ "; ".intercalate items ++ " \x7d"

/-- A name and the type under it; without a name, the type alone. -/
def namedSource (name type : String) : String :=
  if name = "" then type else name ++ " " ++ type

/-- The results of a function behind its parameters. -/
def resultSource : List String → String
  | [] => ""
  | [result] => " " ++ result
  | results => " (" ++ ", ".intercalate results ++ ")"

/-- The arguments of a reference. -/
def argsSource : List String → String
  | [] => ""
  | args => "[" ++ ", ".intercalate args ++ "]"

/-- A declared name as it is written in a scope. -/
def Scope.nameSource (scope : Scope) (path name : String) : String :=
  if scope.qualifies path then ImportPath.packageName path ++ "." ++ name else name

namespace TypeExpr

mutual

/-- How a type is written in a scope.  With `spread` a slice is the type of a
variadic parameter. -/
def source (scope : Scope) (spread : Bool) : TypeExpr → String
  | basic name => name
  | pointer elem => "*" ++ source scope false elem
  | slice elem => (if spread then "..." else "[]") ++ source scope false elem
  | array len elem => "[" ++ toString len.toNat ++ "]" ++ source scope false elem
  | map key value => "map[" ++ source scope false key ++ "]" ++ source scope false value
  | chan .both elem =>
    if elem.isRecvChan then "chan (" ++ source scope false elem ++ ")"
    else "chan " ++ source scope false elem
  | chan .recv elem => "<-chan " ++ source scope false elem
  | chan .send elem => "chan<- " ++ source scope false elem
  | struct fields => "struct" ++ braced (sourceEntries scope false fields)
  | func signature => "func" ++ sourceSignature scope signature
  | interface body => sourceBody scope body
  | named ref => sourceRef scope ref
  | typeParam name => name
  | union terms => " | ".intercalate (sourceTerms scope terms)
  | tuple _ => ""
termination_by structural t => t

/-- Fields or parameters.  With `variadic` the last one takes any number of
values. -/
def sourceEntries (scope : Scope) (variadic : Bool) : List Binding → List String
  | [] => []
  | b :: bs =>
    namedSource b.name (source scope (variadic && bs.isEmpty) b.type) ::
      sourceEntries scope variadic bs
termination_by structural bs => bs

/-- Results. -/
def sourceResults (scope : Scope) : List Binding → List String
  | [] => []
  | b :: bs => source scope false b.type :: sourceResults scope bs
termination_by structural bs => bs

/-- Parameters and results. -/
def sourceSignature (scope : Scope) : Signature → String
  | ⟨params, results, variadic⟩ =>
    "(" ++ ", ".intercalate (sourceEntries scope variadic params) ++ ")" ++
      resultSource (sourceResults scope results)
termination_by structural s => s

/-- What stands behind the name of a method. -/
def sourceMethod (scope : Scope) : TypeExpr → String
  | func signature => sourceSignature scope signature
  | _ => ""
termination_by structural t => t

/-- The methods of an interface. -/
def sourceMethods (scope : Scope) : List Binding → List String
  | [] => []
  | b :: bs => (b.name ++ sourceMethod scope b.type) :: sourceMethods scope bs
termination_by structural bs => bs

/-- An interface: the first union it embeds, otherwise its methods. -/
def sourceBody (scope : Scope) : InterfaceBody → String
  | ⟨methods, embeds⟩ =>
    (sourceFirstUnion scope embeds).getD ("interface" ++ braced (sourceMethods scope methods))
termination_by structural b => b

/-- The first union among some types. -/
def sourceFirstUnion (scope : Scope) : List TypeExpr → Option String
  | [] => none
  | union terms :: _ => some (" | ".intercalate (sourceTerms scope terms))
  | _ :: rest => sourceFirstUnion scope rest
termination_by structural ts => ts

/-- A reference. -/
def sourceRef (scope : Scope) : TypeRef → String
  | ⟨name, path, args⟩ => scope.nameSource path name ++ argsSource (sourceAll scope args)
termination_by structural r => r

/-- Type arguments. -/
def sourceAll (scope : Scope) : List TypeExpr → List String
  | [] => []
  | t :: ts => source scope false t :: sourceAll scope ts
termination_by structural ts => ts

/-- The terms of a union. -/
def sourceTerms (scope : Scope) : List Term → List String
  | [] => []
  | t :: ts =>
    ((if t.tilde then "~" else "") ++ source scope false t.type) :: sourceTerms scope ts
termination_by structural ts => ts

end

theorem sourceFirstUnion_decided (scope : Scope) :
    DecidedByUnion (sourceFirstUnion scope)
      fun terms => some (source scope false (.union terms)) where
  union _ _ := rfl
  skip t _ h := by cases t <;> first | rfl | cases h

variable {scope : Scope}

theorem sourceBody_of_some {body : InterfaceBody} {terms : List Term}
    (h : body.unionTerms? = some terms) :
    sourceBody scope body = source scope false (.union terms) := by
  rw [sourceBody, (sourceFirstUnion_decided scope).of_some h, Option.getD_some]

theorem sourceBody_of_none {body : InterfaceBody} (h : body.unionTerms? = none) :
    sourceBody scope body = "interface" ++ braced (sourceMethods scope body.methods) := by
  rw [sourceBody, (sourceFirstUnion_decided scope).of_none h]
  rfl

end TypeExpr

/-! ### A token before a type -/

namespace Fragment

/-- A token that is glued to every type. -/
theorem text_cons_glued {t : Token} {g : Fragment} (hg : g.Opens)
    (h : ∀ u : Token, u.opensType → needsSpace t u = false) : text (t :: g) = t.text ++ text g := by
  obtain ⟨u, us, rfl, hu⟩ := hg
  rw [text_cons_cons, gap, if_neg (by simp [h u hu]), String.append_empty]

/-- A token that is set apart from every type. -/
theorem text_cons_spaced {t : Token} {g : Fragment} (hg : g.Opens)
    (h : ∀ u : Token, u.opensType → needsSpace t u = true) :
    text (t :: g) = t.text ++ " " ++ text g := by
  obtain ⟨u, us, rfl, hu⟩ := hg
  rw [text_cons_cons, gap, if_pos (h u hu)]

end Fragment

/-! ### The text of the tokens -/

namespace TypeExpr

variable {scope : Scope}

theorem text_reference (path name : String) :
    (scope.reference path name).text = scope.nameSource path name := by
  rw [Scope.reference, Scope.nameSource]
  split <;> rfl

theorem needsSpace_reference (path name : String) (gs : List Fragment) :
    needsSpace (scope.reference path name) (.group .bracket gs) = false := by
  rw [Scope.reference]
  split <;> rfl

theorem text_braces (gs : List Fragment) :
    (Token.group .brace gs).text = braced (gs.map Fragment.text) := by
  rw [Token.text_group, Delim.enclose]
  cases gs with
  | nil => rfl
  | cons g gs => simp [braced, Delim.opening, Delim.closing, Delim.separator, Delim.padding,
      String.append_assoc]

theorem text_parens (gs : List Fragment) :
    (Token.group .paren gs).text = "(" ++ ", ".intercalate (gs.map Fragment.text) ++ ")" := by
  rw [Token.text_group, Delim.enclose]
  simp [Delim.opening, Delim.closing, Delim.separator, Delim.padding]

theorem text_brackets (gs : List Fragment) :
    (Token.group .bracket gs).text = "[" ++ ", ".intercalate (gs.map Fragment.text) ++ "]" := by
  rw [Token.text_group, Delim.enclose]
  simp [Delim.opening, Delim.closing, Delim.separator, Delim.padding]

theorem text_index (g : Fragment) : (Token.group .index [g]).text = "[" ++ g.text ++ "]" := by
  rw [Token.text_group, Delim.enclose]
  simp [Delim.opening, Delim.closing, Delim.separator, Delim.padding]

theorem text_pipe (gs : List Fragment) :
    (Token.group .pipe gs).text = " | ".intercalate (gs.map Fragment.text) := by
  rw [Token.text_group, Delim.enclose]
  simp [Delim.opening, Delim.closing, Delim.separator, Delim.padding]

/-- A name and the word `chan` have a space behind them, whatever type follows. -/
theorem spacedAfterWord_of_opensType {word u : Token} (hword : (word.isName || word.isChan) = true)
    (hu : u.opensType) : word.spacedAfterWord u = true := by
  cases u with
  | punct mark =>
    cases mark <;> first | rfl | cases hu
  | group d items =>
    cases d with
    | index => exact hword
    | pipe => rfl
    | _ => cases hu
  | _ => rfl

theorem text_ident_cons {g : Fragment} (hg : g.Opens) (name : String) :
    Fragment.text (.ident name :: g) = name ++ " " ++ g.text := by
  apply Fragment.text_cons_spaced hg
  intro u hu
  exact spacedAfterWord_of_opensType rfl hu

theorem text_entry {g : Fragment} (hg : g.Opens) (name : String) :
    (Fragment.entry name g).text = namedSource name g.text := by
  rw [Fragment.entry, namedSource]
  split
  · rfl
  · exact text_ident_cons hg name

theorem text_chan {g : Fragment} (hg : g.Opens) :
    Fragment.text (.keyword "chan" :: g) = "chan " ++ g.text := by
  have hchan := Fragment.text_cons_spaced hg (t := .keyword "chan") ?_
  · exact hchan
  · intro u hu
    exact spacedAfterWord_of_opensType rfl hu

theorem text_chan_parens (g : Fragment) :
    Fragment.text [.keyword "chan", .group .paren [g]] = "chan (" ++ g.text ++ ")" := by
  rw [Fragment.text_cons_cons, Fragment.text_singleton, text_parens, List.map_singleton,
    String.intercalate_singleton, ← String.append_assoc, ← String.append_assoc]
  rfl

/-- One result stands behind the parameters, several stand in parentheses of
their own. -/
theorem text_resultClause (gs : List Fragment) {results : List Fragment}
    (h : ∀ g ∈ results, Fragment.Opens g) :
    Fragment.text (.group .paren gs :: Fragment.resultClause results) =
      (Token.group .paren gs).text ++ resultSource (results.map Fragment.text) := by
  match results with
  | [] => simp [Fragment.resultClause, resultSource]
  | [g] =>
    have hg : Fragment.Opens g := h g (List.mem_singleton_self g)
    have hparens := Fragment.text_cons_spaced hg (t := .group .paren gs) ?_
    · exact hparens.trans (String.append_assoc ..)
    · intro u hu
      cases u with
      | punct mark => cases mark <;> first | rfl | cases hu
      | _ => rfl
  | g :: g' :: results =>
    have hresult : resultSource ((g :: g' :: results).map Fragment.text) =
        " " ++ (Token.group .paren (g :: g' :: results)).text := by
      rw [text_parens, ← String.append_assoc, ← String.append_assoc]
      rfl
    rw [hresult, ← String.append_assoc]
    exact (Fragment.text_cons_cons ..).trans (by rw [Fragment.text_singleton]; rfl)

/-- Arguments are glued to the name before them. -/
theorem text_bracketed {t : Token} (gs : List Fragment)
    (ht : ∀ gs, needsSpace t (.group .bracket gs) = false) :
    Fragment.text (t :: Fragment.bracketed gs) = t.text ++ argsSource (gs.map Fragment.text) := by
  cases gs with
  | nil => simp [Fragment.bracketed, argsSource]
  | cons g gs =>
    have hbrackets := Fragment.text_cons_cons t (.group .bracket (g :: gs)) []
    rw [gap, if_neg (by simp [ht]), String.append_empty, Fragment.text_singleton,
      text_brackets] at hbrackets
    exact hbrackets

theorem text_term {g : Fragment} (hg : g.Opens) (tilde : Bool) :
    (Fragment.term tilde g).text = (if tilde then "~" else "") ++ g.text := by
  cases tilde with
  | false => simp [Fragment.term]
  | true => exact Fragment.text_cons_glued hg fun _ _ => rfl

/-- The text of parameters and results, whose tokens begin with a parenthesis. -/
structure SignatureText (scope : Scope) (s : Signature) (f : Fragment) : Prop where
  text_eq : f.text = sourceSignature scope s
  parens : ∃ gs ts, f = .group .paren gs :: ts

/-- A word before the parameters of a function is glued to them. -/
theorem SignatureText.text_cons {s : Signature} {f : Fragment} (h : SignatureText scope s f)
    {t : Token} (ht : ∀ gs, needsSpace t (.group .paren gs) = false) :
    Fragment.text (t :: f) = t.text ++ sourceSignature scope s := by
  obtain ⟨gs, ts, rfl⟩ := h.parens
  rw [Fragment.text_cons_cons, h.text_eq, gap, if_neg (by simp [ht gs]), String.append_empty]

theorem texts_entries {variadic : Bool} {bs : List Binding} {gs : List Fragment}
    (h : Entries (Rendered scope fun spread t f => f.text = t.source scope spread) variadic bs gs) :
    gs.map Fragment.text = sourceEntries scope variadic bs := by
  induction h with
  | nil => rfl
  | cons head tail ih =>
    rw [List.map_cons, text_entry head.opens, head.holds, ih, sourceEntries]

theorem texts_results {bs : List Binding} {gs : List Fragment}
    (h : List.Forall₂ (fun b g => Rendered scope (fun spread t f => f.text = t.source scope spread)
      false b.type g) bs gs) :
    gs.map Fragment.text = sourceResults scope bs := by
  induction h with
  | nil => rfl
  | cons head tail ih => rw [List.map_cons, head.holds, ih, sourceResults]

theorem texts_methods {bs : List Binding} {gs : List Fragment}
    (h : List.Forall₂ (fun b f => ∃ s g, b.type = .func s ∧ SignatureText scope s g ∧
      f = .ident b.name :: g) bs gs) :
    gs.map Fragment.text = sourceMethods scope bs := by
  induction h with
  | nil => rfl
  | cons head tail ih =>
    obtain ⟨s, g, hs, hg, rfl⟩ := head
    rw [List.map_cons, hg.text_cons fun _ => rfl, ih, sourceMethods, hs, sourceMethod]
    rfl

theorem texts_args {ts : List TypeExpr} {gs : List Fragment}
    (h : List.Forall₂ (Rendered scope (fun spread t f => f.text = t.source scope spread) false)
      ts gs) :
    gs.map Fragment.text = sourceAll scope ts := by
  induction h with
  | nil => rfl
  | cons head tail ih => rw [List.map_cons, head.holds, ih, sourceAll]

theorem texts_terms {ts : List Term} {gs : List Fragment}
    (h : List.Forall₂ (fun t f => ∃ g,
      Rendered scope (fun spread t f => f.text = t.source scope spread) false t.type g ∧
        f = Fragment.term t.tilde g) ts gs) :
    gs.map Fragment.text = sourceTerms scope ts := by
  induction h with
  | nil => rfl
  | cons head tail ih =>
    obtain ⟨g, hg, rfl⟩ := head
    rw [List.map_cons, text_term hg.opens, hg.holds, ih, sourceTerms]

theorem source_rules (scope : Scope) :
    RenderRules scope (fun spread t f => f.text = t.source scope spread)
      (SignatureText scope) where
  basic _ _ := by rw [Fragment.text_singleton, source, Token.text]
  pointer _ _ _ h := by
    rw [Fragment.text_cons_glued h.opens fun _ _ => rfl, h.holds, source]
    rfl
  slice spread _ _ h := by
    rw [Fragment.text_cons_glued h.opens fun _ _ => by cases spread <;> rfl, h.holds, source]
    cases spread <;> rfl
  array _ _ _ _ h := by
    rw [Fragment.text_cons_glued h.opens fun _ _ => rfl, h.holds, source, text_index,
      Fragment.text_singleton, Token.text]
  map _ key value g g' hk hv := by
    have hindex : Fragment.text (.group .index [g] :: g') = "[" ++ g.text ++ "]" ++ g'.text := by
      rw [Fragment.text_cons_glued hv.opens fun _ _ => rfl, text_index]
    have hmap : "map[" = "map" ++ gap (.keyword "map") (.group .index [g]) ++ "[" := rfl
    rw [Fragment.text_cons_cons, hindex, hk.holds, hv.holds, source, hmap]
    simp only [Token.text, String.append_assoc]
  chan _ dir elem g h := by
    cases dir with
    | both =>
      rw [chanElem, source]
      cases hrecv : elem.isRecvChan with
      | true => exact (text_chan_parens g).trans (by rw [h.holds]; rfl)
      | false => exact (text_chan h.opens).trans (by rw [h.holds]; rfl)
    | recv =>
      have hchan : Fragment.Opens (.keyword "chan" :: g) := .cons _ rfl
      have harrow := Fragment.text_cons_glued hchan (t := .punct .recvArrow) fun _ _ => rfl
      exact harrow.trans (by rw [text_chan h.opens, h.holds, ← String.append_assoc, source]; rfl)
    | send =>
      have harrow := Fragment.text_cons_spaced h.opens (t := .punct .sendArrow) fun _ _ => rfl
      have hchan := Fragment.text_cons_cons (.keyword "chan") (.punct .sendArrow) g
      refine hchan.trans ?_
      rw [harrow, h.holds, source, ← String.append_assoc, ← String.append_assoc]
      rfl
  struct _ fields gs h := by
    rw [Fragment.text_cons_cons, Fragment.text_singleton, text_braces, texts_entries h, source]
    rfl
  signature params results variadic gs gs' h h' := by
    refine ⟨?_, gs, _, rfl⟩
    rw [sourceSignature, ← texts_entries h, ← texts_results h', ← text_parens]
    apply text_resultClause
    exact forall_mem_of_forall₂ h' fun _ _ hb => hb.opens
  func _ s g h := by
    rw [h.text_cons fun _ => rfl, source]
    rfl
  interface _ body gs hnone h := by
    rw [Fragment.text_cons_cons, Fragment.text_singleton, text_braces, texts_methods h, source,
      sourceBody_of_none hnone]
    rfl
  typeSet _ body terms g hterms h := by
    rw [h, source, source, sourceBody_of_some hterms, source]
  named _ ref gs h := by
    rw [source, sourceRef, ← texts_args h, ← text_reference]
    exact text_bracketed gs (needsSpace_reference _ _)
  typeParam _ _ := by rw [Fragment.text_singleton, source, Token.text]
  union _ terms gs h := by
    rw [Fragment.text_singleton, text_pipe, texts_terms h, source]

/-- **The text of the rendered type is its source,** whatever the names in it
are. -/
theorem text_render {scope : Scope} {spread : Bool} {t : TypeExpr} {f : Fragment}
    (h : t.render scope spread = .ok f) : f.text = t.source scope spread :=
  (source_rules scope).render t h

/-- A variadic function of channels of channels, which returns a constraint and a
channel of functions. -/
theorem text_render_channels :
    let scope : Scope := ⟨"example.com/app", ""⟩
    let event : TypeExpr := .named ⟨"Box", "example.com/lib/v2", [.array 4 int, .pointer string]⟩
    let t : TypeExpr := .func
      ⟨[⟨"in", .chan .both (.chan .recv event)⟩, ⟨"rest", .slice (.slice int)⟩],
        [⟨"", constraint [.approx int, .exact (.pointer event)]⟩,
          ⟨"ok", .chan .send (.func .empty)⟩], true⟩
    ∃ f, t.render scope false = .ok f ∧ f.text = t.source scope false ∧
      t.source scope false = "func(in chan (<-chan lib.Box[[4]int, *string]), rest ...[]int) " ++
        "(~int | *lib.Box[[4]int, *string], chan<- func())" := by
  intro scope event t
  have ht : ∃ f, t.render scope false = .ok f := ⟨_, rfl⟩
  obtain ⟨f, hf⟩ := ht
  exact ⟨f, hf, text_render hf, by decide +kernel⟩

end TypeExpr

end GoDecl
