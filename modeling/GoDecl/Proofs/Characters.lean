import GoDecl.Declaration.TypeParams
import GoDecl.Proofs.Conditions

/-!
# The characters of a rendered type

Three things that show in the text of a type alone: whether it begins with a star,
whether it ends with a comma, and whether a comma stands outside of its brackets.  The
first shows in the type as well, through the first terms of unions; a type never ends
with a comma; and its brackets are balanced.

## Main definitions

* `TypeExpr.leadsWithStar`: whether a type is a pointer, or a union that begins with one
* `outerComma`: whether a comma stands outside of the brackets of a text
* `Balanced`: what does not change the depth of what stands behind it

## Main results

* `startsWithStar_of_render`, `head?_text_of_render`: the star at the beginning of a type
* `getLast?_text_of_render`: a type does not end with a comma
* `Fragment.balanced_text`: the text of a fragment is balanced
-/

namespace GoDecl

/-! ### Texts piece by piece -/

section Pieces

variable {Q : List Char → Prop}

/-- What holds of two texts joined and of spaces holds of a token before a fragment. -/
theorem Fragment.cons_induction (nil : Q []) (space : Q [' '])
    (append : ∀ s s', Q s → Q s' → Q (s ++ s')) {t : Token} {f : Fragment}
    (ht : Q t.text.toList) (hf : Q f.text.toList) : Q (Fragment.text (t :: f)).toList := by
  cases f with
  | nil =>
    rw [Fragment.text_singleton]
    exact ht
  | cons u us =>
    have hgap : Q (gap t u).toList := by
      rw [gap]
      split
      · exact space
      · exact nil
    rw [Fragment.text_cons_cons, String.toList_append, String.toList_append]
    exact append _ _ (append _ _ ht hgap) hf

/-- What holds of two texts joined and of a separator holds of texts with separators
between them. -/
theorem intercalate_induction (nil : Q []) (append : ∀ s s', Q s → Q s' → Q (s ++ s'))
    (sep : String) (hsep : Q sep.toList) {texts : List String} (h : ∀ s ∈ texts, Q s.toList) :
    Q (sep.intercalate texts).toList := by
  induction texts with
  | nil => exact nil
  | cons s texts ih =>
    obtain ⟨hs, htexts⟩ := List.forall_mem_cons.mp h
    cases texts with
    | nil => simpa using hs
    | cons s' texts =>
      have hrest := append _ _ hs (append _ _ hsep (ih htexts))
      simpa using hrest

end Pieces

/-! ### The first character -/

namespace TypeExpr

mutual

/-- Whether a type is a pointer, or a union or an interface with a type set whose first
term is one, at any depth. -/
def leadsWithStar : TypeExpr → Bool
  | pointer _ => true
  | interface body => leadsBody body
  | union terms => leadsTerms terms
  | _ => false
termination_by structural t => t

/-- `leadsWithStar` for the type set of an interface. -/
def leadsBody : InterfaceBody → Bool
  | ⟨_, embeds⟩ => leadsFirstUnion embeds
termination_by structural b => b

/-- `leadsWithStar` for the first union among some types. -/
def leadsFirstUnion : List TypeExpr → Bool
  | [] => false
  | union terms :: _ => leadsTerms terms
  | _ :: rest => leadsFirstUnion rest
termination_by structural ts => ts

/-- `leadsWithStar` for the first of some terms. -/
def leadsTerms : List Term → Bool
  | [] => false
  | t :: _ => !t.tilde && leadsWithStar t.type
termination_by structural ts => ts

end

theorem leadsFirstUnion_decided :
    DecidedByUnion leadsFirstUnion fun terms => leadsWithStar (.union terms) where
  union _ _ := rfl
  skip t _ h := by cases t <;> first | rfl | cases h

theorem leadsBody_of_some {body : InterfaceBody} {terms : List Term}
    (h : body.unionTerms? = some terms) : leadsBody body = leadsWithStar (.union terms) := by
  rw [leadsBody]
  exact leadsFirstUnion_decided.of_some h

theorem leadsBody_of_none {body : InterfaceBody} (h : body.unionTerms? = none) :
    leadsBody body = false := by
  rw [leadsBody]
  exact leadsFirstUnion_decided.of_none h

variable {scope : Scope}

theorem startsWithStar_rules (scope : Scope) :
    RenderRules scope (fun _ t f => Fragment.startsWithStar f = t.leadsWithStar)
      (fun _ _ => True) where
  basic _ _ := rfl
  pointer _ _ _ _ := rfl
  slice spread _ _ _ := by cases spread <;> rfl
  array _ _ _ _ _ := rfl
  map _ _ _ _ _ _ _ := rfl
  chan _ dir _ _ _ := by cases dir <;> rfl
  struct _ _ _ _ := rfl
  signature _ _ _ _ _ _ _ := trivial
  func _ _ _ _ := rfl
  interface _ body _ hnone _ := by
    rw [leadsWithStar, leadsBody_of_none hnone]
    rfl
  typeSet _ body _ _ hterms h := by
    rw [h, leadsWithStar, leadsWithStar, leadsBody_of_some hterms, leadsWithStar]
  named _ ref _ _ := by
    rw [Scope.reference]
    split <;> rfl
  typeParam _ _ := rfl
  union _ terms gs h := by
    cases h with
    | nil => rfl
    | @cons t f ts gs head tail =>
      obtain ⟨g, hg, rfl⟩ := head
      rw [leadsWithStar, leadsTerms]
      cases t.tilde with
      | false => exact hg.holds
      | true => rfl

/-- **The star at the beginning of a type** shows in the type, through the first terms of
unions. -/
theorem startsWithStar_of_render {spread : Bool} {t : TypeExpr} {f : Fragment}
    (h : t.render scope spread = .ok f) : Fragment.startsWithStar f = t.leadsWithStar :=
  (startsWithStar_rules scope).render t h

/-- Whether a fragment begins with a star shows in its text. -/
abbrev StarShows (f : Fragment) : Prop :=
  f.text.toList.head? = some '*' ↔ Fragment.startsWithStar f = true

theorem head?_text_cons {t : Token} {c : Char} (h : t.text.toList.head? = some c) (f : Fragment) :
    (Fragment.text (t :: f)).toList.head? = some c := by
  rw [Fragment.text_cons, String.toList_append, List.head?_append, h]
  rfl

/-- A token that begins with another character. -/
theorem starShows_cons {t : Token} (h : t.text.toList.head?.any (· ≠ '*') = true)
    (ht : t.startsWithStar = false) (f : Fragment) : StarShows (t :: f) := by
  obtain ⟨c, hhead, hc⟩ := (Option.any_eq_true _ _).mp h
  rw [StarShows, head?_text_cons hhead, Fragment.startsWithStar, ht]
  simpa using hc

theorem starShows_ident {name : String} (h : isWord name = true) (f : Fragment) :
    StarShows (.ident name :: f) := by
  obtain ⟨c, cs, hword, hc⟩ := exists_head_of_isWord h
  have hne : c ≠ '*' := by
    rintro rfl
    cases hc
  apply starShows_cons ?_ rfl
  simp [Token.text, hword, hne]

theorem starShows_index (items : List Fragment) (f : Fragment) :
    StarShows (.group .index items :: f) := by
  apply starShows_cons ?_ rfl
  obtain ⟨padding, -, htext⟩ := Token.toList_text_group .index items
  rw [htext]
  simp [Delim.opening]

theorem starShows_reference {path name : String} (h : isWord name = true) (f : Fragment) :
    StarShows (scope.reference path name :: f) := by
  rw [Scope.reference]
  split
  · obtain ⟨c, cs, hpackage, hc⟩ := exists_head_of_isWord (isWord_packageName path)
    have hne : c ≠ '*' := by
      rintro rfl
      cases hc
    apply starShows_cons ?_ rfl
    simp [Token.text, hpackage, hne]
  · exact starShows_ident h f

/-- A union begins with its first term; before a separator there is no star. -/
theorem starShows_union {gs : List Fragment} (h : ∀ g ∈ gs.head?, StarShows g) :
    StarShows [.group .pipe gs] := by
  have htext : (Fragment.text [.group .pipe gs]) = " | ".intercalate (gs.map Fragment.text) := by
    rw [Fragment.text_singleton, Token.text_group, Delim.enclose]
    simp [Delim.opening, Delim.closing, Delim.padding, Delim.separator]
  rw [StarShows, htext, Fragment.startsWithStar, Token.startsWithStar]
  cases gs with
  | nil => simp [Fragment.firstStartsWithStar]
  | cons g gs =>
    have hg : g.text.toList.head? = some '*' ↔ Fragment.startsWithStar g = true := h g rfl
    rw [Fragment.firstStartsWithStar, ← hg]
    cases gs with
    | nil => simp
    | cons g' gs =>
      cases hhead : g.text.toList.head? with
      | none => simp [List.head?_append, hhead]
      | some c => simp [List.head?_append, hhead]

theorem starShows_rules (scope : Scope) :
    RenderRules scope (Under namesAreWords fun _ _ f => StarShows f)
      (fun _ _ => True) where
  basic _ _ h := starShows_ident h []
  pointer _ _ g _ _ := by
    show StarShows (.punct .star :: g)
    rw [StarShows, head?_text_cons (c := '*') rfl]
    exact ⟨fun _ => rfl, fun _ => rfl⟩
  slice spread _ g _ _ := by
    cases spread
    · exact starShows_cons rfl rfl g
    · exact starShows_cons rfl rfl g
  array _ _ _ g _ _ := starShows_index _ g
  map _ _ _ _ _ _ _ _ := starShows_cons rfl rfl _
  chan _ dir _ _ _ _ := by
    cases dir
    · exact starShows_cons rfl rfl _
    · exact starShows_cons rfl rfl _
    · exact starShows_cons rfl rfl _
  struct _ _ _ _ _ := starShows_cons rfl rfl _
  signature _ _ _ _ _ _ _ := trivial
  func _ _ _ _ _ := starShows_cons rfl rfl _
  interface _ _ _ _ _ _ := starShows_cons rfl rfl _
  typeSet _ _ _ _ hterms hg h := by
    have hbody := (Bool.and_eq_true_iff.mp h).2
    rw [allBody_of_some hterms] at hbody
    exact hg hbody
  named _ ref _ _ h := by
    obtain ⟨name, path, args⟩ := ref
    exact starShows_reference (Bool.and_eq_true_iff.mp h).1 _
  typeParam _ _ h := starShows_ident h []
  union _ terms gs hgs h := by
    apply starShows_union
    intro g hg
    cases Under.terms hgs (Bool.and_eq_true_iff.mp h).2 with
    | nil => cases hg
    | @cons t f ts gs head tail =>
      obtain ⟨g', hg', rfl⟩ := head
      cases hg
      cases t.tilde with
      | false => exact hg'.holds
      | true => exact starShows_cons rfl rfl g'

/-- **The text of a type begins with a star** exactly when its tokens do. -/
theorem head?_text_of_render {spread : Bool} {t : TypeExpr} {f : Fragment}
    (h : t.render scope spread = .ok f) (ht : t.all namesAreWords = true) :
    f.text.toList.head? = some '*' ↔ Fragment.startsWithStar f = true :=
  (starShows_rules scope).render t h ht

end TypeExpr

/-! ### The last character -/

/-- Whether some characters do not end with a comma. -/
abbrev EndsPlain (s : List Char) : Prop :=
  s.getLast? ≠ some ','

namespace EndsPlain

theorem nil : EndsPlain [] := by
  intro h
  cases h

theorem append {s s' : List Char} (h : EndsPlain s) (h' : EndsPlain s') : EndsPlain (s ++ s') := by
  rw [EndsPlain, List.getLast?_append]
  cases hlast : s'.getLast? with
  | none => exact h
  | some c =>
    rw [EndsPlain, hlast] at h'
    exact h'

theorem append_singleton (s : List Char) {c : Char} (hc : c ≠ ',') : EndsPlain (s ++ [c]) := by
  rw [EndsPlain, List.getLast?_concat]
  exact fun h => hc (Option.some.inj h)

theorem of_isWord {w : String} (h : isWord w = true) : EndsPlain w.toList := by
  intro hlast
  have hchar := (isWord_iff.mp h).2 ',' (List.mem_of_getLast? hlast)
  cases hchar

end EndsPlain

/-- A group with a delimiter at its end does not end with a comma. -/
theorem Token.endsPlain_group {d : Delim} {items : List Fragment}
    (hclosed : (Token.group d items).isClosed = true) :
    EndsPlain (Token.group d items).text.toList := by
  obtain ⟨padding, -, htext⟩ := Token.toList_text_group d items
  have hclosing : ∃ c, d.closing.toList = [c] ∧ c ≠ ',' := by
    cases d with
    | pipe => cases hclosed
    | _ => exact ⟨_, rfl, by decide⟩
  obtain ⟨c, hclosing, hc⟩ := hclosing
  simp only [htext, String.toList_append, hclosing, ← List.append_assoc]
  exact .append_singleton _ hc

namespace TypeExpr

variable {scope : Scope}

theorem endsPlain_reference {path name : String} (h : isWord name = true) :
    EndsPlain (scope.reference path name).text.toList := by
  rw [Scope.reference]
  split
  · simp only [Token.text, String.toList_append]
    exact .append (.append (.of_isWord (isWord_packageName path)) (by decide)) (.of_isWord h)
  · exact .of_isWord h

theorem endsPlain_cons {t : Token} {f : Fragment} (ht : EndsPlain t.text.toList)
    (hf : EndsPlain f.text.toList) : EndsPlain (Fragment.text (t :: f)).toList :=
  Fragment.cons_induction .nil (by decide) (fun _ _ => .append) ht hf

theorem endsPlain_keyword {word : String} (h : isWord word = true) {f : Fragment}
    (hf : EndsPlain f.text.toList) : EndsPlain (Fragment.text (.keyword word :: f)).toList :=
  endsPlain_cons (.of_isWord h) hf

theorem endsPlain_singleton {t : Token} (ht : EndsPlain t.text.toList) :
    EndsPlain (Fragment.text [t]).toList := by
  rw [Fragment.text_singleton]
  exact ht

theorem endsPlain_term {g : Fragment} (hg : EndsPlain g.text.toList) (tilde : Bool) :
    EndsPlain (Fragment.term tilde g).text.toList := by
  cases tilde with
  | false => exact hg
  | true => exact endsPlain_cons (by decide) hg

theorem endsPlain_rules (scope : Scope) :
    RenderRules scope (Under namesAreWords fun _ _ f => EndsPlain f.text.toList)
      (fun s f => (TypeExpr.func s).all namesAreWords = true → EndsPlain f.text.toList) where
  basic _ _ h := endsPlain_singleton (.of_isWord h)
  pointer _ _ _ hg h := endsPlain_cons (by decide) (hg.holds (Bool.and_eq_true_iff.mp h).2)
  slice spread _ _ hg h := by
    apply endsPlain_cons
    · cases spread <;> decide
    · exact hg.holds (Bool.and_eq_true_iff.mp h).2
  array _ _ _ _ hg h :=
    endsPlain_cons (Token.endsPlain_group rfl) (hg.holds (Bool.and_eq_true_iff.mp h).2)
  map _ _ _ _ _ _ hv h := by
    have hvalue := (Bool.and_eq_true_iff.mp (Bool.and_eq_true_iff.mp h).2).2
    apply endsPlain_keyword rfl
    exact endsPlain_cons (Token.endsPlain_group rfl) (hv.holds hvalue)
  chan _ dir elem g hg h := by
    have helem : EndsPlain (Fragment.text (chanElem dir elem g)).toList := by
      rw [chanElem]
      split
      · exact endsPlain_singleton (Token.endsPlain_group rfl)
      · exact hg.holds (Bool.and_eq_true_iff.mp h).2
    cases dir with
    | both => exact endsPlain_keyword rfl helem
    | send => exact endsPlain_keyword rfl (endsPlain_cons (by decide) helem)
    | recv => exact endsPlain_cons (by decide) (endsPlain_keyword rfl helem)
  struct _ _ _ _ _ :=
    endsPlain_keyword rfl (endsPlain_singleton (Token.endsPlain_group rfl))
  signature params results variadic gs gs' _ hgs' h := by
    have hresults := (Bool.and_eq_true_iff.mp (Bool.and_eq_true_iff.mp h).2).2
    apply endsPlain_cons (Token.endsPlain_group rfl)
    cases Under.results hgs' hresults with
    | nil => exact .nil
    | cons head tail =>
      cases tail with
      | nil => exact head.holds
      | cons head' tail' => exact endsPlain_singleton (Token.endsPlain_group rfl)
  func _ _ _ hg h := endsPlain_keyword rfl (hg h)
  interface _ _ _ _ _ _ :=
    endsPlain_keyword rfl (endsPlain_singleton (Token.endsPlain_group rfl))
  typeSet _ _ _ _ hterms hg h := by
    have hbody := (Bool.and_eq_true_iff.mp h).2
    rw [allBody_of_some hterms] at hbody
    exact hg hbody
  named _ ref gs _ h := by
    obtain ⟨name, path, args⟩ := ref
    apply endsPlain_cons (endsPlain_reference (Bool.and_eq_true_iff.mp h).1)
    cases gs with
    | nil => exact .nil
    | cons g gs => exact endsPlain_singleton (Token.endsPlain_group rfl)
  typeParam _ _ h := endsPlain_singleton (.of_isWord h)
  union _ terms gs hgs h := by
    have hterms : ∀ g ∈ gs, EndsPlain (Fragment.text g).toList := by
      refine forall_mem_of_forall₂ (Under.terms hgs (Bool.and_eq_true_iff.mp h).2) ?_
      rintro t f ⟨g, hg, rfl⟩
      exact endsPlain_term hg.holds _
    have hitems := intercalate_induction .nil (fun _ _ => .append) Delim.pipe.separator
      (by decide) (List.forall_mem_map.mpr hterms)
    show EndsPlain (Fragment.text [.group .pipe gs]).toList
    rw [Fragment.text_singleton, Token.text_group, Delim.enclose]
    simpa [Delim.opening, Delim.closing, Delim.padding] using hitems

/-- **A type does not end with a comma.** -/
theorem getLast?_text_of_render {spread : Bool} {t : TypeExpr} {f : Fragment}
    (h : t.render scope spread = .ok f) (ht : t.all namesAreWords = true) :
    f.text.toList.getLast? ≠ some ',' :=
  (endsPlain_rules scope).render t h ht

end TypeExpr

/-! ### Commas and brackets -/

/-- Whether a character opens a bracket. -/
def opensBracket (c : Char) : Bool :=
  c = '(' || c = '[' || c = '\x7b'

/-- Whether a character closes a bracket. -/
def closesBracket (c : Char) : Bool :=
  c = ')' || c = ']' || c = '\x7d'

/-- Whether a comma stands in some characters outside of the brackets that open in them,
before they close more than the `depth` brackets that are open at their beginning. -/
def outerComma : Nat → List Char → Bool
  | _, [] => false
  | depth, c :: cs =>
    if opensBracket c then outerComma (depth + 1) cs
    else if closesBracket c then depth ≠ 0 && outerComma (depth - 1) cs
    else (c = ',' && depth = 0) || outerComma depth cs

/-- Some characters that leave the depth of what stands behind them as it is. -/
def Balanced (s : List Char) : Prop :=
  ∀ depth cs, outerComma depth (s ++ cs) = (outerComma depth s || outerComma depth cs)

namespace Balanced

variable {s s' : List Char}

theorem nil : Balanced [] := by
  intro depth cs
  rw [List.nil_append, outerComma, Bool.false_or]

theorem append (h : Balanced s) (h' : Balanced s') : Balanced (s ++ s') := by
  intro depth cs
  rw [List.append_assoc, h, h', h, Bool.or_assoc]

theorem cons {c : Char} (hopen : opensBracket c = false) (hclose : closesBracket c = false)
    (h : Balanced s) : Balanced (c :: s) := by
  intro depth cs
  simp only [List.cons_append, outerComma, hopen, hclose, Bool.false_eq_true, if_false,
    h depth cs, Bool.or_assoc]

/-- Brackets around balanced characters. -/
theorem enclose {l r : Char} (hl : opensBracket l = true) (hr : closesBracket r = true)
    (h : Balanced s) : Balanced (l :: (s ++ [r])) := by
  have hr' : opensBracket r = false := by
    simp only [closesBracket, Bool.or_eq_true, decide_eq_true_eq] at hr
    rcases hr with (rfl | rfl) | rfl <;> rfl
  have hclosing : ∀ depth cs, outerComma (depth + 1) (r :: cs) = outerComma depth cs := by
    intro depth cs
    simp [outerComma, hr, hr']
  intro depth cs
  rw [List.cons_append, List.append_assoc, outerComma, if_pos hl, h, List.singleton_append,
    hclosing, outerComma, if_pos hl, h, hclosing, outerComma, Bool.or_false]

theorem of_all (h : (s.all fun c => !opensBracket c && !closesBracket c) = true) : Balanced s := by
  induction s with
  | nil => exact nil
  | cons c s ih =>
    obtain ⟨hc, hs⟩ := Bool.and_eq_true_iff.mp h
    obtain ⟨hopen, hclose⟩ := Bool.and_eq_true_iff.mp hc
    exact cons (by simpa using hopen) (by simpa using hclose) (ih hs)

theorem of_isWord {w : String} (h : isWord w = true) : Balanced w.toList := by
  apply of_all
  rw [List.all_eq_true]
  intro c hc
  have hchar := (isWord_iff.mp h).2 c hc
  cases hopen : opensBracket c with
  | true =>
    simp only [opensBracket, Bool.or_eq_true, decide_eq_true_eq] at hopen
    rcases hopen with (rfl | rfl) | rfl <;> cases hchar
  | false =>
    cases hclose : closesBracket c with
    | true =>
      simp only [closesBracket, Bool.or_eq_true, decide_eq_true_eq] at hclose
      rcases hclose with (rfl | rfl) | rfl <;> cases hchar
    | false => rfl

theorem group {d : Delim} {padding : String} (hpadding : padding = "" ∨ padding = d.padding)
    (h : Balanced s) :
    Balanced ((d.opening ++ padding).toList ++ (s ++ (padding ++ d.closing).toList)) := by
  have hspaced : Balanced (padding.toList ++ (s ++ padding.toList)) := by
    have hspace : Balanced padding.toList := by
      rcases hpadding with rfl | rfl
      · exact nil
      · exact of_all (by cases d <;> rfl)
    exact hspace.append (h.append hspace)
  rw [String.toList_append, String.toList_append, List.append_assoc, ← List.append_assoc s,
    ← List.append_assoc padding.toList]
  cases d with
  | pipe =>
    simpa [Delim.opening, Delim.closing] using hspaced
  | _ => exact enclose rfl rfl hspaced

end Balanced

mutual

theorem Token.balanced_text : ∀ t : Token, t.Worded → Balanced t.text.toList
  | .ident _, h => .of_isWord h
  | .keyword _, h => .of_isWord h
  | .qualified path name, h => by
    rw [Token.text, String.toList_append, String.toList_append]
    exact .append (.append (.of_isWord (isWord_packageName path)) (.of_all rfl))
      (.of_isWord h)
  | .punct m, _ => by
    cases m with
    | brackets => exact .enclose rfl rfl .nil
    | _ => exact .of_all rfl
  | .group d items, h => by
    obtain ⟨padding, hpadding, htext⟩ := Token.toList_text_group d items
    rw [htext]
    apply Balanced.group hpadding
    apply intercalate_induction .nil (fun _ _ => .append) d.separator
    · exact .of_all (by cases d <;> rfl)
    · exact List.forall_mem_map.mpr (Fragment.balanced_texts items h)

/-- **The text of a fragment is balanced.** -/
theorem Fragment.balanced_text : ∀ ts : List Token, Fragment.Worded ts →
    Balanced (Fragment.text ts).toList
  | [], _ => .nil
  | t :: ts, h =>
    Fragment.cons_induction .nil (.of_all rfl) (fun _ _ => .append)
      (Token.balanced_text t h.1) (Fragment.balanced_text ts h.2)

theorem Fragment.balanced_texts : ∀ items : List (List Token), Fragment.WordedItems items →
    ∀ f ∈ items, Balanced (Fragment.text f).toList
  | [], _, f, hf => by cases hf
  | item :: items, h, f, hf => by
    rcases List.mem_cons.mp hf with hitem | hf
    · exact hitem ▸ Fragment.balanced_text item h.1
    · exact Fragment.balanced_texts items h.2 f hf

end

end GoDecl
