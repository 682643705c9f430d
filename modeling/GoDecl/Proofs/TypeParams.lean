import GoDecl.Proofs.Characters
import GoDecl.Proofs.Source

/-!
# Type parameters and array lengths

The clause `[T *C]` could be read as an array length, the product of `T` and `C`.  It has
a comma behind its only name in just this case, so a clause that begins with a name and
a star always has a comma between its own brackets.

## Main definitions

* `TypeParamGroup.isWorded`: whether a group declares names, and its names are words

## Main results

* `text_of_renderGroup`: the text of a group of type parameters
* `comma_suffix_of_clause`: when a clause ends with a comma
* `outerComma_of_clause`: a clause that begins with a name and a star has a comma
-/

namespace GoDecl

/-- Whether a group declares names, and every name in it is a word. -/
def TypeParamGroup.isWorded (g : TypeParamGroup) : Bool :=
  !g.names.isEmpty && g.names.all isWord && g.constraint.all TypeExpr.namesAreWords

namespace TypeParams

variable {scope : Scope}

/-! ### The text of a group -/

theorem text_nameList {g : Fragment} (hg : g.Opens) {names : List String} (hnames : names ≠ []) :
    Fragment.text (Fragment.nameList names ++ g) = ", ".intercalate names ++ " " ++ g.text := by
  induction names with
  | nil => exact absurd rfl hnames
  | cons name names ih =>
    cases names with
    | nil =>
      rw [String.intercalate_singleton]
      exact TypeExpr.text_ident_cons hg name
    | cons name' names =>
      have hopens : (Fragment.nameList (name' :: names) ++ g).Opens := by
        cases names <;> exact .cons _ rfl
      have hgap : gap (.ident name) (.punct .comma) = "" := rfl
      rw [Fragment.nameList_cons_cons, List.cons_append, List.cons_append, Fragment.text_cons_cons,
        hgap, Fragment.text_cons_spaced hopens (t := .punct .comma) (fun _ _ => rfl),
        ih (List.cons_ne_nil _ _), String.intercalate_cons_cons]
      simp [Token.text, Punct.text, String.append_assoc]

/-- What stands behind the constraint of a group: a comma behind the only name of the
clause if the constraint begins with a star. -/
inductive Trailing (lone : Bool) (c : Fragment) : String → Prop
  | comma (space : String) (hspace : space = "" ∨ space = " ") (hlone : lone = true)
      (hstar : Fragment.startsWithStar c = true) : Trailing lone c (space ++ ",")
  | none (h : (lone && Fragment.startsWithStar c) = false) : Trailing lone c ""

/-- **The text of a group of type parameters:** names, their constraint, and perhaps a
comma. -/
theorem text_of_renderGroup {lone : Bool} {g : TypeParamGroup} {item : Fragment}
    (h : g.render scope lone = .ok item) (hnames : g.names ≠ []) :
    ∃ c tail, g.constraint.render scope false = .ok c ∧ Trailing lone c tail ∧
      item.text = ", ".intercalate g.names ++ " " ++ c.text ++ tail := by
  simp only [TypeParamGroup.render, bind_eq_ok_iff, pure_eq_ok_iff] at h
  obtain ⟨c, hc, rfl⟩ := h
  have htext := text_nameList (opens_of_render hc) hnames
  cases hcomma : lone && Fragment.startsWithStar c with
  | false =>
    refine ⟨c, "", hc, .none hcomma, ?_⟩
    rw [if_neg Bool.false_ne_true, List.append_nil, htext, String.append_empty]
  | true =>
    obtain ⟨hlone, hstar⟩ := Bool.and_eq_true_iff.mp hcomma
    obtain ⟨s, f, hlist⟩ : ∃ s f, Fragment.nameList g.names ++ c = s :: f := by
      obtain ⟨u, us, rfl, -⟩ := opens_of_render hc
      exact List.exists_cons_of_ne_nil (by simp)
    refine ⟨c, gap (f.getLastD s) (.punct .comma) ++ ",", hc, ?_, ?_⟩
    · refine .comma _ ?_ hlone hstar
      rw [gap]
      split
      · exact .inr rfl
      · exact .inl rfl
    · rw [if_pos rfl, hlist, Fragment.text_append, ← hlist, htext, Fragment.text_singleton,
        Token.text, Punct.text]
      simp only [String.append_assoc]

/-! ### The clause -/

/-- A clause with parameters has its groups in brackets. -/
theorem text_of_clause {ps : TypeParams} {f : Fragment} (hne : ps ≠ [])
    (h : clause scope ps = .ok f) :
    ∃ items, List.Forall₂ (fun g i => TypeParamGroup.render scope (isLone ps) g = .ok i) ps items ∧
      f.text = "[" ++ ", ".intercalate (items.map Fragment.text) ++ "]" := by
  simp only [clause, bind_eq_ok_iff, pure_eq_ok_iff] at h
  obtain ⟨items, hitems, rfl⟩ := h
  have hgroups := forall₂_of_mapM hitems
  refine ⟨items, hgroups, ?_⟩
  cases hgroups with
  | nil => exact absurd rfl hne
  | cons head tail =>
    rw [Fragment.bracketed, Fragment.text_singleton, TypeExpr.text_brackets]
    simp

theorem isLone_iff {ps : TypeParams} (hps : ∀ g ∈ ps, g.names ≠ []) :
    isLone ps = true ↔ ps.names.length = 1 := by
  match ps, hps with
  | [], _ => simp [isLone, names]
  | [g], _ => simp [isLone, names]
  | g :: g' :: ps, hps =>
    have hg := List.length_pos_iff.mpr (hps g List.mem_cons_self)
    have hg' := List.length_pos_iff.mpr (hps g' (List.mem_cons_of_mem g List.mem_cons_self))
    simp only [isLone, names, List.flatMap_cons, List.length_append, Bool.false_eq_true, false_iff]
    omega

/-- A text in brackets ends with a comma before the closing bracket when the text between
the brackets does. -/
theorem comma_suffix_iff (s : String) :
    ",]".toList <:+ ("[" ++ s ++ "]").toList ↔ s.toList.getLast? = some ',' := by
  have htext : ("[" ++ s ++ "]").toList = '[' :: s.toList ++ [']'] := by simp
  rw [htext]
  constructor
  · rintro ⟨pre, hpre⟩
    have hinit : pre ++ [','] = '[' :: s.toList := by
      have hclosed : (pre ++ [',']) ++ [']'] = ('[' :: s.toList) ++ [']'] := by
        simpa using hpre
      exact List.append_cancel_right hclosed
    have hlast : ('[' :: s.toList).getLast? = some ',' := by
      rw [← hinit, List.getLast?_concat]
    cases hs : s.toList with
    | nil =>
      rw [hs] at hlast
      cases hlast
    | cons c cs => rwa [hs, List.getLast?_cons_cons] at hlast
  · intro hlast
    obtain ⟨init, hinit⟩ := List.getLast?_eq_some_iff.mp hlast
    exact ⟨'[' :: init, by simp [hinit]⟩

/-! ### Groups whose names are words -/

section Worded

variable {lone : Bool} {g : TypeParamGroup} {item : Fragment}

theorem names_ne_nil_of_isWorded (hg : g.isWorded = true) : g.names ≠ [] := by
  simp only [TypeParamGroup.isWorded, Bool.and_eq_true, Bool.not_eq_true'] at hg
  exact List.isEmpty_eq_false_iff.mp hg.1.1

theorem isWord_of_mem_names (hg : g.isWorded = true) {name : String} (h : name ∈ g.names) :
    isWord name = true := by
  simp only [TypeParamGroup.isWorded, Bool.and_eq_true, List.all_eq_true] at hg
  exact hg.1.2 name h

theorem constraint_of_isWorded (hg : g.isWorded = true) :
    g.constraint.all TypeExpr.namesAreWords = true :=
  (Bool.and_eq_true_iff.mp hg).2

/-- A group ends with a comma if it is the only one, has one name, and its constraint
begins with a star. -/
theorem getLast?_item_iff (hg : g.isWorded = true) (h : g.render scope lone = .ok item) :
    item.text.toList.getLast? = some ',' ↔
      lone = true ∧ ∃ c, g.constraint.render scope false = .ok c ∧
        c.text.toList.head? = some '*' := by
  have hwords := constraint_of_isWorded hg
  obtain ⟨c, tail, hc, htail, htext⟩ := text_of_renderGroup h (names_ne_nil_of_isWorded hg)
  have hstar := TypeExpr.head?_text_of_render hc hwords
  rw [htext]
  cases htail with
  | comma space hspace hlone hstarts =>
    constructor
    · intro _
      exact ⟨hlone, c, hc, hstar.mpr hstarts⟩
    · intro _
      simp [← List.append_assoc]
  | none hnone =>
    have hplain : EndsPlain (", ".intercalate g.names ++ " " ++ c.text).toList := by
      rw [String.toList_append, String.toList_append]
      refine .append ?_ (TypeExpr.getLast?_text_of_render hc hwords)
      exact .append_singleton _ (by decide)
    rw [String.append_empty]
    refine ⟨fun hlast => absurd hlast hplain, ?_⟩
    rintro ⟨hlone, c', hc', hstar'⟩
    cases hc.symm.trans hc'
    rw [hlone, hstar.mp hstar'] at hnone
    cases hnone

theorem endsPlain_items {ps : TypeParams} {items : List Fragment}
    (hps : ∀ g ∈ ps, g.isWorded = true)
    (h : List.Forall₂ (fun g i => TypeParamGroup.render scope false g = .ok i) ps items) :
    ∀ i ∈ items, EndsPlain i.text.toList := by
  induction h with
  | nil =>
    intro i hi
    cases hi
  | cons head tail ih =>
    obtain ⟨hg, hps⟩ := List.forall_mem_cons.mp hps
    refine List.forall_mem_cons.mpr ⟨?_, ih hps⟩
    intro hlast
    exact absurd ((getLast?_item_iff hg head).mp hlast).1 Bool.false_ne_true

theorem balanced_names_constraint (hg : g.isWorded = true) {c : Fragment}
    (hc : g.constraint.render scope false = .ok c) :
    Balanced (", ".intercalate g.names ++ " " ++ c.text).toList := by
  have hnames : Balanced (", ".intercalate g.names).toList := by
    apply intercalate_induction .nil (fun _ _ => .append) ", " (.of_all rfl)
    exact fun name hname => .of_isWord (isWord_of_mem_names hg hname)
  have hconstraint := Fragment.balanced_text c
    (TypeExpr.worded_of_render hc (constraint_of_isWorded hg))
  rw [String.toList_append, String.toList_append]
  exact (hnames.append (.of_all rfl)).append hconstraint

theorem balanced_space {space : String} (h : space = "" ∨ space = " ") :
    Balanced space.toList := by
  rcases h with rfl | rfl
  · exact .nil
  · exact .of_all rfl

theorem balanced_item (hg : g.isWorded = true) (h : g.render scope lone = .ok item) :
    Balanced item.text.toList := by
  obtain ⟨c, tail, hc, htail, htext⟩ := text_of_renderGroup h (names_ne_nil_of_isWorded hg)
  rw [htext, String.toList_append]
  apply (balanced_names_constraint hg hc).append
  cases htail with
  | comma space hspace _ _ =>
    rw [String.toList_append]
    exact (balanced_space hspace).append (.of_all rfl)
  | none _ => exact .nil

end Worded

/-! ### The comma at the depth of the clause -/

theorem outerComma_append {s : List Char} (h : Balanced s) (cs : List Char) :
    outerComma 0 (s ++ ',' :: cs) = true := by
  have hcomma : outerComma 0 (',' :: cs) = true := rfl
  rw [h, hcomma, Bool.or_true]

/-- A word before a space is the same in two readings of a text. -/
theorem eq_of_word_space {w w' : List Char} (hw : ' ' ∉ w) (hw' : ' ' ∉ w') {s s' : List Char}
    (h : w ++ ' ' :: s = w' ++ ' ' :: s') : s = s' := by
  induction w generalizing w' with
  | nil =>
    cases w' with
    | nil => exact (List.cons.inj h).2
    | cons c w' => exact absurd ((List.cons.inj h).1 ▸ List.mem_cons_self) hw'
  | cons c w ih =>
    cases w' with
    | nil => exact absurd ((List.cons.inj h).1 ▸ List.mem_cons_self) hw
    | cons c' w' =>
      exact ih (fun hmem => hw (List.mem_cons_of_mem c hmem))
        (fun hmem => hw' (List.mem_cons_of_mem c' hmem)) (List.cons.inj h).2

theorem space_notMem_of_isWord {w : String} (h : isWord w = true) : ' ' ∉ w.toList := by
  intro hmem
  exact absurd ((isWord_iff.mp h).2 ' ' hmem) (by decide)

/-- A single group that begins with a name and a star has a comma outside of its
brackets, between its names or behind its constraint. -/
theorem outerComma_item {g : TypeParamGroup} {item : Fragment} (hg : g.isWorded = true)
    (h : g.render scope (isLone [g]) = .ok item) {name : String} (hname : isWord name = true)
    (cs : List Char) (htext : item.text.toList ++ [']'] = name.toList ++ ' ' :: '*' :: cs) :
    outerComma 0 (item.text.toList ++ [']']) = true := by
  obtain ⟨c, tail, hc, htail, hitem⟩ := text_of_renderGroup h (names_ne_nil_of_isWorded hg)
  obtain ⟨n, ns, hns⟩ := List.exists_cons_of_ne_nil (names_ne_nil_of_isWorded hg)
  have hn : isWord n = true := isWord_of_mem_names hg (hns ▸ List.mem_cons_self)
  cases ns with
  | cons n' ns =>
    rw [hitem, hns, String.intercalate_cons_cons]
    simpa using outerComma_append (Balanced.of_isWord hn) _
  | nil =>
    have hlone : isLone [g] = true := by simp [isLone, hns]
    cases htail with
    | comma space hspace _ _ =>
      have hbalanced := (balanced_names_constraint hg hc).append (balanced_space hspace)
      have houter := outerComma_append hbalanced [']']
      rw [hitem]
      simpa using houter
    | none hnone =>
      rw [hlone, Bool.true_and] at hnone
      have hconstraint : c.text.toList ++ [']'] = '*' :: cs := by
        apply eq_of_word_space (space_notMem_of_isWord hn) (space_notMem_of_isWord hname)
        rw [← htext, hitem, hns]
        simp
      have hstar : c.text.toList.head? = some '*' := by
        cases hchars : c.text.toList with
        | nil =>
          rw [hchars] at hconstraint
          cases hconstraint
        | cons c' cs' =>
          rw [hchars] at hconstraint
          rw [(List.cons.inj hconstraint).1]
          rfl
      rw [(TypeExpr.head?_text_of_render hc (constraint_of_isWorded hg)).mp hstar] at hnone
      cases hnone

/-- **A clause that begins with a name and a star** has a comma between its brackets. -/
theorem outerComma_of_clause {ps : TypeParams} {f : Fragment} (hne : ps ≠ [])
    (hps : ∀ g ∈ ps, g.isWorded = true) (h : clause scope ps = .ok f) {name rest : String}
    (hname : isWord name = true) (htext : f.text = "[" ++ name ++ " *" ++ rest ++ "]") :
    outerComma 0 (name ++ " *" ++ rest ++ "]").toList = true := by
  obtain ⟨items, hitems, hclause⟩ := text_of_clause hne h
  have hinner : (", ".intercalate (items.map Fragment.text)).toList ++ [']'] =
      (name ++ " *" ++ rest ++ "]").toList := by
    have hbrackets := congrArg String.toList (hclause.symm.trans htext)
    simpa using hbrackets
  cases hitems with
  | nil => exact absurd rfl hne
  | @cons g item ps items head tail =>
    have hg := hps g List.mem_cons_self
    cases tail with
    | @cons g' item' ps items head' tail' =>
      rw [← hinner]
      simpa using outerComma_append (balanced_item hg head) _
    | nil =>
      rw [List.map_singleton, String.intercalate_singleton] at hinner
      have houter := outerComma_item hg head hname (rest.toList ++ [']']) (by rw [hinner]; simp)
      rwa [hinner] at houter

/-- A clause ends with a comma and a bracket if it has one name, whose constraint begins
with a star. -/
theorem comma_suffix_of_clause {ps : TypeParams} {f : Fragment} (hne : ps ≠ [])
    (hps : ∀ g ∈ ps, g.isWorded = true) (h : clause scope ps = .ok f) :
    ",]".toList <:+ f.text.toList ↔ ps.names.length = 1 ∧
      ∃ g ∈ ps, ∃ c, g.constraint.render scope false = .ok c ∧
        c.text.toList.head? = some '*' := by
  obtain ⟨items, hitems, hclause⟩ := text_of_clause hne h
  rw [hclause, comma_suffix_iff, ← isLone_iff fun g hg => names_ne_nil_of_isWorded (hps g hg)]
  cases hlone : isLone ps with
  | true =>
    match ps, hitems with
    | [g], .cons head .nil =>
      rw [hlone] at head
      rw [List.map_singleton, String.intercalate_singleton,
        getLast?_item_iff (hps g List.mem_cons_self) head]
      simp
  | false =>
    rw [hlone] at hitems
    have hplain : ∀ s ∈ items.map Fragment.text, EndsPlain s.toList :=
      List.forall_mem_map.mpr (endsPlain_items hps hitems)
    have hinner := intercalate_induction .nil (fun _ _ => .append) ", " (by decide) hplain
    constructor
    · intro hlast
      exact absurd hlast hinner
    · intro hone
      exact absurd hone.1 Bool.false_ne_true

/-- **A clause is not an array length.**  It ends with a comma and a bracket if it has one
name, whose constraint begins with a star, which shows in the constraint through the
first terms of unions; and a clause that begins with a name and a star has a comma
between its own brackets. -/
theorem clause_not_array_length {ps : TypeParams} {f : Fragment} (hne : ps ≠ [])
    (hps : ∀ g ∈ ps, g.isWorded = true) (h : clause scope ps = .ok f) :
    (",]".toList <:+ f.text.toList ↔ ps.names.length = 1 ∧
      ∃ g ∈ ps, ∃ c, g.constraint.render scope false = .ok c ∧
        c.text.toList.head? = some '*') ∧
    (∀ g ∈ ps, ∀ c, g.constraint.render scope false = .ok c →
      (c.text.toList.head? = some '*' ↔ g.constraint.leadsWithStar = true)) ∧
    ∀ name rest, isWord name = true → f.text = "[" ++ name ++ " *" ++ rest ++ "]" →
      outerComma 0 (name ++ " *" ++ rest ++ "]").toList = true := by
  refine ⟨comma_suffix_of_clause hne hps h, ?_, ?_⟩
  · intro g hg c hc
    rw [TypeExpr.head?_text_of_render hc (constraint_of_isWorded (hps g hg)),
      TypeExpr.startsWithStar_of_render hc]
  · intro name rest hname htext
    exact outerComma_of_clause hne hps h hname htext

/-- A pointer to a generic type with a comma of its own, behind two interfaces with type
sets. -/
theorem clause_not_array_length_pointer :
    let pair : TypeExpr := .named ⟨"Pair", "example.com/lib", [.basic "int", .typeParam "T"]⟩
    let ps : TypeParams := [⟨["T"], .constraint
      [.exact (.constraint [.exact (.pointer pair), .approx (.basic "int")])]⟩]
    ps ≠ [] ∧ (∀ g ∈ ps, g.isWorded = true) ∧ ∃ f, clause .empty ps = .ok f ∧
      f.text = "[" ++ "T" ++ " *" ++ "lib.Pair[int, T] | ~int," ++ "]" ∧
      ",]".toList <:+ f.text.toList ∧
      outerComma 0 ("T" ++ " *" ++ "lib.Pair[int, T] | ~int," ++ "]").toList = true := by
  intro pair ps
  have hps : ∀ g ∈ ps, g.isWorded = true := by decide +kernel
  have hclause : ∃ f, clause .empty ps = .ok f := ⟨_, rfl⟩
  obtain ⟨f, hf⟩ := hclause
  have htext : f.text = "[" ++ "T" ++ " *" ++ "lib.Pair[int, T] | ~int," ++ "]" := by
    cases hf
    decide +kernel
  have hlength := clause_not_array_length (List.cons_ne_nil _ _) hps hf
  refine ⟨List.cons_ne_nil _ _, hps, f, hf, htext, ?_, ?_⟩
  · exact hlength.1.mpr ⟨rfl, _, List.mem_cons_self, _, rfl, by decide +kernel⟩
  · exact hlength.2.2 "T" _ (by decide) htext

end TypeParams

end GoDecl
