import GoDecl.Proofs.Lexeme

/-!
# Scanning

What the lexemes of a text are can be said without a reader: a word goes on as long as it
can, the two long lexemes are not taken apart, white space stands between lexemes, and every
other character is a lexeme of its own.  A text has one such reading, which cutting finds,
and the layout of a fragment is read as the lexemes of its tokens.

## Main definitions

* `Lexeme.Scans`: some characters consist of lexemes, each as long as it can be

## Main results

* `scans_iff`: cutting finds the reading of a text, and there is no other
* `scans_text_iff`: the text of a fragment is read as the lexemes of its tokens
-/

namespace GoDecl

namespace Lexeme

/-- Whether some characters begin with one of the lexemes made of several marks. -/
def beginsLong : List Char → Bool
  | '.' :: '.' :: '.' :: _ => true
  | '<' :: '-' :: _ => true
  | _ => false

/-- Some characters consist of lexemes, each as long as it can be. -/
inductive Scans : List Char → List Lexeme → Prop
  | nil : Scans [] []
  | space {c : Char} {cs : List Char} {ls : List Lexeme} (hspace : isSpace c = true)
      (rest : Scans cs ls) : Scans (c :: cs) ls
  | word {w : String} {cs : List Char} {ls : List Lexeme} (hword : isWord w = true)
      (hends : StartsApart cs) (rest : Scans cs ls) : Scans (w.toList ++ cs) (.word w :: ls)
  | ellipsis {cs : List Char} {ls : List Lexeme} (rest : Scans cs ls) :
      Scans ('.' :: '.' :: '.' :: cs) (.ellipsis :: ls)
  | arrow {cs : List Char} {ls : List Lexeme} (rest : Scans cs ls) :
      Scans ('<' :: '-' :: cs) (.arrow :: ls)
  | mark {c : Char} {cs : List Char} {ls : List Lexeme} (hword : isWordChar c = false)
      (hspace : isSpace c = false) (hlong : beginsLong (c :: cs) = false) (rest : Scans cs ls) :
      Scans (c :: cs) (.mark c :: ls)

/-- Outside of words and the long lexemes, a character is passed over or stands alone. -/
theorem cut_single {c : Char} {cs : List Char} (hword : isWordChar c = false)
    (hlong : beginsLong (c :: cs) = false) :
    cut [] (c :: cs) = if isSpace c then cut [] cs else .mark c :: cut [] cs := by
  rw [cut, if_neg (by simp [hword])]
  · rfl
  · rintro cs' rfl rfl
    cases hlong
  · rintro cs' rfl rfl
    cases hlong

theorem isWordChar_of_isSpace {c : Char} (h : isSpace c = true) : isWordChar c = false := by
  simp only [isSpace, Bool.or_eq_true, decide_eq_true_eq] at h
  rcases h with ((rfl | rfl) | rfl) | rfl <;> rfl

theorem beginsLong_of_isSpace {c : Char} (h : isSpace c = true) (cs : List Char) :
    beginsLong (c :: cs) = false := by
  simp only [isSpace, Bool.or_eq_true, decide_eq_true_eq] at h
  rcases h with ((rfl | rfl) | rfl) | rfl <;> rfl

/-- Every reading of a text is the one that cutting finds. -/
theorem Scans.cut_eq {s : List Char} {ls : List Lexeme} (h : Scans s ls) : cut [] s = ls := by
  induction h with
  | nil => rfl
  | @space c cs ls hspace rest ih =>
    rw [cut_single (isWordChar_of_isSpace hspace) (beginsLong_of_isSpace hspace cs),
      if_pos hspace, ih]
  | word hword hends rest ih => rw [cuts_word hword _ hends, ih, List.singleton_append]
  | ellipsis rest ih => rw [cut, ih, flush, if_pos rfl]
  | arrow rest ih => rw [cut, ih, flush, if_pos rfl]
  | mark hword hspace hlong rest ih =>
    rw [cut_single hword hlong, if_neg (by simp [hspace]), ih]

/-- A word read so far, if any, ends before characters that stand apart. -/
theorem Scans.flush {word cs : List Char} {ls : List Lexeme}
    (hword : ∀ c ∈ word, isWordChar c = true) (hends : StartsApart cs) (rest : Scans cs ls) :
    Scans (word ++ cs) (flush word ls) := by
  unfold Lexeme.flush
  split
  · next hnil =>
    subst hnil
    exact rest
  · next hne =>
    have hisWord : isWord (String.ofList word) = true := by
      rw [isWord_iff, String.toList_ofList]
      exact ⟨hne, hword⟩
    simpa using Scans.word hisWord hends rest

/-- Cutting finds a reading of the word read so far and the characters behind it. -/
theorem scans_cut {word : List Char} (hword : ∀ c ∈ word, isWordChar c = true) (s : List Char) :
    Scans (word ++ s) (cut word s) := by
  fun_induction cut word s with
  | case1 word => exact .flush hword .nil .nil
  | case2 word cs ih => exact .flush hword (.cons rfl _) (.ellipsis (ih (by simp)))
  | case3 word cs ih => exact .flush hword (.cons rfl _) (.arrow (ih (by simp)))
  | case4 word c cs _ _ hc ih =>
    have hlonger : ∀ d ∈ word ++ [c], isWordChar d = true := by
      simp only [List.mem_append, List.mem_singleton]
      rintro d (hd | rfl)
      · exact hword d hd
      · exact hc
    simpa using ih hlonger
  | case5 word c cs _ _ hc hspace ih =>
    apply Scans.flush hword (.cons (by simpa using hc) _)
    exact .space hspace (ih (by simp))
  | case6 word c cs hdots harrow hc hspace ih =>
    have hlong : beginsLong (c :: cs) = false := by
      unfold beginsLong
      split
      · next heq => exact absurd (List.cons.inj heq).2 (hdots _ (List.cons.inj heq).1)
      · next heq => exact absurd (List.cons.inj heq).2 (harrow _ (List.cons.inj heq).1)
      · rfl
    apply Scans.flush hword (.cons (by simpa using hc) _)
    exact .mark (by simpa using hc) (by simpa using hspace) hlong (ih (by simp))

/-- **Cutting finds the reading of a text, and there is no other.** -/
theorem scans_iff {s : List Char} {ls : List Lexeme} : Scans s ls ↔ cut [] s = ls := by
  constructor
  · exact Scans.cut_eq
  · rintro rfl
    exact scans_cut (List.forall_mem_nil _) s

end Lexeme

namespace Fragment

open Lexeme

/-- **Spaces neither glue lexemes together nor take them apart.**  Whatever the tokens of a
fragment are and however they are nested, as long as their names are words and there are no
comments, its text is read as the lexemes of its tokens in order, and in no other way. -/
theorem scans_text_iff {f : Fragment} (h : Worded f) (ls : List Lexeme) :
    Scans f.text.toList ls ↔ ls = lexemes f := by
  have htext := ofText_text h
  unfold ofText at htext
  rw [scans_iff, htext, eq_comm]

/-- Unions within unions, with an empty item, between words and an index that is glued to
what follows it. -/
theorem scans_text_iff_union :
    let inner : Fragment := [.group .pipe [[.ident "a"], [], [.punct .tilde, .ident "b_2"]]]
    let f : Fragment :=
      [.keyword "chan", .group .pipe [inner, [.qualified "gopkg.in/yaml.v3" "Node"]],
        .group .index [[.ident "4"]], .ident "byte", .group .index [], .keyword "map",
        .punct .ellipsis, .punct .recvArrow]
    Worded f ∧ f.text = "chan a |  | ~b_2 | yaml.Node [4]byte []map ...<-" ∧
      Scans f.text.toList
        [.word "chan", .word "a", .mark '|', .mark '|', .mark '~', .word "b_2", .mark '|',
          .word "yaml", .mark '.', .word "Node", .mark '[', .word "4", .mark ']', .word "byte",
          .mark '[', .mark ']', .word "map", .ellipsis, .arrow] := by
  intro inner f
  have hworded : Worded f := by simp +decide [f, inner, Worded, Token.Worded, WordedItems]
  refine ⟨hworded, by decide +kernel, (scans_text_iff hworded _).mpr ?_⟩
  decide +kernel

end Fragment

end GoDecl
