import GoDecl.Fragment.Comment
import GoDecl.Fragment.Imports
import GoDecl.Fragment.Text
import Mathlib

/-!
# Code behind comments

A text before a piece of code is written as line comments, one for each of its lines, and the
code is written behind the end of the last one as it is written alone.  The comments are tokens
of their own, so the code keeps its tokens and its imports, and texts that are set before it one
after the other are the lines of one text.

## Main definitions

* `Text.cutLines`: what stands between the line feeds of a text
* `Text.asComment`: a line as it is written in a comment
* `Text.LineComments`: characters that are line comments and nothing else

## Main results

* `lines_append`: the lines of two texts with a line feed between them
* `commented_writes_comments`: what a text before a piece of code adds to it
-/

namespace GoDecl

namespace Text

/-! ### Lines -/

/-- What stands between the line feeds of a text.  Behind the last line feed there is a line
only if there is anything. -/
def cutLines (s : List Char) : List (List Char) :=
  if (s.splitOn '\n').getLast? = some [] then (s.splitOn '\n').dropLast else s.splitOn '\n'

theorem lines_eq_cutLines (s : List Char) : lines s = cutLines s := by
  induction s with
  | nil => rfl
  | cons c cs ih =>
    obtain ⟨part, parts, hparts⟩ := List.exists_cons_of_ne_nil (List.splitOn_ne_nil '\n' cs)
    rw [cutLines, hparts] at ih
    rw [lines, ih, cutLines, List.splitOn_cons_eq_if_modifyHead, hparts]
    by_cases hc : c = '\n'
    · subst hc
      simp only [beq_self_eq_true, if_true, List.getLast?_cons_cons, List.dropLast_cons_cons]
      split <;> rfl
    · simp only [beq_iff_eq, hc, if_false, List.modifyHead_cons]
      cases parts with
      | nil =>
        cases part <;> simp
      | cons next parts =>
        simp only [List.getLast?_cons_cons, List.dropLast_cons_cons]
        split_ifs <;> rfl

theorem lines_ne_nil {s : List Char} (h : s ≠ []) : lines s ≠ [] := by
  cases s with
  | nil => exact absurd rfl h
  | cons c cs =>
    rw [lines]
    split
    · exact List.cons_ne_nil _ _
    · split <;> exact List.cons_ne_nil _ _

/-- **The lines of two texts with a line feed between them** are those of the one and then those
of the other, if the line feed is the end of a line that has begun. -/
theorem lines_append {s : List Char} (hne : s ≠ []) (hlast : s.getLast? ≠ some '\n')
    (t : List Char) : lines (s ++ '\n' :: t) = lines s ++ lines t := by
  induction s with
  | nil => exact absurd rfl hne
  | cons c cs ih =>
    cases cs with
    | nil =>
      have hc : c ≠ '\n' := fun h => hlast (by rw [h]; rfl)
      simp [lines, hc]
    | cons d ds =>
      rw [List.getLast?_cons_cons] at hlast
      have hrest := ih (List.cons_ne_nil d ds) hlast
      obtain ⟨l, ls, hlines⟩ := List.exists_cons_of_ne_nil (lines_ne_nil (List.cons_ne_nil d ds))
      rw [List.cons_append, lines, hrest, hlines, lines, hlines]
      split_ifs <;> rfl

/-! ### Comments -/

/-- A line as it is written in a comment: without the white space at its end, and with a space
before it if anything is left. -/
def asComment (line : List Char) : String :=
  if line.all isBlank then "//\n" else "// " ++ String.ofList (line.rdropWhile isBlank) ++ "\n"

/-- Some characters are line comments, each with the end of its line, and nothing else. -/
inductive LineComments : List Char → Prop
  | nil : LineComments []
  | cons {body rest : List Char} (hbody : '\n' ∉ body) (hrest : LineComments rest) :
      LineComments ('/' :: '/' :: body ++ '\n' :: rest)

theorem trimEnd_eq_rdropWhile (s : List Char) : trimEnd s = s.rdropWhile isBlank := by
  obtain ⟨t, hs, ht⟩ := exists_eq_trimEnd_append s
  have hself : (trimEnd s).rdropWhile isBlank = trimEnd s := by
    refine List.rdropWhile_eq_self_iff.mpr fun hne => ?_
    exact not_isBlank_getLast_trimEnd (List.getLast?_eq_some_getLast hne)
  have hdrop : (trimEnd s ++ t).rdropWhile isBlank = (trimEnd s).rdropWhile isBlank := by
    rw [List.rdropWhile, List.rdropWhile, List.reverse_append, List.dropWhile_append_of_pos]
    simpa using ht
  rw [← hs, hself] at hdrop
  exact hdrop.symm

theorem commentLine_trimEnd (line : List Char) :
    commentLine (String.ofList (trimEnd line)) = asComment line := by
  rw [commentLine, asComment, ← trimEnd_eq_rdropWhile]
  have hempty : String.ofList (trimEnd line) = "" ↔ line.all isBlank = true := by
    rw [← String.toList_eq_nil_iff, String.toList_ofList, trimEnd_eq_nil_iff, List.all_eq_true]
  simp only [hempty]

theorem lineComments_asComment {line : List Char} (h : '\n' ∉ line) {rest : List Char}
    (hrest : LineComments rest) : LineComments ((asComment line).toList ++ rest) := by
  rw [asComment]
  split
  · show LineComments ('/' :: '/' :: [] ++ '\n' :: rest)
    exact .cons List.not_mem_nil hrest
  · have hbody : '\n' ∉ ' ' :: line.rdropWhile isBlank := by
      rw [List.mem_cons, not_or]
      exact ⟨by decide, fun hmem => h ((List.rdropWhile_prefix isBlank line).subset hmem)⟩
    simpa using LineComments.cons hbody hrest

end Text

namespace Fragment

open Text

/-- Nothing stands between a comment and what is behind it. -/
theorem text_comment_cons (text : String) (f : Fragment) :
    Fragment.text (.comment text :: f) = commentLine text ++ f.text := by
  cases f with
  | nil => simp [Token.text]
  | cons t ts => rw [text_cons_cons, Token.text, gap, needsSpace, if_neg Bool.false_ne_true,
      String.append_empty]

/-- Comments are written line by line before the code. -/
theorem text_comments_append (ls : List (List Char)) (code : Fragment) :
    Fragment.text (ls.map (fun line => .comment (String.ofList (trimEnd line))) ++ code) =
      String.join (ls.map asComment) ++ code.text := by
  induction ls with
  | nil => simp
  | cons l ls ih =>
    rw [List.map_cons, List.cons_append, text_comment_cons, ih, commentLine_trimEnd, List.map_cons,
      String.join_cons, String.append_assoc]

theorem paths_commentLines (text : String) : paths (commentLines text) = [] := by
  rw [commentLines]
  induction Text.lines text.toList with
  | nil => rfl
  | cons l ls ih => simpa [paths, Token.paths] using ih

theorem lineComments_asComments {ls : List (List Char)} (h : ∀ l ∈ ls, '\n' ∉ l) :
    LineComments (String.join (ls.map asComment)).toList := by
  induction ls with
  | nil => exact .nil
  | cons l ls ih =>
    obtain ⟨hl, hls⟩ := List.forall_mem_cons.mp h
    rw [List.map_cons, String.join_cons, String.toList_append]
    exact lineComments_asComment hl (ih hls)

/-- **What a text before a piece of code adds to it.**  No text adds nothing.  Otherwise each
line of the text is written as a comment of its own, and the code behind the last of them as it
is written alone; the code keeps its tokens and its imports.  Two texts set before the code one
after the other are one text with a line feed between them, unless the one in front is empty or
ends in a line feed. -/
theorem commented_writes_comments (code : Fragment) :
    code.commented "" = code ∧
    (∀ text : String, ∃ comments : String,
      comments = String.join ((cutLines text.toList).map asComment) ∧
      LineComments comments.toList ∧
      (code.commented text).text = comments ++ code.text ∧
      code <:+ code.commented text ∧
      (code.commented text).importPaths = code.importPaths) ∧
    ∀ a b : String, a ≠ "" → a.toList.getLast? ≠ some '\n' →
      (code.commented b).commented a = code.commented (a ++ "\n" ++ b) := by
  refine ⟨commented_empty code, fun text => ?_, ?_⟩
  · rw [← lines_eq_cutLines]
    refine ⟨_, rfl, ?_, text_comments_append _ code, List.suffix_append _ code, ?_⟩
    · exact lineComments_asComments fun l hl => not_mem_of_mem_lines hl
    · rw [importPaths, commented, paths_append, paths_commentLines, List.nil_append, importPaths]
  · intro a b hne hlast
    have hlines := lines_append (by simpa using hne) hlast b.toList
    simp [commented, commentLines, hlines]

/-- A line of white space, a carriage return at the end of a line and one within a line, another
space at the end of a text and an empty line, before code that begins with a comment. -/
theorem commented_writes_comments_twice :
    let code : Fragment := [.comment "old", .ident "x"]
    let a := "\t \nfirst\r\n  in\rdented\u00a0"
    let b := "\nlast\n"
    a ≠ "" ∧ a.toList.getLast? ≠ some '\n' ∧
      ((code.commented b).commented a).text =
        "//\n// first\n//   in\rdented\n//\n// last\n// old\nx" := by
  intro code a b
  obtain ⟨-, hcomments, hjoin⟩ := commented_writes_comments code
  have hne : a ≠ "" := by decide
  have hlast : a.toList.getLast? ≠ some '\n' := by decide +kernel
  obtain ⟨comments, rfl, -, htext, -, -⟩ := hcomments (a ++ "\n" ++ b)
  refine ⟨hne, hlast, ?_⟩
  rw [hjoin a b hne hlast, htext]
  decide +kernel

end Fragment

end GoDecl
