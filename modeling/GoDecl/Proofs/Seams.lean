import GoDecl.Proofs.Source

/-!
# Where fragments meet

A fragment is written token by token, and the token written last is all that the next one has to
know.  So the text of composed fragments is their texts one after the other, and what stands at a
seam is decided by the two tokens that meet there.  A fragment without tokens writes nothing and
leaves the token written last as it is, so any number of such fragments may lie at a seam.

## Main definitions

* `Written`, `Written.write`, `Written.writeAll`: how far a fragment has been written
* `Fragment.seam`: what stands between two fragments
* `Fragment.nonEmpty`, `Fragment.joined`: the fragments that have tokens, and their texts with
  what stands at the seams
* `Token.endsOperand`: whether an operand can end in a token

## Main results

* `text_append_eq_seam`, `text_flatten`: the text of two fragments joined, and of any number
* `Written.start_writeAll`: writing token by token gives the text
* `text_compositional`: the text of composed fragments, and of the assignment that appends a
  value to a slice
-/

namespace GoDecl

/-! ### Seams -/

/-- What stands between a token, if there is one, and the fragment behind it. -/
def gapAfter : Option Token → Fragment → String
  | some s, t :: _ => gap s t
  | _, _ => ""

/-- What stands between two fragments: the space that the last token of the first and the first
token of the second need, and nothing if one of the fragments is empty. -/
def Fragment.seam (f g : Fragment) : String :=
  gapAfter f.getLast? g

@[simp] theorem gapAfter_none (f : Fragment) : gapAfter none f = "" := rfl

@[simp] theorem gapAfter_nil (last : Option Token) : gapAfter last [] = "" := by
  cases last <;> rfl

/-- Only the first token of a fragment matters for what stands before it. -/
theorem gapAfter_append {f : Fragment} (hf : f ≠ []) (last : Option Token) (g : Fragment) :
    gapAfter last (f ++ g) = gapAfter last f := by
  obtain ⟨t, ts, rfl⟩ := List.exists_cons_of_ne_nil hf
  cases last <;> rfl

/-- **The text of two fragments joined:** their texts, and what stands at the seam. -/
theorem Fragment.text_append_eq_seam (f g : Fragment) :
    (f ++ g).text = f.text ++ seam f g ++ g.text := by
  cases f with
  | nil => simp [seam]
  | cons s ss =>
    cases g with
    | nil => simp [seam]
    | cons t ts =>
      have hseam : seam (s :: ss) (t :: ts) = gap (ss.getLastD s) t := by
        rw [seam, List.getLast?_cons, gapAfter, List.getLastD_eq_getLast?]
      rw [text_append, hseam]

/-! ### Token by token -/

/-- How far a fragment has been written: the token written last, if there is one, and the text
so far. -/
structure Written where
  last : Option Token
  text : String

namespace Written

/-- Nothing has been written. -/
def start : Written := ⟨none, ""⟩

/-- Writes a token, behind the space it needs. -/
def write (w : Written) (t : Token) : Written :=
  ⟨some t, w.text ++ gapAfter w.last [t] ++ t.text⟩

/-- Writes the tokens of a fragment, one after the other. -/
def writeAll (w : Written) (f : Fragment) : Written :=
  f.foldl write w

theorem writeAll_append_singleton (w : Written) (f : Fragment) (t : Token) :
    w.writeAll (f ++ [t]) = (w.writeAll f).write t := by
  rw [writeAll, List.foldl_append, List.foldl_cons, List.foldl_nil, ← writeAll]

/-- **What has been written behind a fragment:** its text, and its last token as the one that the
next token has to know. -/
theorem start_writeAll (f : Fragment) : start.writeAll f = ⟨f.getLast?, f.text⟩ := by
  induction f using List.reverseRecOn with
  | nil => rfl
  | append_singleton f t ih =>
    rw [writeAll_append_singleton, ih, write, List.getLast?_concat,
      Fragment.text_append_eq_seam, Fragment.seam, Fragment.text_singleton]

end Written

namespace Fragment

/-! ### Composed fragments -/

/-- The fragments that have tokens. -/
def nonEmpty (fs : List Fragment) : List Fragment :=
  fs.filter fun f => !f.isEmpty

/-- The texts of some fragments, one after the other, with what stands at the seams. -/
def joined : List Fragment → String
  | [] => ""
  | [f] => f.text
  | f :: g :: fs => f.text ++ seam f g ++ joined (g :: fs)

theorem ne_nil_of_mem_nonEmpty {f : Fragment} {fs : List Fragment} (h : f ∈ nonEmpty fs) :
    f ≠ [] := by
  simpa using (List.mem_filter.mp h).2

theorem concat_eq_flatten (head : Fragment) (tail : List Fragment) :
    concat head tail = (nonEmpty (head :: tail)).flatten := by
  rw [nonEmpty, List.flatten_filter_not_isEmpty, concat, List.flatten_cons]

/-- **The text of fragments that all have tokens:** their texts, and what stands at each seam. -/
theorem text_flatten {fs : List Fragment} (h : ∀ f ∈ fs, f ≠ []) : text fs.flatten = joined fs := by
  induction fs with
  | nil => rfl
  | cons f fs ih =>
    obtain ⟨-, hfs⟩ := List.forall_mem_cons.mp h
    cases fs with
    | nil => simp [joined]
    | cons g gs =>
      have hseam : seam f (g :: gs).flatten = seam f g :=
        gapAfter_append (hfs g List.mem_cons_self) f.getLast? gs.flatten
      rw [List.flatten_cons, text_append_eq_seam, hseam, ih hfs, joined]

end Fragment

/-! ### Appending to a slice -/

/-- Whether an operand can end in a token: in neither punctuation nor a comment nor an index. -/
def Token.endsOperand : Token → Bool
  | .punct _ | .comment _ | .group .index _ => false
  | _ => true

/-- An operand is set apart from the `=` behind it. -/
theorem Token.gap_assign {t : Token} (h : t.endsOperand) : gap t (.punct .assign) = " " := by
  cases t with
  | ident _ | keyword _ | qualified _ _ => rfl
  | punct _ | comment _ => cases h
  | group d items =>
    cases d with
    | index => cases h
    | paren | bracket | brace | pipe => rfl

namespace Fragment

/-- What is behind the slice in the assignment that appends a value to it. -/
theorem text_assign_append (slice value : Fragment) :
    text [.punct .assign, .ident "append", .group .paren [slice, value]] =
      "= append(" ++ slice.text ++ ", " ++ value.text ++ ")" := by
  rw [text_cons_cons, text_cons_cons, text_singleton, TypeExpr.text_parens, List.map_cons,
    List.map_singleton, String.intercalate_cons_cons, String.intercalate_singleton]
  simp only [← String.append_assoc]
  rfl

/-- The assignment that appends a value to a slice, for a slice of any form. -/
theorem text_selfAppend (slice value : Fragment) :
    (selfAppend slice value).text =
      slice.text ++ gapAfter slice.getLast? [.punct .assign] ++
        ("= append(" ++ slice.text ++ ", " ++ value.text ++ ")") := by
  rw [selfAppend, text_append_eq_seam, text_assign_append]
  exact congrArg (slice.text ++ · ++ _) (gapAfter_append (List.cons_ne_nil _ []) _ _)

/-- **The text of composed fragments.**  Written token by token they give the texts of those
that have tokens, in order, with a space between two neighbours where the last token of the one
and the first token of the other need it; fragments without tokens change nothing, wherever they
stand.  So the assignment that appends a value to a slice repeats the text of the slice. -/
theorem text_compositional (head : Fragment) (tail : List Fragment) :
    (Written.start.writeAll (concat head tail)).text = (concat head tail).text ∧
    (concat head tail).text = joined (nonEmpty (head :: tail)) ∧
    (∀ head' tail', nonEmpty (head' :: tail') = nonEmpty (head :: tail) →
      concat head' tail' = concat head tail) ∧
    ∀ (slice value : Fragment) (last : Token), slice.getLast? = some last → last.endsOperand →
      (selfAppend slice value).text =
        slice.text ++ " = append(" ++ slice.text ++ ", " ++ value.text ++ ")" := by
  refine ⟨?_, ?_, ?_, ?_⟩
  · rw [Written.start_writeAll]
  · rw [concat_eq_flatten]
    exact text_flatten fun f => ne_nil_of_mem_nonEmpty
  · intro head' tail' h
    rw [concat_eq_flatten, h, concat_eq_flatten]
  · intro slice value last hlast hend
    have hassign : " = append(" = " " ++ "= append(" := rfl
    rw [text_selfAppend, hlast, gapAfter, last.gap_assign hend, hassign]
    simp only [String.append_assoc]

/-- Fragments without tokens before, between and behind two that meet at a space, and an
appending to a slice of another package. -/
theorem text_compositional_calls :
    let calls : Fragment := [.qualified "example.com/log/v2" "Calls"]
    let call : Fragment := [.punct .star, .ident "call"]
    let last : Token := .qualified "example.com/log/v2" "Calls"
    let gapped : List Fragment := [[], [.ident "last"], [], [], call, []]
    nonEmpty gapped = nonEmpty [[.ident "last"], call] ∧
      concat [] gapped = concat [.ident "last"] [call] ∧
      (concat [] gapped).text = "last *call" ∧
      calls.getLast? = some last ∧ last.endsOperand ∧
      (selfAppend calls call).text = "log.Calls = append(log.Calls, *call)" := by
  intro calls call last gapped
  obtain ⟨-, htext, hsame, happend⟩ := text_compositional [.ident "last"] [call]
  have hgapped : nonEmpty ([] :: gapped) = nonEmpty [[.ident "last"], call] := rfl
  have hconcat := hsame [] gapped hgapped
  refine ⟨hgapped, hconcat, ?_, rfl, rfl, ?_⟩
  · rw [hconcat, htext]
    decide +kernel
  · rw [happend calls call last rfl rfl]
    decide +kernel

end Fragment

end GoDecl
