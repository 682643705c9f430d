import GoDecl.Text.Blank
import GoDecl.Text.Lines
import GoDecl.Token.Basic

/-!
# Commented code

A text set before a piece of source as line comments.

## Main definitions

* `Fragment.commentLines`: a text as line comments
* `Fragment.commented`: a fragment behind a text as line comments
-/

namespace GoDecl

namespace Fragment

/-- A text as line comments, one for each line, without the white space at the
end of the line. -/
def commentLines (text : String) : Fragment :=
  (Text.lines text.toList).map fun line => .comment (String.ofList (Text.trimEnd line))

/-- A fragment behind a text as line comments. -/
def commented (code : Fragment) (text : String) : Fragment :=
  commentLines text ++ code

@[simp] theorem commented_empty (code : Fragment) : code.commented "" = code := by
  simp [commented, commentLines, Text.lines]

end Fragment

end GoDecl
