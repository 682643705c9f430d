import GoDecl.ImportPath
import GoDecl.Token.Basic

/-!
# The text of a fragment

Tokens are written in order, with a space between two neighbours where the
customary layout of Go source has one.  Whether there is a space depends on the
two neighbours alone.

## Main definitions

* `needsSpace`: whether two neighbouring tokens are set apart
* `Token.text`, `Fragment.text`: the written form

## Main results

* `Fragment.text_append`: the text of two fragments joined is their texts, with
  the space their neighbouring ends need between them
-/

namespace GoDecl

/-- Whether a token is a name, of this package or of another. -/
def Token.isName : Token → Bool
  | .ident _ | .qualified _ _ => true
  | _ => false

/-- Whether a token is the keyword `chan`. -/
def Token.isChan : Token → Bool
  | .keyword word => word = "chan"
  | _ => false

/-- Whether a token is a comma. -/
def Token.isComma : Token → Bool
  | .punct .comma => true
  | _ => false

/-- Whether a space stands behind a word and before the token `next`.  A group
with delimiters of its own follows a word at once, but the element type of a
channel and the array type of a name are set apart. -/
def Token.spacedAfterWord (word : Token) : Token → Bool
  | .ident _ | .keyword _ | .qualified _ _ | .comment _ => true
  | .punct .comma => false
  | .punct .sendArrow => !word.isChan
  | .punct _ => true
  | .group .pipe _ => true
  | .group .index _ => word.isName || word.isChan
  | .group .paren _ => word.isChan
  | .group .bracket _ | .group .brace _ => false

/-- Whether a space stands between two neighbouring tokens.  A comment ends its
line itself; of the punctuation only `=`, the comma and the arrow of a sending
channel have a space behind them; what follows an index is glued to it. -/
def needsSpace (prev next : Token) : Bool :=
  match prev with
  | .comment _ => false
  | .punct .sendArrow | .punct .comma | .punct .assign => true
  | .punct _ => false
  | .group .index _ => false
  | .group _ _ => !next.isComma
  | .ident _ | .keyword _ | .qualified _ _ => prev.spacedAfterWord next

/-- The space between two neighbouring tokens, if they need one. -/
def gap (prev next : Token) : String :=
  if needsSpace prev next then " " else ""

/-- A line comment with its line end; an empty comment has no space either. -/
def commentLine (text : String) : String :=
  if text = "" then "//\n" else "// " ++ text ++ "\n"

/-- The items of a group between its delimiters. -/
def Delim.enclose (d : Delim) (items : List String) : String :=
  let padding := if items.isEmpty then "" else d.padding
  d.opening ++ padding ++ d.separator.intercalate items ++ padding ++ d.closing

mutual

/-- How a token is written. -/
def Token.text : Token → String
  | .ident name => name
  | .keyword word => word
  | .qualified path name => ImportPath.packageName path ++ "." ++ name
  | .punct mark => mark.text
  | .group delim items => delim.enclose (Fragment.texts items)
  | .comment text => commentLine text

/-- How a fragment is written behind the token `prev`. -/
def Fragment.textAfter (prev : Token) : List Token → String
  | [] => ""
  | t :: ts => gap prev t ++ t.text ++ Fragment.textAfter t ts

/-- How each of some fragments is written. -/
def Fragment.texts : List (List Token) → List String
  | [] => []
  | [] :: fs => "" :: Fragment.texts fs
  | (t :: ts) :: fs => (t.text ++ Fragment.textAfter t ts) :: Fragment.texts fs

end

namespace Fragment

/-- How a fragment is written. -/
def text : Fragment → String
  | [] => ""
  | t :: ts => t.text ++ textAfter t ts

theorem texts_eq_map (items : List Fragment) : texts items = items.map text := by
  induction items with
  | nil => simp [texts]
  | cons f fs ih => cases f <;> simp [texts, text, ih]

@[simp] theorem text_nil : text [] = "" := rfl

theorem text_cons (t : Token) (ts : Fragment) : text (t :: ts) = t.text ++ textAfter t ts := rfl

@[simp] theorem text_singleton (t : Token) : text [t] = t.text := by
  simp [text, textAfter]

theorem text_cons_cons (t u : Token) (us : Fragment) :
    text (t :: u :: us) = t.text ++ gap t u ++ text (u :: us) := by
  simp only [text, textAfter, String.append_assoc]

theorem textAfter_append (prev : Token) (f : Fragment) (t : Token) (ts : Fragment) :
    textAfter prev (f ++ t :: ts) =
      textAfter prev f ++ gap (f.getLastD prev) t ++ text (t :: ts) := by
  induction f generalizing prev with
  | nil => simp [textAfter, text, String.append_assoc]
  | cons u us ih =>
    rw [List.cons_append, textAfter, ih u, textAfter, List.getLastD_cons]
    simp only [String.append_assoc]

/-- **The text of two fragments joined:** their texts, and between them the space
that the last token of the first and the first token of the second need. -/
theorem text_append (s : Token) (f : Fragment) (t : Token) (ts : Fragment) :
    text (s :: f ++ t :: ts) = text (s :: f) ++ gap (f.getLastD s) t ++ text (t :: ts) := by
  rw [List.cons_append, text_cons, textAfter_append, text_cons s]
  simp only [String.append_assoc]

end Fragment

/-- How a group is written: its items between its delimiters. -/
theorem Token.text_group (d : Delim) (items : List Fragment) :
    (Token.group d items).text = d.enclose (items.map Fragment.text) := by
  rw [Token.text, Fragment.texts_eq_map]

end GoDecl
