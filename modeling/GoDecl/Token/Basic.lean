/-!
# Tokens

Source text before it is spelled out: words, punctuation, line comments, and
groups of fragments between delimiters.  A name of another package stays apart
from its qualifier, so that the packages a fragment needs can be read off it.

A fragment is a list of tokens, and composing fragments is appending lists.

## Main definitions

* `Punct`, `Delim`, `Token`, `Fragment`
* `Fragment.concat`: a fragment followed by others
* `Fragment.selfAppend`: the assignment that appends a value to a slice
-/

namespace GoDecl

/-- Punctuation.  The arrow before `chan` and the arrow behind it look alike and
are spaced differently. -/
inductive Punct where
  | star
  | brackets
  | ellipsis
  | recvArrow
  | sendArrow
  | tilde
  | comma
  | assign
deriving DecidableEq, Repr, Inhabited

/-- How a punctuation mark is written. -/
def Punct.text : Punct → String
  | star => "*"
  | brackets => "[]"
  | ellipsis => "..."
  | recvArrow | sendArrow => "<-"
  | tilde => "~"
  | comma => ","
  | assign => "="

/-- The delimiters of a group: `(a, b)`, the list `[a, b]`, the index `[k]` that
the next token is glued to, `{ a; b }` with its braces, and `a | b` without
any. -/
inductive Delim where
  | paren
  | bracket
  | index
  | brace
  | pipe
deriving DecidableEq, Repr, Inhabited

namespace Delim

/-- What opens a group. -/
def opening : Delim → String
  | paren => "("
  | bracket | index => "["
  | brace => "\x7b"
  | pipe => ""

/-- What closes a group. -/
def closing : Delim → String
  | paren => ")"
  | bracket | index => "]"
  | brace => "\x7d"
  | pipe => ""

/-- What stands between two items of a group. -/
def separator : Delim → String
  | paren | bracket | index => ", "
  | brace => "; "
  | pipe => " | "

/-- What stands between the items of a group and its delimiters. -/
def padding : Delim → String
  | brace => " "
  | _ => ""

end Delim

/-- A token, or a group of fragments. -/
inductive Token where
  | ident (name : String)
  | keyword (word : String)
  | qualified (path name : String)
  | punct (mark : Punct)
  | group (delim : Delim) (items : List (List Token))
  | comment (text : String)
deriving Inhabited

/-- A piece of source text. -/
abbrev Fragment := List Token

namespace Fragment

/-- A fragment followed by others. -/
def concat (head : Fragment) (tail : List Fragment) : Fragment :=
  head ++ tail.flatten

/-- The assignment `slice = append(slice, value)`. -/
def selfAppend (slice value : Fragment) : Fragment :=
  slice ++ [.punct .assign, .ident "append", .group .paren [slice, value]]

end Fragment

end GoDecl
