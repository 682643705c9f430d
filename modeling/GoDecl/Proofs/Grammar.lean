import GoDecl.Proofs.Erasure
import GoDecl.Proofs.Lexeme

/-!
# The grammar of types

A reader of Go types by recursive descent, one function for each production of the
grammar.  It knows nothing of how types are rendered: its input are lexemes, and a
type in parentheses is the type itself.  The grammar is that of the language, but for
array lengths, which are decimal numbers, and field tags, which are left out.

A type that is read has package names in the place of import paths, and every name
of a type is a reference.

## Main definitions

* `Grammar.Rest`: what a reader leaves
* `Grammar.type?`: reads a type from the beginning of some lexemes, with one function
  for each production
* `Grammar.parse`: the type that a text is
-/

namespace GoDecl

namespace Grammar

/-- The words that are no names. -/
def keywords : List String :=
  ["break", "case", "chan", "const", "continue", "default", "defer", "else", "fallthrough", "for",
    "func", "go", "goto", "if", "import", "interface", "map", "package", "range", "return",
    "select", "struct", "switch", "type", "var"]

/-- Whether a word is a name. -/
def isIdentifier (w : String) : Bool :=
  isWord w && !(w.toList.head?.any Char.isDigit) && w ∉ keywords

/-- What is left of some lexemes after the first of them. -/
abbrev Rest (ls : List Lexeme) := { rest : List Lexeme // rest.length < ls.length }

/-- Whether an opening bracket before some lexemes is that of a slice or of an array
type, and not that of type arguments. -/
def opensElement : List Lexeme → Bool
  | .mark ']' :: _ => true
  | .word w :: _ => (Fragment.length? w).isSome
  | _ => false

/-- Whether some lexemes begin like a type. -/
def opensType : List Lexeme → Bool
  | .word w :: _ => isIdentifier w || w ∈ ["chan", "func", "interface", "map", "struct"]
  | .mark '[' :: ls => opensElement ls
  | .mark '*' :: _ | .mark '(' :: _ | .arrow :: _ => true
  | _ => false

/-! ### Readers of a few lexemes -/

/-- Reads a character. -/
def mark? (c : Char) : (ls : List Lexeme) → Option (Rest ls)
  | .mark c' :: ls => if c' = c then some ⟨ls, by simp⟩ else none
  | _ => none

/-- Reads what stands behind an item: a separator, or the closing delimiter, which is
left where it is. -/
def separator? (sep close : Char) :
    (ls : List Lexeme) → Option { rest : List Lexeme // rest.length ≤ ls.length }
  | .mark c :: ls =>
    if c = sep then some ⟨ls, by simp⟩
    else if c = close then some ⟨.mark c :: ls, by simp⟩
    else none
  | _ => none

/-- Reads the name of a type and the package before it, if there is one. -/
def typeName? : (ls : List Lexeme) → Option ((String × String) × Rest ls)
  | .word package :: .mark '.' :: .word name :: ls =>
    if isIdentifier package && isIdentifier name then
      some ((package, name), ⟨ls, by simp; omega⟩)
    else none
  | .word name :: ls => if isIdentifier name then some (("", name), ⟨ls, by simp⟩) else none
  | _ => none

/-- Reads the name of a field or of a parameter, which its type stands behind. -/
def name? : (ls : List Lexeme) → Option (String × Rest ls)
  | .word x :: ls =>
    if isIdentifier x && (ls.head? = some .ellipsis || opensType ls) then some (x, ⟨ls, by simp⟩)
    else none
  | _ => none

/-! ### Parameters -/

/-- A parameter as it is read: a name, if there is one, whether any number of values
is taken, and the type of one of them. -/
structure Param where
  name : String
  many : Bool
  type : TypeExpr

namespace Param

/-- Lets a name alone, which is read as a type, share the type of the next
parameter. -/
def share? : List Param → Option (List Param)
  | [] => some []
  | p :: ps => do
    let ps ← share? ps
    if p.name ≠ "" then return p :: ps
    else
      match p, ps with
      | ⟨_, false, .named ⟨name, "", []⟩⟩, q :: ps => return { q with name := name } :: q :: ps
      | _, _ => none

/-- The bindings of some parameters, of which only the last may take any number of
values. -/
def bindings? : List Param → Option (List Binding × Bool)
  | [] => some ([], false)
  | [⟨name, true, type⟩] => some ([⟨name, .slice type⟩], true)
  | ⟨name, false, type⟩ :: ps => do
    let (bs, variadic) ← bindings? ps
    return (⟨name, type⟩ :: bs, variadic)
  | _ => none

/-- Parameters, all of which have names or none. -/
def resolve? (ps : List Param) : Option (List Binding × Bool) :=
  if ps.all fun p => p.name = "" then bindings? ps else (share? ps).bind bindings?

end Param

/-- What an interface embeds: a type, or a union of terms. -/
def element : List Term → TypeExpr
  | [⟨type, false⟩] => type
  | terms => .union terms

/-! ### The productions -/

mutual

/-- Reads a type.  The arrow of a channel belongs to the first `chan` it can belong
to. -/
def type? : (ls : List Lexeme) → Option (TypeExpr × Rest ls)
  | .mark '(' :: ls => do
    let ⟨type, rest, h⟩ ← type? ls
    let ⟨rest, h'⟩ ← mark? ')' rest
    return (type, ⟨rest, by simp; omega⟩)
  | .mark '*' :: ls => do
    let ⟨elem, rest, h⟩ ← type? ls
    return (.pointer elem, ⟨rest, by simp; omega⟩)
  | .mark '[' :: .mark ']' :: ls => do
    let ⟨elem, rest, h⟩ ← type? ls
    return (.slice elem, ⟨rest, by simp; omega⟩)
  | .mark '[' :: .word w :: .mark ']' :: ls => do
    let len ← Fragment.length? w
    let ⟨elem, rest, h⟩ ← type? ls
    return (.array len elem, ⟨rest, by simp; omega⟩)
  | .word "map" :: .mark '[' :: ls => do
    let ⟨key, rest, h⟩ ← type? ls
    let ⟨rest, h'⟩ ← mark? ']' rest
    let ⟨value, rest, h''⟩ ← type? rest
    return (.map key value, ⟨rest, by simp; omega⟩)
  | .word "chan" :: .arrow :: ls => do
    let ⟨elem, rest, h⟩ ← type? ls
    return (.chan .send elem, ⟨rest, by simp; omega⟩)
  | .word "chan" :: ls => do
    let ⟨elem, rest, h⟩ ← type? ls
    return (.chan .both elem, ⟨rest, by simp; omega⟩)
  | .arrow :: .word "chan" :: ls => do
    let ⟨elem, rest, h⟩ ← type? ls
    return (.chan .recv elem, ⟨rest, by simp; omega⟩)
  | .word "struct" :: .mark '\x7b' :: ls => do
    let ⟨fields, rest, h⟩ ← fields? ls
    return (.struct fields, ⟨rest, by simp; omega⟩)
  | .word "func" :: ls => do
    let ⟨signature, rest, h⟩ ← signature? ls
    return (.func signature, ⟨rest, by simp; omega⟩)
  | .word "interface" :: .mark '\x7b' :: ls => do
    let ⟨body, rest, h⟩ ← elements? ls
    return (.interface body, ⟨rest, by simp; omega⟩)
  | ls => do
    let ⟨ref, rest⟩ ← reference? ls
    return (.named ref, rest)
termination_by ls => 4 * ls.length + 1
decreasing_by all_goals grind

/-- Reads a name of a type and its arguments, if there are any. -/
def reference? (ls : List Lexeme) : Option (TypeRef × Rest ls) := do
  let ⟨⟨package, name⟩, rest, h⟩ ← typeName? ls
  match rest, h with
  | .mark '[' :: rest, h =>
    if opensElement rest then return (⟨name, package, []⟩, ⟨.mark '[' :: rest, h⟩)
    else
      let ⟨args, rest, h'⟩ ← args? rest
      return (⟨name, package, args⟩, ⟨rest, by simp at h; omega⟩)
  | rest, h => return (⟨name, package, []⟩, ⟨rest, h⟩)
termination_by 4 * ls.length
decreasing_by all_goals grind

/-- Reads type arguments up to the closing bracket. -/
def args? : (ls : List Lexeme) → Option (List TypeExpr × Rest ls)
  | .mark ']' :: ls => some ([], ⟨ls, by simp⟩)
  | ls => do
    let ⟨arg, rest, h⟩ ← type? ls
    let ⟨rest, h'⟩ ← separator? ',' ']' rest
    let ⟨args, rest, h''⟩ ← args? rest
    return (arg :: args, ⟨rest, by omega⟩)
termination_by ls => 4 * ls.length + 2
decreasing_by all_goals grind

/-- Reads parameters, and a result or results in parentheses. -/
def signature? : (ls : List Lexeme) → Option (Signature × Rest ls)
  | .mark '(' :: ls => do
    let ⟨params, rest, h⟩ ← params? ls
    let (params, variadic) ← Param.resolve? params
    match rest, h with
    | .mark '(' :: rest, h =>
      let ⟨results, rest, h'⟩ ← params? rest
      let (results, many) ← Param.resolve? results
      if many then none
      else return (⟨params, results, variadic⟩, ⟨rest, by simp at h ⊢; omega⟩)
    | rest, h =>
      if opensType rest then
        let ⟨result, rest, h'⟩ ← type? rest
        return (⟨params, [⟨"", result⟩], variadic⟩, ⟨rest, by simp; omega⟩)
      else return (⟨params, [], variadic⟩, ⟨rest, by simp; omega⟩)
  | _ => none
termination_by ls => 4 * ls.length + 1
decreasing_by all_goals grind

/-- Reads parameters up to the closing parenthesis. -/
def params? : (ls : List Lexeme) → Option (List Param × Rest ls)
  | .mark ')' :: ls => some ([], ⟨ls, by simp⟩)
  | ls => do
    let ⟨param, rest, h⟩ ← param? ls
    let ⟨rest, h'⟩ ← separator? ',' ')' rest
    let ⟨params, rest, h''⟩ ← params? rest
    return (param :: params, ⟨rest, by omega⟩)
termination_by ls => 4 * ls.length + 4
decreasing_by all_goals grind

/-- Reads a parameter. -/
def param? (ls : List Lexeme) : Option (Param × Rest ls) :=
  match name? ls with
  | some ⟨name, rest, h⟩ => do
    let ⟨(many, type), rest, h'⟩ ← place? rest
    return (⟨name, many, type⟩, ⟨rest, by omega⟩)
  | none => do
    let ⟨(many, type), rest⟩ ← place? ls
    return (⟨"", many, type⟩, rest)
termination_by 4 * ls.length + 3
decreasing_by all_goals grind

/-- Reads the type of a parameter, and whether the parameter takes any number of
values. -/
def place? : (ls : List Lexeme) → Option ((Bool × TypeExpr) × Rest ls)
  | .ellipsis :: ls => do
    let ⟨type, rest, h⟩ ← type? ls
    return ((true, type), ⟨rest, by simp; omega⟩)
  | ls => do
    let ⟨type, rest⟩ ← type? ls
    return ((false, type), rest)
termination_by ls => 4 * ls.length + 2
decreasing_by all_goals grind

/-- Reads fields up to the closing brace. -/
def fields? : (ls : List Lexeme) → Option (List Binding × Rest ls)
  | .mark '\x7d' :: ls => some ([], ⟨ls, by simp⟩)
  | ls => do
    let ⟨bs, rest, h⟩ ← field? ls
    let ⟨rest, h'⟩ ← separator? ';' '\x7d' rest
    let ⟨fields, rest, h''⟩ ← fields? rest
    return (bs ++ fields, ⟨rest, by omega⟩)
termination_by ls => 4 * ls.length + 3
decreasing_by all_goals grind

/-- Reads fields that share a type, or an embedded field. -/
def field? : (ls : List Lexeme) → Option (List Binding × Rest ls)
  | .mark '*' :: ls => do
    let ⟨ref, rest, h⟩ ← reference? ls
    return ([⟨"", .pointer (.named ref)⟩], ⟨rest, by simp; omega⟩)
  | .word x :: .mark ',' :: ls => do
    match ← field? ls with
    | (b :: bs, ⟨rest, h⟩) =>
      if isIdentifier x && b.name ≠ "" then
        return (⟨x, b.type⟩ :: b :: bs, ⟨rest, by simp; omega⟩)
      else none
    | ([], _) => none
  | ls =>
    match name? ls with
    | some ⟨name, rest, h⟩ => do
      let ⟨type, rest, h'⟩ ← type? rest
      return ([⟨name, type⟩], ⟨rest, by omega⟩)
    | none => do
      let ⟨ref, rest⟩ ← reference? ls
      return ([⟨"", .named ref⟩], rest)
termination_by ls => 4 * ls.length + 2
decreasing_by all_goals grind

/-- Reads the methods and the embedded elements of an interface up to the closing
brace. -/
def elements? : (ls : List Lexeme) → Option (InterfaceBody × Rest ls)
  | .mark '\x7d' :: ls => some (.empty, ⟨ls, by simp⟩)
  | ls => do
    let ⟨element, rest, h⟩ ← element? ls
    let ⟨rest, h'⟩ ← separator? ';' '\x7d' rest
    let ⟨body, rest, h''⟩ ← elements? rest
    return (⟨element.methods ++ body.methods, element.embeds ++ body.embeds⟩,
      ⟨rest, by omega⟩)
termination_by ls => 4 * ls.length + 5
decreasing_by all_goals grind

/-- Reads a method, or an embedded element. -/
def element? : (ls : List Lexeme) → Option (InterfaceBody × Rest ls)
  | .word name :: .mark '(' :: ls => do
    let ⟨signature, rest, h⟩ ← signature? (.mark '(' :: ls)
    if isIdentifier name then
      return (⟨[⟨name, .func signature⟩], []⟩, ⟨rest, by simp at h ⊢; omega⟩)
    else none
  | ls => do
    let ⟨terms, rest⟩ ← terms? ls
    return (⟨[], [element terms]⟩, rest)
termination_by ls => 4 * ls.length + 4
decreasing_by all_goals grind

/-- Reads the terms of a union. -/
def terms? (ls : List Lexeme) : Option (List Term × Rest ls) := do
  let ⟨term, rest, h⟩ ← term? ls
  match rest, h with
  | .mark '|' :: rest, h =>
    let ⟨terms, rest, h'⟩ ← terms? rest
    return (term :: terms, ⟨rest, by simp at h; omega⟩)
  | rest, h => return ([term], ⟨rest, h⟩)
termination_by 4 * ls.length + 3
decreasing_by all_goals grind

/-- Reads a term of a union. -/
def term? : (ls : List Lexeme) → Option (Term × Rest ls)
  | .mark '~' :: ls => do
    let ⟨type, rest, h⟩ ← type? ls
    return (.approx type, ⟨rest, by simp; omega⟩)
  | ls => do
    let ⟨type, rest⟩ ← type? ls
    return (.exact type, rest)
termination_by ls => 4 * ls.length + 2
decreasing_by all_goals grind

end

/-- The type that a text is. -/
def parse (s : String) : Option TypeExpr :=
  match type? (Lexeme.ofText s) with
  | some (type, ⟨[], _⟩) => some type
  | _ => none

/-! ### Closing delimiters -/

theorem args?_close (ls : List Lexeme) :
    args? (.mark ']' :: ls) = some ([], ⟨ls, Nat.lt_succ_self _⟩) := by
  rw [args?]

theorem params?_close (ls : List Lexeme) :
    params? (.mark ')' :: ls) = some ([], ⟨ls, Nat.lt_succ_self _⟩) := by
  rw [params?]

theorem fields?_close (ls : List Lexeme) :
    fields? (.mark '\x7d' :: ls) = some ([], ⟨ls, Nat.lt_succ_self _⟩) := by
  rw [fields?]

theorem elements?_close (ls : List Lexeme) :
    elements? (.mark '\x7d' :: ls) = some (.empty, ⟨ls, Nat.lt_succ_self _⟩) := by
  rw [elements?]

/-! ### Names -/

theorem ne_of_isIdentifier {x w : String} (hx : isIdentifier x = true) (hw : w ∈ keywords) :
    x ≠ w := by
  rintro rfl
  simp [isIdentifier, hw] at hx

/-- A name begins nothing but a reference. -/
theorem type?_word {x : String} (hx : isIdentifier x = true) (ls : List Lexeme) :
    type? (.word x :: ls) = (reference? (.word x :: ls)).bind fun r => some (.named r.1, r.2) := by
  have hne : ∀ w ∈ keywords, x ≠ w := fun w hw => ne_of_isIdentifier hx hw
  rw [type?]
  · rfl
  all_goals
    intros
    simp_all [keywords]

end Grammar

end GoDecl
