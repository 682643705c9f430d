import GoDecl.Token.Basic

/-!
# The packages a fragment needs

Every name of another package carries its import path, so the imports of a piece
of source are read off its tokens.

## Main definitions

* `Fragment.paths`: the import path of each qualified name, in reading order
* `Fragment.importPaths`: those paths without repetition
-/

namespace GoDecl

mutual

/-- The import paths of the qualified names in a token. -/
def Token.paths : Token → List String
  | .qualified path _ => [path]
  | .group _ items => Fragment.pathsOfItems items
  | _ => []

/-- The import path of each qualified name of a fragment, in reading order. -/
def Fragment.paths : List Token → List String
  | [] => []
  | t :: ts => t.paths ++ Fragment.paths ts

/-- The import paths of the items of a group, one item after the other. -/
def Fragment.pathsOfItems : List (List Token) → List String
  | [] => []
  | f :: fs => Fragment.paths f ++ Fragment.pathsOfItems fs

end

namespace Fragment

/-- The import paths a fragment needs, each once, in the order they first
appear. -/
def importPaths (f : Fragment) : List String :=
  (paths f).eraseDups

theorem paths_append (f g : Fragment) : paths (f ++ g) = paths f ++ paths g := by
  induction f with
  | nil => simp [paths]
  | cons t ts ih => simp [paths, ih]

theorem pathsOfItems_eq_flatMap (items : List Fragment) :
    pathsOfItems items = items.flatMap paths := by
  induction items with
  | nil => simp [pathsOfItems]
  | cons f fs ih => simp [pathsOfItems, ih]

theorem mem_importPaths {f : Fragment} {path : String} :
    path ∈ f.importPaths ↔ path ∈ paths f := by
  simp [importPaths]

end Fragment

end GoDecl
