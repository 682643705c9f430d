import GoDecl.Text.Lines

/-!
# Import paths

The qualifier a package is referred to by, guessed from its import path alone.
A major version never names a package: `example.com/lib/v2` is package `lib`,
and `gopkg.in/yaml.v3` is package `yaml`.

## Main definitions

* `ImportPath.packageName`: the guessed qualifier
* `ImportPath.isVersion`: whether a path element is a major version
-/

namespace GoDecl

namespace ImportPath

open Text (splitAtLast)

/-- Whether a path element is a major version: `v` and at least one digit. -/
def isVersion : List Char → Bool
  | [] => false
  | c :: cs => c = 'v' && !cs.isEmpty && cs.all Char.isDigit

/-- What follows the last slash of a path. -/
def lastElement (path : List Char) : List Char :=
  match splitAtLast '/' path with
  | some (_, last) => last
  | none => path

/-- The element that names the package: the last one, or the one before it when
the last one is a version. -/
def element (path : List Char) : List Char :=
  match splitAtLast '/' path with
  | some (parents, last) => if isVersion last then lastElement parents else last
  | none => path

/-- An element without a version behind its last dot. -/
def dropVersion (element : List Char) : List Char :=
  match splitAtLast '.' element with
  | some (base, suffix) => if isVersion suffix then base else element
  | none => element

/-- The letters and digits of an element, in lower case and from the first
letter on.  Only ASCII counts. -/
def identifier (element : List Char) : List Char :=
  ((element.filter Char.isAlphanum).map Char.toLower).dropWhile Char.isDigit

/-- The package name an import path is referred to by; `pkg` when the path holds
no letter to name it. -/
def packageName (path : String) : String :=
  match identifier (dropVersion (element path.toList)) with
  | [] => "pkg"
  | name => String.ofList name

end ImportPath

end GoDecl
