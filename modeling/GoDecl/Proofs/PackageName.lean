import GoDecl.Proofs.RoundTrip

/-!
# The guess of a package name

The name of a package is guessed from the last element of its import path alone, and a major
version is no part of the guess, whether it is an element of its own or stands behind a dot.
Every word of digits and lower-case letters that begins with a letter is the guess for some
path, itself among them.  The keywords are such words, so a guess can be a keyword, and then
a name behind it is not read as a name of that package.

## Main definitions

* `IsVersion`: `v` and digits
* `lastOf`: the last of the elements between the slashes of a path

## Main results

* `packageName_eq_self`: a word that can be a guess is the guess for itself
* `packageName_stable`: what the guess does not depend on
* `guess_legal_unless_keyword`: when a name behind the guess is read as a name of that package
-/

namespace GoDecl

namespace ImportPath

open Text (splitAtLast splitAtLast_eq_some_iff splitAtLast_eq_none_iff)

/-! ### Elements and versions -/

/-- A major version: `v` and at least one digit, and nothing else. -/
def IsVersion (s : List Char) : Prop :=
  ∃ digits, s = 'v' :: digits ∧ digits ≠ [] ∧ ∀ c ∈ digits, c.isDigit = true

/-- The last of the elements between the slashes of a path. -/
def lastOf (path : List Char) : List Char :=
  (path.splitOn '/').getLast (List.splitOn_ne_nil '/' path)

theorem isVersion_iff {s : List Char} : isVersion s = true ↔ IsVersion s := by
  cases s with
  | nil => simp [isVersion, IsVersion]
  | cons c cs =>
    simp only [isVersion, IsVersion, Bool.and_eq_true, decide_eq_true_eq, List.all_eq_true,
      Bool.not_eq_true', List.isEmpty_eq_false_iff, and_assoc]
    constructor
    · rintro ⟨rfl, hne, hall⟩
      exact ⟨cs, rfl, hne, hall⟩
    · rintro ⟨digits, heq, hne, hall⟩
      obtain ⟨rfl, rfl⟩ := List.cons.inj heq
      exact ⟨rfl, hne, hall⟩

instance (s : List Char) : Decidable (IsVersion s) :=
  decidable_of_iff _ isVersion_iff

/-- A version has none of the characters that part a path. -/
theorem IsVersion.notMem {s : List Char} (h : IsVersion s) {c : Char} (hv : c ≠ 'v')
    (hdigit : c.isDigit = false) : c ∉ s := by
  obtain ⟨digits, rfl, -, hall⟩ := h
  intro hmem
  rcases List.mem_cons.mp hmem with rfl | hmem
  · exact hv rfl
  · rw [hall c hmem] at hdigit
    cases hdigit

theorem splitAtLast_append_cons {c : Char} {after : List Char} (h : c ∉ after)
    (before : List Char) : splitAtLast c (before ++ c :: after) = some (before, after) :=
  splitAtLast_eq_some_iff.mpr ⟨rfl, h⟩

/-- What follows the last slash is the last of the elements between the slashes. -/
theorem lastElement_eq_lastOf (path : List Char) : lastElement path = lastOf path := by
  unfold lastElement lastOf
  split
  · next parents last hsplit =>
    obtain ⟨rfl, hlast⟩ := splitAtLast_eq_some_iff.mp hsplit
    simp [List.splitOn_append_cons_self, List.splitOn_eq_singleton hlast]
  · next hsplit =>
    simp [List.splitOn_eq_singleton (splitAtLast_eq_none_iff.mp hsplit)]

/-! ### The element that names the package -/

theorem element_of_not_isVersion {path : List Char} (h : ¬ IsVersion (lastElement path)) :
    element path = lastElement path := by
  unfold element lastElement at *
  split
  · next parents last hsplit =>
    rw [hsplit] at h
    rw [if_neg (fun hversion => h (isVersion_iff.mp hversion))]
  · rfl

/-- What stands before an element is not part of it. -/
theorem lastElement_append_slash (parents path : List Char) :
    lastElement (parents ++ '/' :: path) = lastElement path := by
  rw [lastElement_eq_lastOf, lastElement_eq_lastOf]
  simp [lastOf, List.splitOn_append_cons_self]

/-- Only a path that is a version itself does not name its package once there is something
before it. -/
theorem element_append_slash (parents : List Char) {path : List Char} (h : ¬ IsVersion path) :
    element (parents ++ '/' :: path) = element path := by
  cases hsplit : splitAtLast '/' path with
  | none =>
    have hslash := splitAtLast_eq_none_iff.mp hsplit
    rw [element, element, splitAtLast_append_cons hslash, hsplit]
    exact if_neg fun hversion => h (isVersion_iff.mp hversion)
  | some p =>
    obtain ⟨before, last⟩ := p
    obtain ⟨rfl, hslash⟩ := splitAtLast_eq_some_iff.mp hsplit
    rw [element, element, hsplit, ← List.cons_append, ← List.append_assoc,
      splitAtLast_append_cons hslash]
    simp only [lastElement_append_slash]

theorem element_append_version (path : List Char) {w : List Char} (hw : IsVersion w) :
    element (path ++ '/' :: w) = lastElement path := by
  rw [element, splitAtLast_append_cons (hw.notMem (by decide) (by decide))]
  exact if_pos (isVersion_iff.mpr hw)

theorem dropVersion_append_version (e : List Char) {w : List Char} (hw : IsVersion w) :
    dropVersion (e ++ '.' :: w) = e := by
  rw [dropVersion, splitAtLast_append_cons (hw.notMem (by decide) (by decide))]
  exact if_pos (isVersion_iff.mpr hw)

/-- An element is left as it is exactly if it does not end in a dot and a version. -/
theorem dropVersion_eq_self_iff {e : List Char} :
    dropVersion e = e ↔ ¬ ∃ base w, IsVersion w ∧ e = base ++ '.' :: w := by
  constructor
  · rintro hself ⟨base, w, hw, rfl⟩
    rw [dropVersion_append_version base hw] at hself
    simp at hself
  · intro h
    unfold dropVersion
    split
    · next base suffix hsplit =>
      refine if_neg fun hversion => h ⟨base, suffix, isVersion_iff.mp hversion, ?_⟩
      exact (splitAtLast_eq_some_iff.mp hsplit).1
    · rfl

theorem lastElement_eq_self {path : List Char} (h : '/' ∉ path) : lastElement path = path := by
  rw [lastElement, splitAtLast_eq_none_iff.mpr h]

/-- What is added behind a path without a slash is added to its last element. -/
theorem lastElement_append (path : List Char) {s : List Char} (h : '/' ∉ s) :
    lastElement (path ++ s) = lastElement path ++ s := by
  cases hsplit : splitAtLast '/' path with
  | none =>
    have hslash := splitAtLast_eq_none_iff.mp hsplit
    rw [lastElement_eq_self hslash, lastElement_eq_self (by simp [hslash, h])]
  | some p =>
    obtain ⟨before, last⟩ := p
    obtain ⟨rfl, hslash⟩ := splitAtLast_eq_some_iff.mp hsplit
    rw [List.append_assoc, List.cons_append, lastElement_append_slash, lastElement_append_slash,
      lastElement_eq_self hslash, lastElement_eq_self (by simp [hslash, h])]

/-- An element with a dot is no version, so a version behind a dot does not make the element
before it the one that names the package. -/
theorem element_append_dotVersion (path : List Char) {w : List Char} (hw : IsVersion w) :
    element (path ++ '.' :: w) = lastElement path ++ '.' :: w := by
  have hslash : '/' ∉ '.' :: w := by
    simp [hw.notMem (c := '/') (by decide) (by decide)]
  have hlast := lastElement_append path hslash
  rw [element_of_not_isVersion, hlast]
  intro hversion
  rw [hlast] at hversion
  exact hversion.notMem (c := '.') (by decide) (by decide) (by simp)

/-! ### Words that name themselves -/

theorem packageName_eq {p q : String}
    (h : dropVersion (element p.toList) = dropVersion (element q.toList)) :
    packageName p = packageName q := by
  rw [packageName, packageName, h]

/-- Nothing of a guess is left out of it, and it is in lower case already. -/
theorem IsGuess.identifier_eq {w : String} (h : IsGuess w) : identifier w.toList = w.toList := by
  have hall := h.isDigit_or_isLower
  have hfilter : w.toList.filter Char.isAlphanum = w.toList :=
    List.filter_eq_self.mpr fun d hd => isAlphanum_of_isDigit_or_isLower (hall d hd)
  have hmap : w.toList.map Char.toLower = w.toList := by
    conv_rhs => rw [← List.map_id w.toList]
    exact List.map_congr_left fun d hd => toLower_eq_self (hall d hd)
  obtain ⟨c, cs, hw, hc, -⟩ := h
  rw [identifier, hfilter, hmap, hw, List.dropWhile_cons, isDigit_of_isLower hc]
  rfl

theorem IsGuess.notMem {w : String} (h : IsGuess w) {c : Char} (hdigit : c.isDigit = false)
    (hlower : c.isLower = false) : c ∉ w.toList := by
  intro hmem
  have hc := h.isDigit_or_isLower c hmem
  rw [hdigit, hlower] at hc
  simp at hc

/-- A guess has neither slashes nor dots in it, so it is an element without a version. -/
theorem IsGuess.dropVersion_element {w : String} (h : IsGuess w) :
    dropVersion (element w.toList) = w.toList := by
  have hslash := splitAtLast_eq_none_iff.mpr (h.notMem (c := '/') (by decide) (by decide))
  have hdot := splitAtLast_eq_none_iff.mpr (h.notMem (c := '.') (by decide) (by decide))
  rw [element, hslash, dropVersion, hdot]

/-- **A word that can be a guess is the guess for itself.** -/
theorem packageName_eq_self {w : String} (h : IsGuess w) : packageName w = w := by
  rw [packageName, h.dropVersion_element, h.identifier_eq]
  obtain ⟨c, cs, hw, -, -⟩ := h
  rw [hw]
  show String.ofList (c :: cs) = w
  rw [← hw, String.ofList_toList]

/-- **What the guess does not depend on.**  A guess is the guess for itself; what stands before
a path is ignored, unless the path is a version; a version is ignored as a further element,
and behind a dot, where the last element is not a version or does not end in one. -/
theorem packageName_stable (p pre : String) {w : String} (hw : IsVersion w.toList) :
    packageName (packageName p) = packageName p ∧
    (¬ IsVersion p.toList → packageName (pre ++ "/" ++ p) = packageName p) ∧
    (¬ IsVersion (lastOf p.toList) →
      packageName (p ++ "/" ++ w) = packageName p ∧
      ((¬ ∃ base v, IsVersion v ∧ lastOf p.toList = base ++ '.' :: v) →
        packageName (p ++ "." ++ w) = packageName p)) := by
  refine ⟨packageName_eq_self (packageName_chars p), ?_, ?_⟩
  · intro hp
    apply packageName_eq
    have helement := element_append_slash pre.toList hp
    simp [helement]
  · intro hlast
    rw [← lastElement_eq_lastOf] at hlast ⊢
    have helement := element_of_not_isVersion hlast
    constructor
    · apply packageName_eq
      simp [element_append_version p.toList hw, helement]
    · intro hdot
      apply packageName_eq
      simp [element_append_dotVersion p.toList hw, dropVersion_append_version _ hw, helement,
        dropVersion_eq_self_iff.mpr hdot]

/-- A path that is a version names its package only as long as nothing stands before it. -/
example : packageName "v2" = "v2" ∧ packageName "lib/v2" = "lib" := by
  decide +kernel

/-- An element with a version that it does not end in: a further one is ignored, and so is one
behind a dot, but not the version that is there. -/
theorem packageName_stable_kit :
    let p := "example.com/Go-Kit.v2.x"
    IsVersion "v10".toList ∧ ¬ IsVersion p.toList ∧ ¬ IsVersion (lastOf p.toList) ∧
      (¬ ∃ base v, IsVersion v ∧ lastOf p.toList = base ++ '.' :: v) ∧
      packageName p = "gokitv2x" ∧ packageName (packageName p) = "gokitv2x" ∧
      packageName ("mirror.org" ++ "/" ++ p) = "gokitv2x" ∧
      packageName (p ++ "/" ++ "v10") = "gokitv2x" ∧
      packageName (p ++ "." ++ "v10") = "gokitv2x" := by
  intro p
  have hw : IsVersion "v10".toList := by decide +kernel
  have hp : ¬ IsVersion p.toList := by decide +kernel
  have hlast : ¬ IsVersion (lastOf p.toList) := by decide +kernel
  have hdot := dropVersion_eq_self_iff.mp
    (by decide +kernel : dropVersion (lastOf p.toList) = lastOf p.toList)
  have hname : packageName p = "gokitv2x" := by decide +kernel
  obtain ⟨hself, hbefore, hbehind⟩ := packageName_stable p "mirror.org" hw
  obtain ⟨hslash, hdotted⟩ := hbehind hlast
  exact ⟨hw, hp, hlast, hdot, hname, hself.trans hname, (hbefore hp).trans hname,
    hslash.trans hname, (hdotted hdot).trans hname⟩

/-! ### Names behind the guess -/

section Selectors

open Grammar

/-- A keyword is the guess for every path that ends in it. -/
theorem packageName_append_keyword (path : String) {w : String} (hw : w ∈ keywords) :
    packageName (path ++ "/" ++ w) = w := by
  have hkeyword : ∀ w ∈ keywords, IsGuess w ∧ ¬ IsVersion w.toList := by decide +kernel
  obtain ⟨hguess, hversion⟩ := hkeyword w hw
  have helement := element_append_slash path.toList hversion
  have hself := packageName_eq_self hguess
  rw [← hself]
  apply packageName_eq
  simp [helement, hself]

/-- The name that stands for any package is no keyword, so a guess that is one is spelled by the
element that names the package. -/
theorem packageName_mem_keywords_iff (path : String) :
    packageName path ∈ keywords ↔
      ∃ w ∈ keywords, identifier (dropVersion (element path.toList)) = w.toList := by
  constructor
  · intro hmem
    refine ⟨packageName path, hmem, ?_⟩
    unfold packageName at *
    split
    · next hnil =>
      rw [hnil] at hmem
      exact absurd hmem (by decide)
    · simp
  · rintro ⟨w, hw, hidentifier⟩
    have hne : ∀ w ∈ keywords, w.toList ≠ [] := by decide
    have hname : packageName path = w := by
      rw [packageName, hidentifier]
      split
      · next hnil => exact absurd hnil (hne w hw)
      · exact String.ofList_toList
    rw [hname]
    exact hw

/-- What stands before and behind the dot of a name of another package are names. -/
theorem isIdentifier_of_takes_typeName {ls rest : List Lexeme} {package name : String}
    (h : Takes typeName? ls (package, name) rest) (hpackage : package ≠ "") :
    isIdentifier package = true ∧ isIdentifier name = true := by
  obtain ⟨hlen, h⟩ := h
  unfold typeName? at h
  split at h
  · split at h
    · next hnames =>
      cases h
      exact Bool.and_eq_true_iff.mp hnames
    · cases h
  · split at h
    · cases h
      exact absurd rfl hpackage
    · cases h
  · cases h

theorem lexemes_selector (path : String) {name : String} (hname : isWord name = true) :
    Lexeme.ofText (Token.qualified path name).text =
      [.word (packageName path), .mark '.', .word name] := by
  have htext := Fragment.ofText_text (f := [.qualified path name]) ⟨hname, trivial⟩
  rwa [Fragment.text_singleton] at htext

/-- **A guess is legal unless it is a keyword.**  It always consists of lower-case letters and
digits behind a letter, and it is a keyword exactly if the letters and digits of the element
that names the package spell one, as they do at the end of any path that ends in a keyword.
A name behind the guess and a dot is read as a name of that package in all other cases. -/
theorem guess_legal_unless_keyword (path : String) :
    IsGuess (packageName path) ∧
    (packageName path ∈ keywords ↔
      ∃ w ∈ keywords, identifier (dropVersion (element path.toList)) = w.toList) ∧
    (∀ w ∈ keywords, packageName (path ++ "/" ++ w) = w) ∧
    ∀ name, Takes typeName? (Lexeme.ofText (Token.qualified path name).text)
      (packageName path, name) [] ↔ packageName path ∉ keywords ∧ isIdentifier name = true := by
  refine ⟨packageName_chars path, packageName_mem_keywords_iff path,
    fun w hw => packageName_append_keyword path hw, fun name => ?_⟩
  constructor
  · intro htakes
    have hne : packageName path ≠ "" := by
      intro hempty
      have hword := isWord_packageName path
      rw [hempty] at hword
      cases hword
    obtain ⟨hpackage, hname⟩ := isIdentifier_of_takes_typeName htakes hne
    exact ⟨fun hmem => ne_of_isIdentifier hpackage hmem rfl, hname⟩
  · rintro ⟨hpackage, hname⟩
    rw [lexemes_selector path (TypeExpr.isWord_of_isIdentifier hname)]
    exact takes_qualified (TypeExpr.isIdentifier_packageName hpackage) hname

/-- The letters of an element can spell a keyword that is not an element of the path, and a
keyword at the end of a path is the guess as it stands. -/
theorem guess_legal_unless_keyword_goto :
    packageName "example.com/go-to" = "goto" ∧ "goto" ∈ keywords ∧
      packageName ("example.com" ++ "/" ++ "type") = "type" ∧
      ¬ Takes typeName? (Lexeme.ofText (Token.qualified "example.com/go-to" "Label").text)
        (packageName "example.com/go-to", "Label") [] ∧
      Takes typeName? (Lexeme.ofText (Token.qualified "gopkg.in/yaml.v3" "Node").text)
        (packageName "gopkg.in/yaml.v3", "Node") [] := by
  obtain ⟨-, hkeyword, -, hgoto⟩ := guess_legal_unless_keyword "example.com/go-to"
  obtain ⟨-, -, htype, -⟩ := guess_legal_unless_keyword "example.com"
  obtain ⟨-, -, -, hyaml⟩ := guess_legal_unless_keyword "gopkg.in/yaml.v3"
  have hmem := hkeyword.mpr ⟨"goto", by decide, by decide +kernel⟩
  refine ⟨by decide +kernel, by decide, htype "type" (by decide), ?_, ?_⟩
  · rw [hgoto]
    exact fun h => h.1 hmem
  · exact (hyaml "Node").mpr (by decide +kernel)

/-- Not every guess is legal: the name of a package can be a keyword. -/
theorem guess_not_always_legal :
    packageName "example.com/type" = "type" ∧
      ¬ ∀ path, IsGuess (packageName path) ∧ packageName path ∉ keywords := by
  have htype : packageName "example.com/type" = "type" := by decide +kernel
  refine ⟨htype, fun hlegal => ?_⟩
  have hkeyword := (hlegal "example.com/type").2
  rw [htype] at hkeyword
  exact hkeyword (by decide)

end Selectors

end ImportPath

end GoDecl
