import GoDecl.Proofs.Imports

/-!
# Gathering imports

The imports of a fragment can be gathered on one walk over it, which goes into each group where
it comes to it and adds a path to those it has found unless the path is among them.  Where the
walk starts from paths that were found before, it adds those of the fragment that are new, so
walks over parts, one after the other, are a walk over the whole.

## Main definitions

* `Fragment.reading`: the tokens of a fragment at all depths, in reading order
* `Token.Within`: a token stands in a fragment, at some depth
* `Fragment.gather`: the walk, from the paths found before to those found behind it
* `news`: what a list adds to what was found before

## Main results

* `gather_eq`: what the walk adds to the paths found before
* `importPaths_compositional`: which paths the imports are, and those of composed fragments
-/

namespace GoDecl

/-! ### Reading order -/

mutual

/-- A token, and behind it the tokens in it. -/
def Token.reading : Token → List Token
  | .group d items => .group d items :: Fragment.readingOfItems items
  | t => [t]

/-- The tokens of a fragment at all depths, in reading order. -/
def Fragment.reading : List Token → List Token
  | [] => []
  | t :: ts => t.reading ++ Fragment.reading ts

/-- The tokens in the items of a group, one item after the other. -/
def Fragment.readingOfItems : List (List Token) → List Token
  | [] => []
  | f :: fs => Fragment.reading f ++ Fragment.readingOfItems fs

end

/-- The import path of a qualified name. -/
def Token.path? : Token → Option String
  | .qualified path _ => some path
  | _ => none

/-- A token stands in a fragment, at some depth. -/
inductive Token.Within (t : Token) : Fragment → Prop
  | here {f : Fragment} (h : t ∈ f) : Within t f
  | inside {f item : Fragment} {d : Delim} {items : List Fragment}
      (hgroup : Token.group d items ∈ f) (hitem : item ∈ items) (h : Within t item) : Within t f

mutual

theorem Token.paths_eq_reading : ∀ t : Token, t.paths = t.reading.filterMap Token.path?
  | .qualified _ _ => rfl
  | .group d items => by
    rw [Token.paths, Token.reading, List.filterMap_cons, Fragment.pathsOfItems_eq_reading items]
    rfl
  | .ident _ | .keyword _ | .punct _ | .comment _ => rfl

theorem Fragment.paths_eq_reading :
    ∀ ts : List Token, Fragment.paths ts = (Fragment.reading ts).filterMap Token.path?
  | [] => rfl
  | t :: ts => by
    rw [Fragment.paths, Fragment.reading, List.filterMap_append, Token.paths_eq_reading t,
      Fragment.paths_eq_reading ts]

theorem Fragment.pathsOfItems_eq_reading : ∀ items : List (List Token),
    Fragment.pathsOfItems items = (Fragment.readingOfItems items).filterMap Token.path?
  | [] => rfl
  | f :: fs => by
    rw [Fragment.pathsOfItems, Fragment.readingOfItems, List.filterMap_append,
      Fragment.paths_eq_reading f, Fragment.pathsOfItems_eq_reading fs]

end

namespace Token

theorem self_mem_reading (t : Token) : t ∈ t.reading := by
  cases t <;> simp [reading]

/-- More tokens around a token do not take it away. -/
theorem Within.mono {t : Token} {f g : Fragment} (h : t.Within f) (hfg : f ⊆ g) : t.Within g := by
  cases h with
  | here h => exact .here (hfg h)
  | inside hgroup hitem h => exact .inside (hfg hgroup) hitem h

end Token

theorem Fragment.reading_eq_flatMap (f : Fragment) : reading f = f.flatMap Token.reading := by
  induction f with
  | nil => rfl
  | cons t ts ih => rw [reading, ih, List.flatMap_cons]

theorem Fragment.readingOfItems_eq_flatMap (items : List Fragment) :
    readingOfItems items = items.flatMap reading := by
  induction items with
  | nil => rfl
  | cons f fs ih => rw [readingOfItems, ih, List.flatMap_cons]

mutual

theorem Token.within_of_mem_reading {t : Token} : ∀ u : Token, t ∈ u.reading → t.Within [u]
  | .group d items, h => by
    rcases List.mem_cons.mp h with rfl | h
    · exact .here List.mem_cons_self
    · obtain ⟨item, hitem, hwithin⟩ := Fragment.within_of_mem_readingOfItems items h
      exact .inside List.mem_cons_self hitem hwithin
  | .ident _, h | .keyword _, h | .qualified _ _, h | .punct _, h | .comment _, h => .here h

theorem Fragment.within_of_mem_reading {t : Token} :
    ∀ us : List Token, t ∈ Fragment.reading us → t.Within us
  | [], h => by cases h
  | u :: us, h => by
    rcases List.mem_append.mp h with h | h
    · exact (Token.within_of_mem_reading u h).mono (by simp)
    · exact (Fragment.within_of_mem_reading us h).mono (List.subset_cons_self u us)

theorem Fragment.within_of_mem_readingOfItems {t : Token} : ∀ items : List (List Token),
    t ∈ Fragment.readingOfItems items → ∃ item ∈ items, t.Within item
  | [], h => by cases h
  | f :: fs, h => by
    rcases List.mem_append.mp h with h | h
    · exact ⟨f, List.mem_cons_self, Fragment.within_of_mem_reading f h⟩
    · obtain ⟨item, hitem, hwithin⟩ := Fragment.within_of_mem_readingOfItems fs h
      exact ⟨item, List.mem_cons_of_mem f hitem, hwithin⟩

end

/-- A reading comes to each token that stands in a fragment, and to no other. -/
theorem Fragment.mem_reading_iff {t : Token} {f : Fragment} : t ∈ reading f ↔ t.Within f := by
  constructor
  · exact Fragment.within_of_mem_reading f
  · intro h
    induction h with
    | here h =>
      rw [reading_eq_flatMap]
      exact List.mem_flatMap.mpr ⟨t, h, t.self_mem_reading⟩
    | @inside f item d items hgroup hitem h ih =>
      rw [reading_eq_flatMap]
      refine List.mem_flatMap.mpr ⟨.group d items, hgroup, ?_⟩
      rw [Token.reading, readingOfItems_eq_flatMap]
      exact List.mem_cons_of_mem _ (List.mem_flatMap.mpr ⟨item, hitem, ih⟩)

theorem Fragment.mem_paths_iff {path : String} {f : Fragment} :
    path ∈ paths f ↔ ∃ name, (Token.qualified path name).Within f := by
  rw [paths_eq_reading, List.mem_filterMap]
  constructor
  · rintro ⟨t, ht, hpath⟩
    cases t with
    | qualified path' name =>
      cases hpath
      exact ⟨name, mem_reading_iff.mp ht⟩
    | _ => cases hpath
  · rintro ⟨name, hwithin⟩
    exact ⟨.qualified path name, mem_reading_iff.mpr hwithin, rfl⟩

/-! ### The walk -/

mutual

/-- The paths found behind a token, if `found` were found before it. -/
def Token.gather (found : List String) : Token → List String
  | .qualified path _ => if path ∈ found then found else found ++ [path]
  | .group _ items => Fragment.gatherItems found items
  | _ => found

/-- The paths found behind a fragment. -/
def Fragment.gather (found : List String) : List Token → List String
  | [] => found
  | t :: ts => Fragment.gather (t.gather found) ts

/-- The paths found behind the items of a group. -/
def Fragment.gatherItems (found : List String) : List (List Token) → List String
  | [] => found
  | f :: fs => Fragment.gatherItems (Fragment.gather found f) fs

end

/-- What a list adds to what was found before, each element once. -/
def news {α : Type} [BEq α] (found l : List α) : List α :=
  (l.removeAll found).eraseDups

section News

variable {α : Type} [BEq α]

@[simp] theorem news_nil_left (l : List α) : news [] l = l.eraseDups := by
  simp [news]

@[simp] theorem news_nil_right (found : List α) : news found [] = [] := by
  simp [news]

variable [LawfulBEq α]

/-- Behind the first of two lists, what it added was found before too. -/
theorem news_append (found l l' : List α) :
    news found (l ++ l') = news found l ++ news (found ++ news found l) l' := by
  have hfound : (l'.removeAll found).removeAll (l.removeAll found) =
      l'.removeAll (found ++ (l.removeAll found).eraseDups) := by
    simp only [List.removeAll, List.filter_filter]
    refine List.filter_congr fun a _ => ?_
    by_cases ha : a ∈ found <;> simp [ha]
  rw [news, List.removeAll, List.filter_append, ← List.removeAll, ← List.removeAll,
    List.eraseDups_append, hfound]
  rfl

end News

mutual

/-- What the walk over a token adds to the paths found before. -/
theorem Token.gather_eq (found : List String) :
    ∀ t : Token, t.gather found = found ++ news found t.paths
  | .qualified path _ => by
    rw [Token.gather, Token.paths]
    split
    · next h => simp [news, List.removeAll, h]
    · next h => simp [news, List.removeAll, h, List.eraseDups_cons]
  | .group _ items => Fragment.gatherItems_eq found items
  | .ident _ | .keyword _ | .punct _ | .comment _ => by simp [Token.gather, Token.paths]

/-- **What the walk over a fragment adds to the paths found before:** its paths that are new,
each once. -/
theorem Fragment.gather_eq (found : List String) :
    ∀ ts : List Token, Fragment.gather found ts = found ++ news found (Fragment.paths ts)
  | [] => by simp [Fragment.gather, Fragment.paths]
  | t :: ts => by
    rw [Fragment.gather, Fragment.paths, news_append, Fragment.gather_eq _ ts,
      Token.gather_eq found t, List.append_assoc]

/-- What the walk over the items of a group adds to the paths found before. -/
theorem Fragment.gatherItems_eq (found : List String) : ∀ items : List (List Token),
    Fragment.gatherItems found items = found ++ news found (Fragment.pathsOfItems items)
  | [] => by simp [Fragment.gatherItems, Fragment.pathsOfItems]
  | f :: fs => by
    rw [Fragment.gatherItems, Fragment.pathsOfItems, news_append, Fragment.gatherItems_eq _ fs,
      Fragment.gather_eq found f, List.append_assoc]

end

/-! ### Imports of composed fragments -/

section Repetitions

variable {α : Type} [BEq α] [LawfulBEq α]

/-- Elements can be left out before or behind the repetitions. -/
theorem eraseDups_filter (q : α → Bool) (l : List α) :
    (l.filter q).eraseDups = l.eraseDups.filter q := by
  induction l generalizing q with
  | nil => rfl
  | cons x xs ih =>
    rw [List.eraseDups_cons, ih]
    cases hq : q x with
    | true =>
      rw [List.filter_cons_of_pos hq, List.filter_cons_of_pos hq, List.eraseDups_cons,
        List.filter_filter, List.filter_filter, ih]
      simp only [Bool.and_comm]
    | false =>
      rw [List.filter_cons_of_neg (by simp [hq]), List.filter_cons_of_neg (by simp [hq]), ih,
        List.filter_filter]
      refine List.filter_congr fun a _ => ?_
      by_cases hax : a = x <;> simp [hax, hq]

theorem eraseDups_eraseDups (l : List α) : l.eraseDups.eraseDups = l.eraseDups := by
  induction l with
  | nil => rfl
  | cons x xs ih =>
    rw [List.eraseDups_cons, eraseDups_filter, List.eraseDups_cons, List.filter_filter,
      eraseDups_filter, ih]
    simp only [Bool.and_self]

/-- Repetitions within the parts of a list are repetitions in the list. -/
theorem eraseDups_append_eraseDups (l l' : List α) :
    (l.eraseDups ++ l'.eraseDups).eraseDups = (l ++ l').eraseDups := by
  have hmem : l'.removeAll l.eraseDups = l'.removeAll l := by
    simp [List.removeAll]
  rw [List.eraseDups_append, List.eraseDups_append, eraseDups_eraseDups, ← hmem, List.removeAll,
    ← eraseDups_filter, eraseDups_eraseDups]
  rfl

theorem eraseDups_flatMap_eraseDups {β : Type} (g : β → List α) (bs : List β) :
    (bs.flatMap fun b => (g b).eraseDups).eraseDups = (bs.flatMap g).eraseDups := by
  induction bs with
  | nil => rfl
  | cons b bs ih =>
    rw [List.flatMap_cons, List.flatMap_cons, ← eraseDups_append_eraseDups, eraseDups_eraseDups, ih,
      eraseDups_append_eraseDups]

/-- What is repeated in front of a list adds nothing. -/
theorem eraseDups_append_append_self (l l' : List α) :
    (l ++ (l ++ l')).eraseDups = (l ++ l').eraseDups := by
  have hself : (l ++ l').removeAll l = l'.removeAll l := by
    simp [List.removeAll]
  rw [List.eraseDups_append, hself, List.eraseDups_append]

end Repetitions

namespace Fragment

theorem paths_flatten (fs : List Fragment) : paths fs.flatten = fs.flatMap paths := by
  induction fs with
  | nil => rfl
  | cons f fs ih => rw [List.flatten_cons, paths_append, ih, List.flatMap_cons]

theorem importPaths_flatten (fs : List Fragment) :
    importPaths fs.flatten = (fs.flatMap importPaths).eraseDups := by
  have hparts := eraseDups_flatMap_eraseDups paths fs
  rw [importPaths, paths_flatten, ← hparts]
  rfl

theorem importPaths_group (d : Delim) (items : List Fragment) :
    importPaths [.group d items] = importPaths items.flatten := by
  rw [importPaths, importPaths, paths_flatten, paths, paths, Token.paths, List.append_nil,
    pathsOfItems_eq_flatMap]

/-- The slice stands before the assignment and again as an argument. -/
theorem importPaths_selfAppend (slice value : Fragment) :
    importPaths (selfAppend slice value) =
      (importPaths slice ++ importPaths value).eraseDups := by
  have hpaths : paths (selfAppend slice value) = paths slice ++ (paths slice ++ paths value) := by
    simp [selfAppend, paths_append, paths, Token.paths, pathsOfItems]
  rw [importPaths, hpaths, eraseDups_append_append_self, importPaths, importPaths,
    eraseDups_append_eraseDups]

/-- **The imports of a fragment.**  A walk over the fragment finds them, and they are the paths
of the qualified names that stand in it at any depth, each once, in the order in which a reading
first comes to them.  Fragments that are composed, also as the items of a group, have the
imports of the parts one after the other, without repetition, and so has the assignment that
appends a value to a slice. -/
theorem importPaths_compositional (f : Fragment) :
    gather [] f = importPaths f ∧
    (∀ path, path ∈ importPaths f ↔ ∃ name, (Token.qualified path name).Within f) ∧
    FirstOccurrences (fun _ => True) ((reading f).filterMap Token.path?) (importPaths f) ∧
    (∀ tail, importPaths (concat f tail) = (importPaths f ++ tail.flatMap importPaths).eraseDups) ∧
    (∀ d items, importPaths [.group d items] = importPaths (concat [] items)) ∧
    ∀ value, importPaths (selfAppend f value) =
      (importPaths f ++ importPaths value).eraseDups := by
  refine ⟨?_, ?_, ?_, fun tail => ?_, importPaths_group, importPaths_selfAppend f⟩
  · rw [gather_eq, List.nil_append, news_nil_left, importPaths]
  · intro path
    rw [mem_importPaths, mem_paths_iff]
  · have hfirst := firstOccurrences_eraseDups (fun _ => true) (paths f)
    rw [List.filter_true, paths_eq_reading] at hfirst
    rw [importPaths, paths_eq_reading]
    exact ⟨fun path => by simp, hfirst.nodup, hfirst.ordered⟩
  · exact importPaths_flatten (f :: tail)

end Fragment

end GoDecl
