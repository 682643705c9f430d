import GoDecl.Declaration.Source
import GoDecl.Fragment.Imports
import GoDecl.Proofs.TypeParams
import GoDecl.Proofs.Walk

/-!
# The imports of a declaration

A declaration needs the packages of the references that are written in it, except the two
packages of the scope, and needs each of them once, in the order in which they first
appear.

## Main definitions

* `Visit.paths`, `InterfaceDecl.paths`: the import paths of the references that a walk comes
  to, and of those that are written in a declaration
* `FirstOccurrences`: the elements of a list under a condition, without repetition

## Main results

* `paths_of_render`: a written type has the qualifiers that its references need
* `importPaths_eq_iff`: the imports of a declaration
-/

namespace GoDecl

/-! ### References in reading order -/

/-- The import path of a reference. -/
@[simp] def Visit.path? : Visit → Option String
  | .type (.named ref) => some ref.path
  | _ => none

/-- The import paths of the references among what a walk comes to. -/
def Visit.paths (vs : List Visit) : List String := vs.filterMap path?

@[simp] theorem Visit.paths_cons (v : Visit) (vs : List Visit) :
    paths (v :: vs) = v.path?.toList ++ paths vs := by
  rw [paths, List.filterMap_cons]
  cases v.path? <;> rfl

@[simp] theorem Visit.paths_append (vs ws : List Visit) : paths (vs ++ ws) = paths vs ++ paths ws :=
  List.filterMap_append

/-- The import path of each reference that is written in a declaration, in reading order: in
the constraints of its type parameters, then in its type set, then in its methods. -/
def InterfaceDecl.paths (d : InterfaceDecl) : List String :=
  Visit.paths (d.typeParams.flatMap fun g => g.constraint.walk) ++
    (Visit.paths (TypeExpr.walkTerms d.typeSet) ++
      Visit.paths (d.methods.flatMap fun m => TypeExpr.walkSignature m.signature))

/-! ### Paths in source -/

namespace Fragment

@[simp] theorem paths_entry (name : String) (type : Fragment) :
    paths (entry name type) = paths type := by
  rw [entry]
  split
  · rfl
  · simp [paths, Token.paths]

@[simp] theorem paths_term (tilde : Bool) (type : Fragment) :
    paths (term tilde type) = paths type := by
  cases tilde <;> simp [term, paths, Token.paths]

@[simp] theorem paths_resultClause (results : List Fragment) :
    paths (resultClause results) = results.flatMap paths := by
  match results with
  | [] => simp [resultClause, paths]
  | [result] => simp [resultClause]
  | _ :: _ :: _ => simp [resultClause, paths, Token.paths, pathsOfItems_eq_flatMap]

@[simp] theorem paths_bracketed (items : List Fragment) :
    paths (bracketed items) = items.flatMap paths := by
  cases items <;> simp [bracketed, paths, Token.paths, pathsOfItems_eq_flatMap]

@[simp] theorem paths_chanTokens (dir : ChanDir) : paths dir.tokens = [] := by
  cases dir <;> simp [ChanDir.tokens, paths, Token.paths]

@[simp] theorem paths_chanElem (dir : ChanDir) (elem : TypeExpr) (source : Fragment) :
    paths (TypeExpr.chanElem dir elem source) = paths source := by
  rw [TypeExpr.chanElem]
  split
  · simp [paths, Token.paths, pathsOfItems]
  · rfl

@[simp] theorem paths_nameList (names : List String) : paths (nameList names) = [] := by
  induction names with
  | nil => rfl
  | cons name names ih =>
    cases names with
    | nil => rfl
    | cons name' names => simpa [nameList, paths, Token.paths] using ih

end Fragment

theorem Scope.paths_reference (scope : Scope) (path name : String) :
    (scope.reference path name).paths = [path].filter scope.qualifies := by
  rw [reference]
  split
  · next h => simp [Token.paths, h]
  · next h => simp [Token.paths, h]

namespace TypeExpr

open Fragment

variable {scope : Scope}

/-- Parts whose sources have the paths of the parts, as far as they qualify, have them one
after the other. -/
theorem flatMap_paths {α : Type} {walk : α → List Visit} {as : List α} {gs : List Fragment}
    (h : List.Forall₂ (fun a g => Fragment.paths g = (Visit.paths (walk a)).filter scope.qualifies)
      as gs) :
    gs.flatMap Fragment.paths = (Visit.paths (as.flatMap walk)).filter scope.qualifies := by
  induction h with
  | nil => rfl
  | cons head tail ih =>
    rw [List.flatMap_cons, List.flatMap_cons, Visit.paths_append, List.filter_append, head, ih]

theorem flatMap_paths_entries {variadic : Bool} {bs : List Binding} {gs : List Fragment}
    (h : Entries
      (Rendered scope fun _ t f => Fragment.paths f = (Visit.paths t.walk).filter scope.qualifies)
      variadic bs gs) :
    gs.flatMap Fragment.paths = (Visit.paths (walkBindings bs)).filter scope.qualifies := by
  induction h with
  | nil => rfl
  | cons head tail ih =>
    rw [List.flatMap_cons, walkBindings, Visit.paths_append, List.filter_append, paths_entry,
      head.holds, ih]

theorem paths_rules (scope : Scope) :
    RenderRules scope
      (fun _ t f => Fragment.paths f = (Visit.paths t.walk).filter scope.qualifies)
      (fun s f => Fragment.paths f = (Visit.paths (walkSignature s)).filter scope.qualifies) where
  basic _ _ := rfl
  pointer _ _ _ h := by simpa [Fragment.paths, Token.paths, walk] using h.holds
  slice _ _ _ h := by simpa [Fragment.paths, Token.paths, walk] using h.holds
  array _ _ _ _ h := by simpa [Fragment.paths, Token.paths, pathsOfItems, walk] using h.holds
  map _ _ _ _ _ hkey hvalue := by
    simp [Fragment.paths, Token.paths, pathsOfItems, walk, hkey.holds, hvalue.holds]
  chan _ _ _ _ h := by simpa [paths_append, walk] using h.holds
  struct _ _ _ h := by
    simpa [Fragment.paths, Token.paths, pathsOfItems_eq_flatMap, walk] using flatMap_paths_entries h
  signature params results _ gs gs' h h' := by
    have hresults := flatMap_paths (h'.imp fun _ _ hresult => hresult.holds)
    simp [Fragment.paths, Token.paths, pathsOfItems_eq_flatMap, walkSignature,
      flatMap_paths_entries h, hresults, walkBindings_eq_flatMap results]
  func _ _ _ h := by simpa [Fragment.paths, Token.paths, walk] using h
  interface _ body gs hnone h := by
    have hmethods : gs.flatMap Fragment.paths =
        (Visit.paths (walkMethods body.methods)).filter scope.qualifies := by
      rw [walkMethods_eq_flatMap]
      refine flatMap_paths (h.imp ?_)
      rintro b f ⟨s, g, hs, hg, rfl⟩
      simpa [Fragment.paths, Token.paths, hs, walkMethod] using hg
    simpa [Fragment.paths, Token.paths, pathsOfItems_eq_flatMap, walk_interface_of_none hnone] using
      hmethods
  typeSet _ _ _ _ hterms h := by
    rw [h, walk_interface_of_some hterms, walk, Visit.paths_cons, Visit.paths_cons]
    rfl
  named _ ref gs h := by
    obtain ⟨name, path, args⟩ := ref
    have hargs := flatMap_paths (h.imp fun _ _ harg => harg.holds)
    rw [Fragment.paths, Scope.paths_reference, paths_bracketed, hargs, walk, walkRef,
      walkAll_eq_flatMap, Visit.paths_cons, List.filter_append]
    rfl
  typeParam _ _ := rfl
  union _ terms gs h := by
    have hterms : gs.flatMap Fragment.paths =
        (Visit.paths (walkTerms terms)).filter scope.qualifies := by
      rw [walkTerms_eq_flatMap]
      refine flatMap_paths (h.imp ?_)
      rintro t f ⟨g, hg, rfl⟩
      rw [paths_term, hg.holds]
    simpa [Fragment.paths, Token.paths, pathsOfItems_eq_flatMap, walk] using hterms

/-- **A written type has the qualifiers that its references need.** -/
theorem paths_of_render {spread : Bool} {t : TypeExpr} {f : Fragment}
    (h : t.render scope spread = .ok f) :
    Fragment.paths f = (Visit.paths t.walk).filter scope.qualifies :=
  (paths_rules scope).render t h

theorem paths_of_renderSignature {s : Signature} {f : Fragment}
    (h : renderSignature scope s = .ok f) :
    Fragment.paths f = (Visit.paths (walkSignature s)).filter scope.qualifies :=
  (paths_rules scope).renderSignature s h

end TypeExpr

/-! ### Paths in the source of a declaration -/

section Declarations

open Fragment

variable {scope : Scope}

theorem TypeParamGroup.paths_of_render {lone : Bool} {g : TypeParamGroup} {f : Fragment}
    (h : g.render scope lone = .ok f) :
    Fragment.paths f = (Visit.paths g.constraint.walk).filter scope.qualifies := by
  simp only [render, bind_eq_ok_iff, pure_eq_ok_iff] at h
  obtain ⟨c, hc, rfl⟩ := h
  rw [paths_append, paths_append, paths_nameList, TypeExpr.paths_of_render hc]
  split <;> simp [Fragment.paths, Token.paths]

theorem TypeParams.paths_of_clause {ps : TypeParams} {f : Fragment} (h : ps.clause scope = .ok f) :
    Fragment.paths f =
      (Visit.paths (ps.flatMap fun g => g.constraint.walk)).filter scope.qualifies := by
  simp only [clause, bind_eq_ok_iff, pure_eq_ok_iff] at h
  obtain ⟨items, hitems, rfl⟩ := h
  rw [paths_bracketed]
  exact TypeExpr.flatMap_paths
    ((forall₂_of_mapM hitems).imp fun _ _ hg => TypeParamGroup.paths_of_render hg)

theorem Method.paths_of_entry {m : Method} {f : Fragment} (h : m.entry scope = .ok f) :
    Fragment.paths f =
      (Visit.paths (TypeExpr.walkSignature m.signature)).filter scope.qualifies := by
  simp only [entry, bind_eq_ok_iff, pure_eq_ok_iff] at h
  obtain ⟨g, hg, rfl⟩ := h
  simpa [Fragment.paths, Token.paths] using TypeExpr.paths_of_renderSignature hg

namespace InterfaceDecl

theorem paths_of_typeSetEntry {terms : List Term} {fs : List Fragment}
    (h : typeSetEntry scope terms = .ok fs) :
    fs.flatMap Fragment.paths =
      (Visit.paths (TypeExpr.walkTerms terms)).filter scope.qualifies := by
  rw [typeSetEntry] at h
  split at h
  · next hempty =>
    cases h
    rw [List.isEmpty_iff.mp hempty]
    rfl
  · simp only [bind_eq_ok_iff, pure_eq_ok_iff] at h
    obtain ⟨g, hg, rfl⟩ := h
    simp [TypeExpr.paths_of_render hg, TypeExpr.walk]

/-- A written declaration has the qualifiers that its references need. -/
theorem paths_of_declaration {d : InterfaceDecl} {f : Fragment}
    (h : d.declaration scope = .ok f) : Fragment.paths f = d.paths.filter scope.qualifies := by
  simp only [declaration, bind_eq_ok_iff, pure_eq_ok_iff] at h
  obtain ⟨typeSet, htypeSet, methods, hmethods, clause, hclause, rfl⟩ := h
  have hentries := TypeExpr.flatMap_paths
    ((forall₂_of_mapM hmethods).imp fun _ _ hm => Method.paths_of_entry hm)
  simp [Fragment.paths, Token.paths, paths_append, pathsOfItems_eq_flatMap,
    TypeParams.paths_of_clause hclause, paths_of_typeSetEntry htypeSet, hentries,
    InterfaceDecl.paths]

end InterfaceDecl

end Declarations

/-! ### Paths without repetition -/

/-- The elements of a list of which a condition holds, each once, in the order in which
they first occur in the list. -/
structure FirstOccurrences {α : Type} [BEq α] (q : α → Prop) (l firsts : List α) : Prop where
  mem_iff : ∀ a, a ∈ firsts ↔ a ∈ l ∧ q a
  nodup : firsts.Nodup
  ordered : firsts.Pairwise fun a b => l.idxOf a < l.idxOf b

section FirstOccurrences

variable {α : Type} [BEq α]

/-- There is one such list. -/
theorem FirstOccurrences.unique {q : α → Prop} {l firsts firsts' : List α}
    (h : FirstOccurrences q l firsts) (h' : FirstOccurrences q l firsts') : firsts = firsts' := by
  refine List.Pairwise.eq_of_mem_iff (r := Order.Preimage l.idxOf (· < ·)) h.ordered h'.ordered ?_
  intro a
  rw [h.mem_iff, h'.mem_iff]

variable [LawfulBEq α]

/-- Behind the head of a list, positions are those in the tail, shifted by one. -/
theorem pairwise_idxOf_cons {x : α} {xs as : List α} (hx : x ∉ as)
    (h : as.Pairwise fun a b => xs.idxOf a < xs.idxOf b) :
    as.Pairwise fun a b => (x :: xs).idxOf a < (x :: xs).idxOf b := by
  refine h.imp_of_mem ?_
  intro a b ha hb hab
  have hne : ∀ c ∈ as, x ≠ c := fun c hc => (ne_of_mem_of_not_mem hc hx).symm
  rw [List.idxOf_cons_ne xs (hne a ha), List.idxOf_cons_ne xs (hne b hb)]
  exact Nat.succ_lt_succ hab

theorem pairwise_idxOf_eraseDups (q : α → Bool) (l : List α) :
    (l.filter q).eraseDups.Pairwise fun a b => l.idxOf a < l.idxOf b := by
  induction l generalizing q with
  | nil => exact List.Pairwise.nil
  | cons x xs ih =>
    cases hq : q x with
    | false =>
      rw [List.filter_cons_of_neg (by simp [hq])]
      refine pairwise_idxOf_cons ?_ (ih q)
      intro hx
      simp [hq] at hx
    | true =>
      rw [List.filter_cons_of_pos hq, List.eraseDups_cons, List.filter_filter]
      refine List.pairwise_cons.mpr ⟨?_, pairwise_idxOf_cons ?_ (ih _)⟩
      · intro b hb
        have hne : x ≠ b := by
          rintro rfl
          simp at hb
        rw [List.idxOf_cons_self, List.idxOf_cons_ne xs hne]
        exact Nat.succ_pos _
      · simp

/-- Leaving out repetitions keeps the first occurrences. -/
theorem firstOccurrences_eraseDups (q : α → Bool) (l : List α) :
    FirstOccurrences (fun a => q a = true) l (l.filter q).eraseDups where
  mem_iff a := by rw [List.mem_eraseDups, List.mem_filter]
  nodup := (pairwise_idxOf_eraseDups q l).imp fun h => by
    rintro rfl
    exact lt_irrefl _ h
  ordered := pairwise_idxOf_eraseDups q l

end FirstOccurrences

/-- **The imports of a declaration.**  They are the import paths of the references that are
written in it, except those of predeclared names and of the two packages of the scope,
each once, in the order in which they first occur. -/
theorem importPaths_eq_iff {scope : Scope} {d : InterfaceDecl} {f : Fragment}
    (h : d.declaration scope = .ok f) (imports : List String) :
    f.importPaths = imports ↔ FirstOccurrences
      (fun path => path ≠ "" ∧ path ≠ scope.enclosing ∧ path ≠ scope.output) d.paths imports := by
  have hfirst : FirstOccurrences
      (fun path => path ≠ "" ∧ path ≠ scope.enclosing ∧ path ≠ scope.output) d.paths
      f.importPaths := by
    have hqualifies := firstOccurrences_eraseDups scope.qualifies d.paths
    rw [Fragment.importPaths, InterfaceDecl.paths_of_declaration h]
    refine ⟨fun path => ?_, hqualifies.nodup, hqualifies.ordered⟩
    rw [hqualifies.mem_iff, Scope.qualifies_iff]
    tauto
  exact ⟨fun he => he ▸ hfirst, fun h' => hfirst.unique h'⟩

/-- An interface with a constraint, a type set and a method, in a file of another package:
a package that is needed twice is imported once, and its own package never. -/
theorem importPaths_eq_iff_set :
    let scope : Scope := ⟨"example.com/set", "example.com/mocks"⟩
    let ref (name path : String) (args : List TypeExpr) : TypeExpr := .named ⟨name, path, args⟩
    let elems : TypeExpr := ref "Seq" "iter" [ref "Pair" "example.com/set" [ref "Ordered" "cmp" []]]
    let d : InterfaceDecl :=
      ⟨"Set", "example.com/set", [⟨["K", "V"], ref "Ordered" "cmp" []⟩],
        [⟨"All", ⟨[⟨"ctx", ref "Context" "context" []⟩],
          [⟨"", elems⟩, ⟨"", ref "Closer" "io" []⟩], false⟩⟩],
        [.approx (.func ⟨[⟨"", ref "Reader" "io" []⟩], [⟨"", TypeExpr.error⟩], false⟩)]⟩
    ∃ f, d.declaration scope = .ok f ∧ f.importPaths = ["cmp", "io", "context", "iter"] ∧
      FirstOccurrences
        (fun path => path ≠ "" ∧ path ≠ scope.enclosing ∧ path ≠ scope.output) d.paths
        ["cmp", "io", "context", "iter"] := by
  intro scope ref elems d
  have hd : ∃ f, d.declaration scope = .ok f := ⟨_, rfl⟩
  obtain ⟨f, hf⟩ := hd
  have himports : f.importPaths = ["cmp", "io", "context", "iter"] := by
    cases hf
    decide +kernel
  exact ⟨f, hf, himports, (importPaths_eq_iff hf _).mp himports⟩

end GoDecl
