import GoDecl.Proofs.Determinacy

/-!
# References to a declared interface

A declared interface refers to itself by its name, with its own type parameters as arguments.
That is how a use of the declared type is written whose arguments are those type parameters.  The
clause that declares them lists the names of each group before a constraint, and a reference lists
them alone; read off the clause, the names are the arguments.

## Main definitions

* `Fragment.leadingNames`: the names at the beginning of an item of the clause

## Main results

* `leadingNames_nameList`: the names before a constraint are found again
* `arguments_eq_leadingNames`: the arguments of a reference, read off the clause
* `reference_eq_use`: a reference is a use of the type, with the declared names as arguments
-/

namespace GoDecl

variable {scope : Scope}

namespace Fragment

/-! ### Names before a constraint -/

/-- The names at the beginning of some tokens: those with a comma behind them, and the first one
without. -/
def leadingNames : Fragment → List String
  | .ident name :: .punct .comma :: rest => name :: leadingNames rest
  | .ident name :: _ => [name]
  | _ => []

/-- A name before a type is the last one, for no type begins with a comma. -/
theorem leadingNames_ident_cons {f : Fragment} (hf : f.Opens) (name : String) :
    leadingNames (.ident name :: f) = [name] := by
  obtain ⟨u, us, rfl, hu⟩ := hf
  rw [leadingNames]
  rintro rest hcons
  obtain rfl : u = .punct .comma := (List.cons.inj hcons).1
  cases hu

/-- **The names before a constraint are found again,** if there are any. -/
theorem leadingNames_nameList {f : Fragment} (hf : f.Opens) {names : List String}
    (hnames : names ≠ []) : leadingNames (nameList names ++ f) = names := by
  induction names with
  | nil => exact absurd rfl hnames
  | cons name names ih =>
    cases names with
    | nil => exact leadingNames_ident_cons hf name
    | cons name' names =>
      rw [nameList_cons_cons, List.cons_append, List.cons_append, leadingNames,
        ih (List.cons_ne_nil _ _)]

/-- A comma behind the constraint of a lone name is not one behind a name; without any name, the
first word of the constraint is taken for one. -/
example :
    leadingNames (nameList ["T"] ++ [.punct .star, .ident "C", .punct .comma]) = ["T"] ∧
      leadingNames (nameList [] ++ [.ident "C"]) = ["C"] := by
  decide

theorem exists_brackets_iff {gs : List Fragment} :
    (∃ items, Token.group .bracket items ∈ bracketed gs) ↔ gs ≠ [] := by
  cases gs <;> simp [bracketed]

end Fragment

/-- Type parameters are written as their names. -/
theorem TypeExpr.renderAll_typeParams (names : List String) :
    renderAll scope (names.map .typeParam) = .ok (names.map fun name => [.ident name]) := by
  induction names with
  | nil => rfl
  | cons name names ih =>
    rw [List.map_cons, renderAll, render, ih]
    rfl

namespace TypeParams

open Fragment

variable {ps : TypeParams}

theorem names_eq_nil_iff : ps.names = [] ↔ ∀ g ∈ ps, g.names = [] := by
  rw [names, List.flatMap_eq_nil_iff]

/-! ### The names in a clause -/

theorem leadingNames_of_renderGroup {lone : Bool} {g : TypeParamGroup} {item : Fragment}
    (h : g.render scope lone = .ok item) (hnames : g.names ≠ []) : leadingNames item = g.names := by
  obtain ⟨c, comma, -, -, rfl, hc⟩ := exists_of_renderGroup h
  exact leadingNames_nameList hc.opens hnames

/-- The items of a clause begin with all the names, one group after the other. -/
theorem flatMap_leadingNames {lone : Bool} {items : List Fragment}
    (h : List.Forall₂ (fun g item => g.render scope lone = .ok item) ps items)
    (hnames : ∀ g ∈ ps, g.names ≠ []) : items.flatMap leadingNames = ps.names := by
  induction h with
  | nil => rfl
  | cons head tail ih =>
    obtain ⟨hg, hgs⟩ := List.forall_mem_cons.mp hnames
    rw [List.flatMap_cons, leadingNames_of_renderGroup head hg, ih hgs, names, names,
      List.flatMap_cons]

/-- **The arguments of a reference, read off the clause:** the names that its items begin
with. -/
theorem arguments_eq_leadingNames {clause : Fragment} (h : ps.clause scope = .ok clause)
    (hnames : ∀ g ∈ ps, g.names ≠ []) :
    ∃ items, clause = bracketed items ∧
      ps.arguments = bracketed ((items.flatMap leadingNames).map fun name => [.ident name]) := by
  simp only [TypeParams.clause, bind_eq_ok_iff, pure_eq_ok_iff] at h
  obtain ⟨items, hitems, rfl⟩ := h
  refine ⟨items, rfl, ?_⟩
  rw [flatMap_leadingNames (forall₂_of_mapM hitems) hnames, arguments]

end TypeParams

namespace InterfaceDecl

open Fragment

/-! ### Uses of the declared type -/

/-- The name of a reference is no group, so its brackets are those of the arguments. -/
theorem brackets_mem_reference_iff {d : InterfaceDecl} {items : List Fragment} :
    Token.group .bracket items ∈ d.reference scope ↔
      Token.group .bracket items ∈ d.typeParams.arguments := by
  rw [reference, List.mem_cons, Scope.reference]
  split <;> simp

/-- **A declared interface refers to itself by a use of the declared type,** with the declared
names as arguments, in order.  There are no brackets if and only if no group has a name.  Where
every group has one, the arguments are the names that the items of the clause begin with. -/
theorem reference_eq_use (scope : Scope) (d : InterfaceDecl) :
    (∀ spread, TypeExpr.render scope spread
        (.named ⟨d.name, d.path, d.typeParams.names.map .typeParam⟩) = .ok (d.reference scope)) ∧
    ((∀ items, Token.group .bracket items ∉ d.reference scope) ↔
      ∀ g ∈ d.typeParams, g.names = []) ∧
    ((∀ g ∈ d.typeParams, g.names ≠ []) →
      ∀ clause, d.typeParams.clause scope = .ok clause →
        ∃ items, clause = bracketed items ∧
          d.reference scope = scope.reference d.path d.name ::
            bracketed ((items.flatMap leadingNames).map fun name => [.ident name])) := by
  refine ⟨fun spread => ?_, ?_, fun hnames clause hclause => ?_⟩
  · rw [TypeExpr.render, TypeExpr.renderRef, TypeExpr.renderAll_typeParams]
    rfl
  · rw [← TypeParams.names_eq_nil_iff, ← not_exists, not_iff_comm]
    simp only [brackets_mem_reference_iff]
    rw [TypeParams.arguments, exists_brackets_iff, ne_eq, List.map_eq_nil_iff]
  · obtain ⟨items, hitems, harguments⟩ := TypeParams.arguments_eq_leadingNames hclause hnames
    refine ⟨items, hitems, ?_⟩
    rw [reference, harguments]

/-- A group of two names before a constraint with arguments of its own, and a group of one. -/
theorem reference_eq_use_table :
    let scope := Scope.within "example.com/mocks"
    let key : TypeExpr := .named ⟨"Key", "example.com/lib", [.typeParam "K", .typeParam "V"]⟩
    let table : InterfaceDecl :=
      ⟨"Table", "example.com/generics", [⟨["K", "V"], key⟩, ⟨["T"], .pointer .int⟩], [], []⟩
    (∀ g ∈ table.typeParams, g.names ≠ []) ∧
      ∃ clause items, table.typeParams.clause scope = .ok clause ∧ clause = bracketed items ∧
        table.reference scope = scope.reference table.path table.name ::
          bracketed ((items.flatMap leadingNames).map fun name => [.ident name]) ∧
        clause.text = "[K, V lib.Key[K, V], T *int]" ∧
        (table.reference scope).text = "generics.Table[K, V, T]" := by
  intro scope key table
  obtain ⟨-, -, hread⟩ := reference_eq_use scope table
  have hnames : ∀ g ∈ table.typeParams, g.names ≠ [] := by decide
  obtain ⟨clause, hclause⟩ : ∃ clause, table.typeParams.clause scope = .ok clause := ⟨_, rfl⟩
  obtain ⟨items, hitems, hreference⟩ := hread hnames clause hclause
  refine ⟨hnames, clause, items, hclause, hitems, hreference, ?_, ?_⟩
  · cases hclause
    decide +kernel
  · decide +kernel

end InterfaceDecl

end GoDecl
