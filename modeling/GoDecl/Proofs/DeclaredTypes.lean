import GoDecl.Fragment.Text
import GoDecl.Proofs.Induction
import GoDecl.Proofs.Methods

/-!
# Declarations and the types they hold

A method is written in a declaration as the function type of its signature is, with the name
in the place of the word `func`, and the body of a declaration is written as the interface
type with the same methods.  Only a type set makes a difference: an interface type is written
as its type set alone, a declaration has it before its methods.

## Main definitions

* `InterfaceDecl.bodyType`: the methods of a declaration as an interface type

## Main results

* `Method.funcType_eq_render`, `Method.entry_eq_bind_funcType`: the function type of a method,
  and the method in a declaration
* `declaration_eq_of_typeSet_eq_nil`, `declaration_eq_of_typeSet_ne_nil`: a declaration and
  the types it holds, with the errors of each
* `declaration_agrees_with_types`: the three of them
-/

namespace GoDecl

namespace Method

variable (scope : Scope)

/-- The function type of a method is written as the type of its signature is, wherever it
stands. -/
theorem funcType_eq_render (m : Method) (spread : Bool) :
    m.funcType scope = TypeExpr.render scope spread (.func m.signature) := by
  rw [funcType, TypeExpr.render]

/-- A method in a declaration and its function type have the same parameters and results
behind the name and behind `func`, and the same errors. -/
theorem entry_eq_bind_funcType (m : Method) :
    m.entry scope = m.funcType scope >>= fun f => pure (.ident m.name :: f.tail) := by
  rw [entry, funcType]
  simp

/-- A method that is written is written in both ways, and one that is not fails in both ways
with the same error. -/
theorem funcType_and_entry (m : Method) :
    (∃ tail, m.funcType scope = .ok (.keyword "func" :: tail) ∧
      m.entry scope = .ok (.ident m.name :: tail)) ∨
    ∃ e, m.funcType scope = .error e ∧ m.entry scope = .error e := by
  rw [entry_eq_bind_funcType, funcType]
  rcases TypeExpr.renderSignature scope m.signature with e | tail
  · exact .inr ⟨e, rfl, rfl⟩
  · exact .inl ⟨tail, rfl, rfl⟩

end Method

namespace InterfaceDecl

/-- The methods of a declaration as an interface type. -/
def bodyType (d : InterfaceDecl) : TypeExpr :=
  .interface ⟨d.methods.map Method.binding, []⟩

variable (scope : Scope)

/-- A method that is a function is written in an interface type like in a declaration. -/
theorem render_bodyType (d : InterfaceDecl) (spread : Bool) :
    d.bodyType.render scope spread =
      d.methods.mapM (Method.entry scope) >>= fun methods =>
        pure [.keyword "interface", .group .brace methods] := by
  unfold bodyType
  rw [TypeExpr.render_interface_of_none (by rfl), List.mapM_map]
  rfl

/-- A declaration without a type set is its clause and the interface type of its methods.
The methods are written before the clause, so their errors come first. -/
theorem declaration_eq_of_typeSet_eq_nil {d : InterfaceDecl} (h : d.typeSet = []) :
    d.declaration scope = do
      let body ← d.bodyType.render scope false
      let clause ← d.typeParams.clause scope
      return .keyword "type" :: .ident d.name :: (clause ++ body) := by
  rw [declaration, typeSetEntry, h, render_bodyType]
  simp

/-- A declaration with a type set has it before its methods, and its errors come first. -/
theorem declaration_eq_of_typeSet_ne_nil {d : InterfaceDecl} (h : d.typeSet ≠ []) :
    d.declaration scope = do
      let union ← TypeExpr.render scope false (.union d.typeSet)
      let methods ← d.methods.mapM (Method.entry scope)
      let clause ← d.typeParams.clause scope
      return .keyword "type" :: .ident d.name ::
        (clause ++ [.keyword "interface", .group .brace (union :: methods)]) := by
  rw [declaration, typeSetEntry, if_neg (by simpa using h)]
  simp

/-- **Declarations agree with the types they hold.**  A method in a declaration is its
function type with the name in the place of `func`, or fails with the same error.  Without a
type set, a declaration is written if and only if its clause and the interface type of its
methods are, and is `type`, its name, the clause and that type; with one, the same holds of
the union of its terms too, which is one more item before the methods. -/
theorem declaration_agrees_with_types (d : InterfaceDecl) :
    (∀ m : Method,
      (∀ spread, m.funcType scope = TypeExpr.render scope spread (.func m.signature)) ∧
      ((∃ tail, m.funcType scope = .ok (.keyword "func" :: tail) ∧
          m.entry scope = .ok (.ident m.name :: tail)) ∨
        ∃ e, m.funcType scope = .error e ∧ m.entry scope = .error e)) ∧
    (d.typeSet = [] → ∀ f, d.declaration scope = .ok f ↔
      ∃ clause body, d.typeParams.clause scope = .ok clause ∧
        d.bodyType.render scope false = .ok body ∧
        f = .keyword "type" :: .ident d.name :: (clause ++ body)) ∧
    (d.typeSet ≠ [] → ∀ f, d.declaration scope = .ok f ↔
      ∃ clause methods union, d.typeParams.clause scope = .ok clause ∧
        d.bodyType.render scope false = .ok [.keyword "interface", .group .brace methods] ∧
        TypeExpr.render scope false (.union d.typeSet) = .ok union ∧
        f = .keyword "type" :: .ident d.name ::
          (clause ++ [.keyword "interface", .group .brace (union :: methods)])) := by
  refine ⟨?_, ?_, ?_⟩
  · intro m
    exact ⟨m.funcType_eq_render scope, m.funcType_and_entry scope⟩
  · intro h f
    simp only [declaration_eq_of_typeSet_eq_nil scope h, bind_eq_ok_iff, pure_eq_ok_iff]
    constructor
    · rintro ⟨body, hbody, clause, hclause, rfl⟩
      exact ⟨clause, body, hclause, hbody, rfl⟩
    · rintro ⟨clause, body, hclause, hbody, rfl⟩
      exact ⟨body, hbody, clause, hclause, rfl⟩
  · intro h f
    simp only [declaration_eq_of_typeSet_ne_nil scope h, render_bodyType, bind_eq_ok_iff,
      pure_eq_ok_iff]
    constructor
    · rintro ⟨union, hunion, methods, hmethods, clause, hclause, rfl⟩
      exact ⟨clause, methods, union, hclause, ⟨methods, hmethods, rfl⟩, hunion, rfl⟩
    · rintro ⟨clause, methods, union, hclause, ⟨methods', hmethods, hbody⟩, hunion, rfl⟩
      obtain rfl : methods' = methods := by simpa using hbody
      exact ⟨union, hunion, methods', hmethods, clause, hclause, rfl⟩

/-- A declaration without a type set and the same one with a type set, in a file of another
package. -/
theorem declaration_agrees_with_types_cache :
    let scope : Scope := ⟨"example.com/cache", "example.com/mocks"⟩
    let get : Method :=
      ⟨"Get", ⟨[⟨"keys", .slice (.typeParam "K")⟩],
        [⟨"", .named ⟨"Entry", "example.com/lib", []⟩⟩, ⟨"ok", .bool⟩], true⟩⟩
    let plain : InterfaceDecl :=
      ⟨"Cache", "example.com/cache", [⟨["K"], .pointer .int⟩], [get], []⟩
    let d : InterfaceDecl := { plain with typeSet := [.approx .int, .exact .string] }
    (∃ clause body, plain.typeParams.clause scope = .ok clause ∧
      plain.bodyType.render scope false = .ok body ∧
      plain.declaration scope = .ok (.keyword "type" :: .ident "Cache" :: (clause ++ body))) ∧
    ∃ f clause methods union, d.declaration scope = .ok f ∧
      Fragment.text f = "type Cache[K *int,] interface\x7b ~int | string; " ++
        "Get(keys ...K) (lib.Entry, bool) \x7d" ∧
      d.typeParams.clause scope = .ok clause ∧
      d.bodyType.render scope false = .ok [.keyword "interface", .group .brace methods] ∧
      TypeExpr.render scope false (.union d.typeSet) = .ok union ∧
      f = .keyword "type" :: .ident "Cache" ::
        (clause ++ [.keyword "interface", .group .brace (union :: methods)]) := by
  intro scope get plain d
  obtain ⟨f, hf⟩ : ∃ f, plain.declaration scope = .ok f := ⟨_, rfl⟩
  obtain ⟨g, hg⟩ : ∃ g, d.declaration scope = .ok g := ⟨_, rfl⟩
  obtain ⟨-, hplain, -⟩ := declaration_agrees_with_types scope plain
  obtain ⟨-, -, htypeSet⟩ := declaration_agrees_with_types scope d
  constructor
  · obtain ⟨clause, body, hclause, hbody, rfl⟩ := (hplain rfl f).mp hf
    exact ⟨clause, body, hclause, hbody, hf⟩
  · obtain ⟨clause, methods, union, hparts⟩ := (htypeSet (List.cons_ne_nil _ _) g).mp hg
    refine ⟨g, clause, methods, union, hg, ?_, hparts⟩
    cases hg
    decide +kernel

end InterfaceDecl

end GoDecl
