import GoDecl.Proofs.Methods
import GoDecl.Proofs.Offenders

/-!
# Why there is no declaration

What can be wrong with a requested declaration, in the order in which it is reported: first
what keeps the declaration from being built, where methods count in the order in which they
are listed, then what cannot be written.  The type set is written before the methods, the
methods stand in the order of their names, and the constraints of the type parameters come
last, although they are printed first.  A method that a later one of the same name replaces
has to be a function, but what it holds is not written and is no defect.

## Main definitions

* `InterfaceDecl.malformations`: what keeps a declaration from being built
* `InterfaceDecl.walk`: what writing a declaration comes to
* `InterfaceDecl.defects`: what is malformed, then what cannot be written

## Main results

* `build_failsFirst`, `declaration_failsFirst`: building a declaration and writing it fail
  with the first thing that is wrong
* `declare_eq_error_iff`: the first defect is what is reported, and there is a declaration if
  and only if there is none
-/

namespace GoDecl

open Visit TypeExpr

/-! ### Parts of a declaration -/

theorem Method.ofBinding_failsFirst (interface : String) (b : Binding) :
    FailsFirst
      (if b.type.kind = .signature then [] else [.notSignature interface b.name b.type.kind])
      (ofBinding interface b) := by
  rw [ofBinding]
  cases hs : b.type.signature? with
  | none =>
    rw [if_neg (signature?_eq_none_iff.mp hs)]
    exact .error _ []
  | some s =>
    rw [signature?_eq_some_iff] at hs
    rw [hs]
    exact .ok _

/-- A method of a declaration is a function, so its first offender is one of its parts. -/
theorem Method.entry_failsFirst (scope : Scope) (m : Method) :
    FailsFirst (offenders (walkMethod m.binding.name m.binding.type)) (m.entry scope) :=
  (renderSignature_failsFirst (m.signature.each (render_failsFirst scope))).bind_pure _

theorem TypeParamGroup.render_failsFirst (scope : Scope) (lone : Bool) (g : TypeParamGroup) :
    FailsFirst (offenders g.constraint.walk) (g.render scope lone) :=
  (g.constraint.render_failsFirst scope false).bind_pure _

theorem TypeParams.clause_failsFirst (scope : Scope) (ps : TypeParams) :
    FailsFirst (offenders (ps.flatMap fun g => g.constraint.walk)) (ps.clause scope) :=
  (failsFirst_mapM fun g _ => g.render_failsFirst scope (isLone ps)).bind_pure _

theorem TypeExpr.kind_eq_signature_iff {t : TypeExpr} :
    t.kind = .signature ↔ ∃ s, t = .func s := by
  cases t <;> simp [kind]

namespace InterfaceDecl

theorem typeSetEntry_failsFirst (scope : Scope) (terms : List Term) :
    FailsFirst (offenders (walkTerms terms)) (typeSetEntry scope terms) := by
  rw [typeSetEntry]
  split
  · next hempty =>
    rw [List.isEmpty_iff.mp hempty]
    exact .ok []
  · exact ((TypeExpr.union terms).render_failsFirst scope false).bind_pure _

/-! ### Building and writing -/

/-- What keeps a declaration from being built. -/
def malformations (name path : String) (resolved : TypeExpr) : List Malformed :=
  (if name = "" then [.emptyName] else []) ++
    ((if path = "" then [.emptyPath name] else []) ++
      match resolved.interface? with
      | none => [.notInterface name resolved.kind]
      | some body => body.methods.flatMap fun b =>
        if b.type.kind = .signature then [] else [.notSignature name b.name b.type.kind])

/-- **Building a declaration fails with the first thing that keeps it from being built.** -/
theorem build_failsFirst (name path : String) (typeParams : TypeParams) (resolved : TypeExpr) :
    FailsFirst (malformations name path resolved) (build name path typeParams resolved) := by
  rw [build, malformations]
  refine .check _ fun _ => .check _ fun _ => ?_
  cases resolved.interface? with
  | none => exact .error _ []
  | some body => exact (FailsFirst.mapM fun b _ => Method.ofBinding_failsFirst name b).bind_pure _

/-- What writing a declaration comes to: its type set, its methods, and the constraints of its
type parameters. -/
def walk (typeSet : List Term) (methods : List Binding) (typeParams : TypeParams) : List Visit :=
  walkTerms typeSet ++ (walkMethods methods ++ typeParams.flatMap fun g => g.constraint.walk)

/-- **Writing a declaration fails with the first offender.** -/
theorem declaration_failsFirst (scope : Scope) (d : InterfaceDecl) :
    FailsFirst (offenders (walk d.typeSet (d.methods.map Method.binding) d.typeParams))
      (d.declaration scope) := by
  have hmethods : FailsFirst (offenders (walkMethods (d.methods.map Method.binding)))
      (d.methods.mapM (Method.entry scope)) := by
    rw [walkMethods_eq_flatMap, List.flatMap_map]
    exact failsFirst_mapM fun m _ => m.entry_failsFirst scope
  rw [walk, offenders_append, offenders_append, declaration]
  exact (typeSetEntry_failsFirst scope d.typeSet).bind fun _ _ =>
    hmethods.bind fun _ _ => (d.typeParams.clause_failsFirst scope).bind_pure _

/-! ### The whole way -/

/-- Everything that is wrong with a requested declaration, in the order in which it is
reported.  Of the methods of one name only the last is written. -/
def defects (name path : String) (typeParams : TypeParams) (resolved : TypeExpr) :
    List GenerateError :=
  (malformations name path resolved).map .malformed ++
    match resolved.interface? with
    | none => []
    | some body =>
      let methods := byName (fun b : Binding => b.name) body.methods
      (offenders (walk (body.unionTerms?.getD []) methods typeParams)).map .unsupported

/-- A declaration is built from a name, an import path and an interface whose methods are
functions. -/
theorem malformations_eq_nil_iff {name path : String} {resolved : TypeExpr} :
    malformations name path resolved = [] ↔
      name ≠ "" ∧ path ≠ "" ∧ ∃ body : InterfaceBody, resolved = .interface body ∧
        ∀ b ∈ body.methods, ∃ s, b.type = .func s := by
  cases hresolved : resolved.interface? with
  | none =>
    have hnone : ∀ body, resolved ≠ .interface body := by
      rintro body rfl
      cases hresolved
    simp [malformations, hresolved, hnone]
  | some body =>
    obtain rfl := interface?_eq_some_iff.mp hresolved
    simp [malformations, interface?, kind_eq_signature_iff]

/-- A built declaration comes from an interface whose methods are functions. -/
theorem exists_methods_of_build {name path : String} {typeParams : TypeParams}
    {resolved : TypeExpr} {d : InterfaceDecl} (h : build name path typeParams resolved = .ok d) :
    ∃ (body : InterfaceBody) (ms : List Method), resolved = .interface body ∧
      body.methods = ms.map Method.binding ∧
      d = ⟨name, path, typeParams, Method.collect ms, body.unionTerms?.getD []⟩ := by
  have hfirst := build_failsFirst name path typeParams resolved
  obtain ⟨hname, hpath, body, rfl, hfunc⟩ :=
    malformations_eq_nil_iff.mp (hfirst.exists_eq_ok_iff.mp ⟨d, h⟩)
  obtain ⟨ms, hms⟩ := Method.exists_map_binding hfunc
  rw [build_of_methods hname hpath typeParams hms] at h
  exact ⟨body, ms, rfl, hms, (Except.ok.inj h).symm⟩

/-- Building and writing a declaration fails with the first defect. -/
theorem declare_failsFirst (scope : Scope) (name path : String) (typeParams : TypeParams)
    (resolved : TypeExpr) :
    FailsFirst (defects name path typeParams resolved)
      (declare scope name path typeParams resolved) := by
  have hbuild := build_failsFirst name path typeParams resolved
  refine (hbuild.mapError GenerateError.malformed).bind ?_
  intro d hd
  rw [mapError_eq_ok_iff] at hd
  obtain ⟨body, ms, rfl, hms, rfl⟩ := exists_methods_of_build hd
  have hmethods : byName (fun b : Binding => b.name) body.methods =
      (Method.collect ms).map Method.binding := by
    rw [hms, byName_map, Method.collect_eq_byName]
    rfl
  simp only [interface?, hmethods]
  exact (declaration_failsFirst scope
    ⟨name, path, typeParams, Method.collect ms, body.unionTerms?.getD []⟩).mapError
    GenerateError.unsupported

/-- **One order of precedence decides the error.**  What is reported of a declaration that
cannot be built or written is the first of its defects, in every scope, and there is a
declaration if and only if there are no defects. -/
theorem declare_eq_error_iff (scope : Scope) (name path : String) (typeParams : TypeParams)
    (resolved : TypeExpr) :
    (∀ e, declare scope name path typeParams resolved = .error e ↔
      (defects name path typeParams resolved).head? = some e) ∧
    ((∃ f, declare scope name path typeParams resolved = .ok f) ↔
      defects name path typeParams resolved = []) := by
  have hfirst := declare_failsFirst scope name path typeParams resolved
  exact ⟨fun _ => hfirst.eq_error_iff, hfirst.exists_eq_ok_iff⟩

/-- A tuple in a method that a later one replaces is no defect, but one in a constraint is. -/
example :
    let methods : List Binding :=
      [⟨"Get", .func ⟨[⟨"key", .tuple []⟩], [], false⟩⟩, ⟨"Get", .func ⟨[], [], false⟩⟩]
    let resolved : TypeExpr := .interface ⟨methods, []⟩
    declare .empty "Cache" "example.com/cache" [⟨["K"], .basic "any"⟩] resolved =
        .ok [.keyword "type", .ident "Cache", .group .bracket [[.ident "K", .ident "any"]],
          .keyword "interface", .group .brace [[.ident "Get", .group .paren []]]] ∧
      declare .empty "Cache" "example.com/cache" [⟨["K"], .tuple []⟩] resolved =
        .error (.unsupported .tuple) :=
  ⟨rfl, rfl⟩

end InterfaceDecl

end GoDecl
