import GoDecl.Logged
import GoDecl.Proofs.Defects

/-!
# What a run reports

A run stops at the first thing it reports as an error, so its log tells its outcome: rendering
adds one event if it fails and none if it succeeds, however deep the failure lies and however
many types could not be written either.  Building a declaration adds events only once it has
succeeded.

## Main definitions

* `Rejects.ofOutcome`: an outcome of rendering in another monad
* `Event.ReportsOffender`, `Event.ReportsBuilt`, `Event.Warns`: what an event says
* `RenderLog`, `BuildLog`, `WriteLog`: the events that belong to an outcome

## Main results

* `TypeExpr.render_eq_ofOutcome`, `InterfaceDecl.declaration_eq_ofOutcome`: rendering in a
  monad is its outcome there
* `Logged.runFrom_render`, `Logged.runFrom_declaration`: rendering a type or a declaration
  reports its error and nothing else
* `Logged.runFrom_build`, `Logged.runFrom_declare`: what building a declaration, and building
  and writing it, add to a log
* `Logged.log_matches_outcome`: the three of them, with what the events say
-/

namespace GoDecl

namespace Logged

/-! ### Outcomes and logs of runs -/

section Runs

variable {ε ε' α β : Type} (log : List Event)

@[simp] theorem runFrom_pure (a : α) : (pure a : Logged ε α).runFrom log = (.ok a, log) := rfl

@[simp] theorem runFrom_report (event : Event) :
    (report event : Logged ε Unit).runFrom log = (.ok (), log ++ [event]) := rfl

@[simp] theorem runFrom_ofExcept (x : Except ε α) :
    (ofExcept x : Logged ε α).runFrom log = (x, log) := by
  cases x <;> rfl

/-- A run goes on with the log that its first part has left behind. -/
theorem runFrom_bind (x : Logged ε α) (k : α → Logged ε β) :
    (x >>= k).runFrom log =
      match x.runFrom log with
      | (.ok a, log) => (k a).runFrom log
      | (.error e, log) => (.error e, log) := by
  simp only [runFrom, EStateM.run, bind, EStateM.bind]
  cases x log <;> rfl

theorem runFrom_adaptExcept (f : ε → ε') (x : Logged ε α) :
    runFrom log (x.adaptExcept f) = ((x.runFrom log).1.mapError f, (x.runFrom log).2) := by
  simp only [runFrom, EStateM.run, EStateM.adaptExcept]
  cases x log <;> rfl

end Runs

end Logged

/-! ### Rendering in a monad and its outcome -/

namespace Rejects

variable {m : Type → Type} [Monad m] [Rejects m] {α β : Type}

/-- An outcome in another monad: an error is a rejection there. -/
def ofOutcome : Except Unsupported α → m α
  | .ok a => pure a
  | .error cause => reject cause

@[simp] theorem ofOutcome_pure (a : α) : ofOutcome (pure a) = (pure a : m α) := rfl

variable [LawfulMonad m] [LawfulRejects m]

@[simp] theorem ofOutcome_bind (x : Except Unsupported α) (k : α → Except Unsupported β) :
    ofOutcome (x >>= k) = (ofOutcome x >>= fun a => ofOutcome (k a) : m β) := by
  cases x with
  | ok a => exact (pure_bind a fun a => ofOutcome (k a)).symm
  | error cause => exact (LawfulRejects.reject_bind cause fun a => ofOutcome (k a)).symm

@[simp] theorem ofOutcome_map (f : α → β) (x : Except Unsupported α) :
    ofOutcome (f <$> x) = (f <$> ofOutcome x : m β) := by
  rw [← bind_pure_comp, ofOutcome_bind, ← bind_pure_comp]
  rfl

theorem mapM_eq_ofOutcome {k : α → m β} {k' : α → Except Unsupported β}
    (h : ∀ a, k a = ofOutcome (k' a)) (as : List α) : as.mapM k = ofOutcome (as.mapM k') := by
  induction as with
  | nil => rfl
  | cons a as ih => simp [List.mapM_cons, h, ih]

end Rejects

open Rejects

section Rendering

variable {m : Type → Type} [Monad m] [LawfulMonad m] [Rejects m] [LawfulRejects m]

namespace TypeExpr

mutual

/-- **Rendering in a monad is its outcome:** nothing is written behind a rejection, so the first
error is all that is left of a type that cannot be written. -/
theorem render_eq_ofOutcome (scope : Scope) : ∀ (t : TypeExpr) (spread : Bool),
    t.render scope spread m = ofOutcome (t.render scope spread)
  | .basic name, _ => rfl
  | .pointer elem, _ => by simp [render, render_eq_ofOutcome scope elem]
  | .slice elem, _ => by simp [render, render_eq_ofOutcome scope elem]
  | .array len elem, _ => by simp [render, render_eq_ofOutcome scope elem]
  | .map key value, _ => by
    simp [render, render_eq_ofOutcome scope key, render_eq_ofOutcome scope value]
  | .chan dir elem, _ => by simp [render, render_eq_ofOutcome scope elem]
  | .struct fields, _ => by simp [render, renderEntries_eq_ofOutcome scope fields]
  | .func s, _ => by simp [render, renderSignature_eq_ofOutcome scope s]
  | .interface body, _ => by simp [render, renderBody_eq_ofOutcome scope body]
  | .named ref, _ => by simp [render, renderRef_eq_ofOutcome scope ref]
  | .typeParam name, _ => rfl
  | .union terms, _ => by simp [render, renderTerms_eq_ofOutcome scope terms]
  | .tuple _, _ => rfl

theorem renderEntries_eq_ofOutcome (scope : Scope) : ∀ (bs : List Binding) (variadic : Bool),
    renderEntries scope variadic bs m = ofOutcome (renderEntries scope variadic bs)
  | [], _ => rfl
  | ⟨name, type⟩ :: bs, variadic => by
    simp [renderEntries, render_eq_ofOutcome scope type, renderEntries_eq_ofOutcome scope bs]

theorem renderResults_eq_ofOutcome (scope : Scope) : ∀ bs : List Binding,
    renderResults scope bs m = ofOutcome (renderResults scope bs)
  | [] => rfl
  | ⟨name, type⟩ :: bs => by
    simp [renderResults, render_eq_ofOutcome scope type, renderResults_eq_ofOutcome scope bs]

theorem renderSignature_eq_ofOutcome (scope : Scope) : ∀ s : Signature,
    renderSignature scope s m = ofOutcome (renderSignature scope s)
  | ⟨params, results, variadic⟩ => by
    simp [renderSignature, renderEntries_eq_ofOutcome scope params,
      renderResults_eq_ofOutcome scope results]

theorem renderMethod_eq_ofOutcome (scope : Scope) (name : String) : ∀ t : TypeExpr,
    renderMethod scope name t m = ofOutcome (renderMethod scope name t)
  | .func s => by simp [renderMethod, renderSignature_eq_ofOutcome scope s]
  | .basic _ | .pointer _ | .slice _ | .array _ _ | .map _ _ | .chan _ _ | .struct _
  | .interface _ | .named _ | .typeParam _ | .union _ | .tuple _ => rfl

theorem renderMethods_eq_ofOutcome (scope : Scope) : ∀ bs : List Binding,
    renderMethods scope bs m = ofOutcome (renderMethods scope bs)
  | [] => rfl
  | ⟨name, type⟩ :: bs => by
    simp [renderMethods, renderMethod_eq_ofOutcome scope name type,
      renderMethods_eq_ofOutcome scope bs]

theorem renderBody_eq_ofOutcome (scope : Scope) : ∀ body : InterfaceBody,
    renderBody scope body m = ofOutcome (renderBody scope body)
  | ⟨methods, embeds⟩ => by
    rw [renderBody, renderBody, renderFirstUnion_eq_ofOutcome scope embeds]
    cases renderFirstUnion scope embeds with
    | some source => rfl
    | none => simp [renderMethods_eq_ofOutcome scope methods]

theorem renderFirstUnion_eq_ofOutcome (scope : Scope) : ∀ ts : List TypeExpr,
    renderFirstUnion scope ts m = (renderFirstUnion scope ts).map ofOutcome
  | [] => rfl
  | .union terms :: _ => by simp [renderFirstUnion, renderTerms_eq_ofOutcome scope terms]
  | .basic _ :: ts | .pointer _ :: ts | .slice _ :: ts | .array _ _ :: ts | .map _ _ :: ts
  | .chan _ _ :: ts | .struct _ :: ts | .func _ :: ts | .interface _ :: ts | .named _ :: ts
  | .typeParam _ :: ts | .tuple _ :: ts => renderFirstUnion_eq_ofOutcome scope ts

theorem renderRef_eq_ofOutcome (scope : Scope) : ∀ ref : TypeRef,
    renderRef scope ref m = ofOutcome (renderRef scope ref)
  | ⟨name, path, args⟩ => by simp [renderRef, renderAll_eq_ofOutcome scope args]

theorem renderAll_eq_ofOutcome (scope : Scope) : ∀ ts : List TypeExpr,
    renderAll scope ts m = ofOutcome (renderAll scope ts)
  | [] => rfl
  | t :: ts => by
    simp [renderAll, render_eq_ofOutcome scope t, renderAll_eq_ofOutcome scope ts]

theorem renderTerms_eq_ofOutcome (scope : Scope) : ∀ ts : List Term,
    renderTerms scope ts m = ofOutcome (renderTerms scope ts)
  | [] => rfl
  | ⟨type, tilde⟩ :: ts => by
    simp [renderTerms, render_eq_ofOutcome scope type, renderTerms_eq_ofOutcome scope ts]

end

end TypeExpr

theorem TypeParamGroup.render_eq_ofOutcome (scope : Scope) (lone : Bool) (g : TypeParamGroup) :
    g.render scope lone m = ofOutcome (g.render scope lone) := by
  simp [TypeParamGroup.render, TypeExpr.render_eq_ofOutcome (m := m)]

theorem TypeParams.clause_eq_ofOutcome (scope : Scope) (ps : TypeParams) :
    ps.clause scope m = ofOutcome (ps.clause scope) := by
  simp [TypeParams.clause,
    mapM_eq_ofOutcome (TypeParamGroup.render_eq_ofOutcome (m := m) scope ps.isLone)]

theorem Method.entry_eq_ofOutcome (scope : Scope) (x : Method) :
    x.entry scope m = ofOutcome (x.entry scope) := by
  simp [Method.entry, TypeExpr.renderSignature_eq_ofOutcome (m := m)]

namespace InterfaceDecl

theorem typeSetEntry_eq_ofOutcome (scope : Scope) (terms : List Term) :
    typeSetEntry scope terms m = ofOutcome (typeSetEntry scope terms) := by
  rw [typeSetEntry, typeSetEntry]
  split
  · rfl
  · simp [TypeExpr.render_eq_ofOutcome (m := m)]

/-- **Writing a declaration in a monad is its outcome.** -/
theorem declaration_eq_ofOutcome (scope : Scope) (d : InterfaceDecl) :
    d.declaration scope m = ofOutcome (d.declaration scope) := by
  simp [declaration, typeSetEntry_eq_ofOutcome (m := m), TypeParams.clause_eq_ofOutcome (m := m),
    mapM_eq_ofOutcome (Method.entry_eq_ofOutcome (m := m) scope)]

end InterfaceDecl

end Rendering

/-! ### Runs of the renderer and of the build -/

namespace Logged

/-- A run that has reported an error goes no further. -/
instance : LawfulRejects (Logged Unsupported) where
  reject_bind _ _ := rfl

theorem runFrom_ofOutcome {α : Type} (log : List Event) (x : Except Unsupported α) :
    (ofOutcome x : Logged Unsupported α).runFrom log = (x, log ++ Event.ofRendering x) := by
  cases x with
  | ok a => simp [ofOutcome, runFrom, Event.ofRendering, EStateM.run, pure, EStateM.pure]
  | error cause => rfl

/-- **Rendering a type reports its error and nothing else.** -/
theorem runFrom_render (log : List Event) (scope : Scope) (spread : Bool) (t : TypeExpr) :
    (render scope spread t).runFrom log =
      (t.render scope spread, log ++ Event.ofRendering (t.render scope spread)) := by
  rw [render, t.render_eq_ofOutcome, runFrom_ofOutcome]

/-- **Writing a declaration reports its error and nothing else.** -/
theorem runFrom_declaration (log : List Event) (scope : Scope) (d : InterfaceDecl) :
    (declaration scope d).runFrom log =
      (d.declaration scope, log ++ Event.ofRendering (d.declaration scope)) := by
  rw [declaration, d.declaration_eq_ofOutcome, runFrom_ofOutcome]

/-- **Building a declaration reports it once it is built,** and nothing if it cannot be built. -/
theorem runFrom_build (log : List Event) (name path : String) (typeParams : TypeParams)
    (resolved : TypeExpr) :
    (build name path typeParams resolved).runFrom log =
      (InterfaceDecl.build name path typeParams resolved,
        log ++ Event.ofBuild (InterfaceDecl.build name path typeParams resolved)) := by
  rw [build, runFrom_bind, runFrom_ofExcept]
  cases InterfaceDecl.build name path typeParams resolved with
  | error e => simp [Event.ofBuild]
  | ok d =>
    rw [Event.ofBuild, Event.ofDecl]
    cases hconstraint : d.isConstraintOnly <;>
      simp [runFrom_bind, hconstraint, -bind_pure_comp]

/-- **Building and writing a declaration** adds the events of building it and then, if it is built
and cannot be written, the reason. -/
theorem runFrom_declare (log : List Event) (scope : Scope) (name path : String)
    (typeParams : TypeParams) (resolved : TypeExpr) :
    (declare scope name path typeParams resolved).runFrom log =
      (InterfaceDecl.declare scope name path typeParams resolved,
        log ++ Event.ofDeclare scope name path typeParams resolved) := by
  rw [declare, runFrom_bind, runFrom_adaptExcept, runFrom_build, InterfaceDecl.declare,
    Event.ofDeclare]
  cases InterfaceDecl.build name path typeParams resolved with
  | error e => simp [Except.mapError, Event.ofBuild, bind, Except.bind]
  | ok d =>
    simp [Except.mapError, Event.ofBuild, runFrom_adaptExcept, runFrom_declaration]

end Logged

/-! ### What the events say -/

namespace Event

/-- An event that reports an offender: with its kind, and with the name of the method if the
offender is one. -/
structure ReportsOffender (event : Event) (v : Visit) : Prop where
  level : event.level = "trace"
  type : ∀ t, v = .type t →
    event.message = "no rendering rule for type node" ∧
      event.fields = [("kind", .string t.kind.name)]
  method : ∀ name t, v = .method name t →
    event.message = "interface method is not a signature" ∧
      event.fields = [("method", .string name), ("kind", .string t.kind.name)]

/-- An event that reports a built declaration. -/
structure ReportsBuilt (event : Event) (name path : String) (methods typeParams : Nat) : Prop where
  level : event.level = "debug"
  message : event.message = "built interface IR"
  fields : event.fields = [("interface", .string name), ("import_path", .string path),
    ("methods", .natural methods), ("type_params", .natural typeParams)]

/-- An event that warns of a declaration that is only a type set. -/
structure Warns (event : Event) (name : String) (terms : Nat) : Prop where
  level : event.level = "warn"
  message : event.message = "interface only declares a type set; generating it anyway"
  fields : event.fields = [("interface", .string name), ("terms", .natural terms)]

theorem reportsOffender {v : Visit} (h : v.IsOffender) :
    ReportsOffender (.unsupported v.cause) v := by
  cases v with
  | type t =>
    have hkind : t.kind = .tuple := h
    refine ⟨rfl, ?_, by rintro _ _ ⟨⟩⟩
    rintro _ ⟨⟩
    rw [hkind]
    exact ⟨rfl, rfl⟩
  | method name t =>
    refine ⟨rfl, by rintro _ ⟨⟩, ?_⟩
    rintro _ _ ⟨⟩
    exact ⟨rfl, rfl⟩

theorem reportsBuilt (name path : String) (methods typeParams : Nat) :
    ReportsBuilt (.built name path methods typeParams) name path methods typeParams :=
  ⟨rfl, rfl, rfl⟩

theorem warns (name : String) (terms : Nat) : Warns (.typeSetOnly name terms) name terms :=
  ⟨rfl, rfl, rfl⟩

end Event

/-! ### Outcomes and their events -/

/-- The events that belong to an outcome of rendering a type: none, or one that reports the first
offender. -/
inductive RenderLog (t : TypeExpr) : Except Unsupported Fragment → List Event → Prop
  | ok (f : Fragment) : RenderLog t (.ok f) []
  | error {e : Unsupported} {v : Visit} {event : Event} (first : Visit.FirstOffender t.walk v)
      (kind : e.kind = v.kind) (reports : event.ReportsOffender v) : RenderLog t (.error e) [event]

/-- The events that belong to an outcome of building a declaration: none if it fails, otherwise
one that reports the declaration, with its distinct method names counted, and behind it a warning
if the interface has a type set and no methods. -/
inductive BuildLog (name path : String) (typeParams : TypeParams) (resolved : TypeExpr) :
    Except Malformed InterfaceDecl → List Event → Prop
  | error (e : Malformed) : BuildLog name path typeParams resolved (.error e) []
  | ok {d : InterfaceDecl} {body : InterfaceBody} {event : Event}
      (interface : resolved = .interface body)
      (reports : event.ReportsBuilt name path (body.methods.map (·.name)).toFinset.card
        typeParams.length)
      (useful : ¬ (body.methods = [] ∧ body.unionTerms?.getD [] ≠ [])) :
      BuildLog name path typeParams resolved (.ok d) [event]
  | typeSetOnly {d : InterfaceDecl} {body : InterfaceBody} {event warning : Event}
      (interface : resolved = .interface body)
      (reports : event.ReportsBuilt name path (body.methods.map (·.name)).toFinset.card
        typeParams.length)
      (typeSetOnly : body.methods = [] ∧ body.unionTerms?.getD [] ≠ [])
      (warns : warning.Warns name (body.unionTerms?.getD []).length) :
      BuildLog name path typeParams resolved (.ok d) [event, warning]

/-- The events that writing a built declaration adds, by the outcome of building and writing it:
one with the kind of the error if the declaration is unsupported, otherwise none. -/
inductive WriteLog : Except GenerateError Fragment → List Event → Prop
  | ok (f : Fragment) : WriteLog (.ok f) []
  | malformed (e : Malformed) : WriteLog (.error (.malformed e)) []
  | unsupported {e : Unsupported} {event : Event} (level : event.level = "trace")
      (kind : ("kind", .string e.kind.name) ∈ event.fields) :
      WriteLog (.error (.unsupported e)) [event]

theorem renderLog_ofRendering (scope : Scope) (spread : Bool) (t : TypeExpr) :
    RenderLog t (t.render scope spread) (Event.ofRendering (t.render scope spread)) := by
  cases hrender : t.render scope spread with
  | ok f => exact .ok f
  | error e =>
    obtain ⟨v, hv, rfl⟩ := Visit.head?_offenders_eq_some_iff.mp
      ((t.render_failsFirst scope spread).eq_error_iff.mp hrender)
    exact .error hv hv.isOffender.kind_cause (Event.reportsOffender hv.isOffender)

theorem buildLog_ofBuild (name path : String) (typeParams : TypeParams) (resolved : TypeExpr) :
    BuildLog name path typeParams resolved (InterfaceDecl.build name path typeParams resolved)
      (Event.ofBuild (InterfaceDecl.build name path typeParams resolved)) := by
  cases hbuild : InterfaceDecl.build name path typeParams resolved with
  | error e => exact .error e
  | ok d =>
    obtain ⟨body, ms, rfl, hms, rfl⟩ := InterfaceDecl.exists_methods_of_build hbuild
    have hreports : (Event.built name path (Method.collect ms).length typeParams.length).ReportsBuilt
        name path (body.methods.map (·.name)).toFinset.card typeParams.length := by
      rw [hms, Method.map_name_binding, ← Method.length_collect]
      exact Event.reportsBuilt name path _ _
    rw [Event.ofBuild, Event.ofDecl]
    split
    · next hconstraint =>
      rw [InterfaceDecl.isConstraintOnly_iff, Method.collect_eq_nil_iff] at hconstraint
      refine .typeSetOnly rfl hreports ?_ (Event.warns name _)
      rwa [hms, List.map_eq_nil_iff]
    · next hconstraint =>
      rw [InterfaceDecl.isConstraintOnly_iff, Method.collect_eq_nil_iff] at hconstraint
      refine .ok rfl hreports ?_
      rwa [hms, List.map_eq_nil_iff]

theorem kind_mem_fields (e : Unsupported) :
    ("kind", .string e.kind.name) ∈ (Event.unsupported e).fields := by
  cases e <;> simp [Event.fields, Unsupported.kind]

namespace Logged

/-- Writing a declaration adds to the events of building it. -/
theorem exists_writeLog (scope : Scope) (name path : String) (typeParams : TypeParams)
    (resolved : TypeExpr) :
    ∃ events, Event.ofDeclare scope name path typeParams resolved =
        Event.ofBuild (InterfaceDecl.build name path typeParams resolved) ++ events ∧
      WriteLog (InterfaceDecl.declare scope name path typeParams resolved) events := by
  rw [Event.ofDeclare, InterfaceDecl.declare]
  cases InterfaceDecl.build name path typeParams resolved with
  | error e => exact ⟨[], rfl, .malformed e⟩
  | ok d =>
    refine ⟨_, rfl, ?_⟩
    simp only [Except.mapError, ok_bind]
    cases d.declaration scope with
    | ok f => exact .ok f
    | error e => exact .unsupported rfl (kind_mem_fields e)

/-- **The log matches the outcome.**  Rendering a type leaves the log as it is, or adds one event
for the first offender and fails with its kind.  Building a declaration leaves the log as it is if
it fails, and otherwise adds the report of the declaration, with a warning behind it exactly if
there is a type set and no method.  Building and writing a declaration adds what building it adds,
and behind it one event with the kind of the error exactly if the declaration is unsupported. -/
theorem log_matches_outcome (log : List Event) (scope : Scope) :
    (∀ (t : TypeExpr) (spread : Bool), ∃ events,
      (render scope spread t).runFrom log = (t.render scope spread, log ++ events) ∧
      RenderLog t (t.render scope spread) events) ∧
    ∀ (name path : String) (typeParams : TypeParams) (resolved : TypeExpr), ∃ events written,
      (build name path typeParams resolved).runFrom log =
        (InterfaceDecl.build name path typeParams resolved, log ++ events) ∧
      BuildLog name path typeParams resolved
        (InterfaceDecl.build name path typeParams resolved) events ∧
      (declare scope name path typeParams resolved).runFrom log =
        (InterfaceDecl.declare scope name path typeParams resolved, log ++ (events ++ written)) ∧
      WriteLog (InterfaceDecl.declare scope name path typeParams resolved) written := by
  constructor
  · intro t spread
    exact ⟨_, runFrom_render log scope spread t, renderLog_ofRendering scope spread t⟩
  · intro name path typeParams resolved
    obtain ⟨written, hevents, hwritten⟩ := exists_writeLog scope name path typeParams resolved
    refine ⟨_, written, runFrom_build log name path typeParams resolved,
      buildLog_ofBuild name path typeParams resolved, ?_, hwritten⟩
    rw [runFrom_declare, hevents]

/-- A method that is not a function is reported, and neither the method behind it nor the tuple
is. -/
example :
    let body : InterfaceBody := ⟨[⟨"Len", .int⟩, ⟨"Cap", .string⟩], []⟩
    (render .empty false (.map (.interface body) (.tuple []))).runFrom [] =
      (.error (.method "Len" .basic), [.unsupported (.method "Len" .basic)]) := rfl

/-- An interface with a method is reported once it is built, and nothing else is. -/
example :
    let size : Signature := ⟨[], [⟨"", .int⟩], false⟩
    (build "Sizer" "example.com/app" [] (.interface ⟨[⟨"Size", .func size⟩], []⟩)).runFrom [] =
      (.ok ⟨"Sizer", "example.com/app", [], [⟨"Size", size⟩], []⟩,
        [.built "Sizer" "example.com/app" 1 0]) := rfl

/-- One that is only a type set is reported too, with a warning behind it. -/
example :
    let terms : List Term := [.approx .int, .exact .string]
    (build "Key" "example.com/app" [] (.interface ⟨[], [.union terms]⟩)).runFrom [] =
      (.ok ⟨"Key", "example.com/app", [], [], terms⟩,
        [.built "Key" "example.com/app" 0 0, .typeSetOnly "Key" 2]) := rfl

end Logged

end GoDecl
