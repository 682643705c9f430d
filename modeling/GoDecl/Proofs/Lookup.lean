import GoDecl.Proofs.ByteOrder
import GoDecl.Proofs.Methods

/-!
# Methods by name

The methods of a built declaration stand in the order of the bytes of their names, each name
once, with the signature that was listed last, so bisection finds every listed name and no other.

## Main definitions

* `InterfaceDecl.BuiltFrom`: what a built declaration keeps of the interface

## Main results

* `Method.bisect_eq_some_of_mem`: bisection ends at the method of a name, if there is one
* `InterfaceDecl.method?_eq_some_iff`: a method is found exactly by its name
* `InterfaceDecl.exists_builtFrom`: what is built from an interface, and what is found in it
-/

namespace GoDecl

namespace Method

/-! ### Bisection -/

theorem mem_of_bisect {name : String} {ms : List Method} {m : Method}
    (h : bisect name ms = some m) : m ∈ ms := by
  fun_induction bisect name ms with
  | case1 ms hlen => exact List.mem_of_head? h
  | case2 => cases h
  | case3 ms hlen half m' upper hdrop hlt ih => exact List.mem_of_mem_take (ih h)
  | case4 ms hlen half m' upper hdrop hlt ih => exact List.mem_of_mem_drop (hdrop ▸ ih h)

/-- **Bisection ends at the method of a name,** if the methods are in order and one has it. -/
theorem bisect_eq_some_of_mem {ms : List Method} (hsorted : Sorted ms) {m : Method} (hm : m ∈ ms) :
    bisect m.name ms = some m := by
  generalize hname : m.name = name
  fun_induction bisect name ms with
  | case1 ms hlen =>
    obtain ⟨x, rfl⟩ : ∃ x, ms = [x] :=
      List.length_eq_one_iff.mp (le_antisymm hlen (List.length_pos_of_mem hm))
    rw [List.mem_singleton.mp hm, List.head?_cons]
  | case2 ms hlen half hdrop =>
    rw [List.drop_eq_nil_iff] at hdrop
    omega
  | case3 ms hlen half m' upper hdrop hlt ih =>
    refine ih hsorted.take ?_
    have hlower : m ∈ ms.take half := by
      rw [← List.take_append_drop half ms, List.mem_append, hdrop] at hm
      refine hm.resolve_right fun hupper => ?_
      rcases List.mem_cons.mp hupper with rfl | hupper
      · exact absurd hlt (hname ▸ String.lt_irrefl _)
      · have hlt' := (List.pairwise_cons.mp (hdrop ▸ hsorted.drop)).1 m hupper
        exact absurd (hname ▸ hlt') (String.lt_asymm hlt)
    exact (List.take_subset_take_left ms (by omega)) hlower
  | case4 ms hlen half m' upper hdrop hlt ih =>
    have hsorted' : Sorted (m' :: upper) := hdrop ▸ hsorted.drop
    refine ih hsorted' ?_
    rw [← List.take_append_drop half ms, List.mem_append, hdrop] at hm
    refine hm.resolve_left fun hlower => ?_
    have hcross := (List.pairwise_append.mp ((List.take_append_drop half ms).symm ▸ hsorted)).2.2
    exact hlt (hname ▸ hcross m hlower m' (hdrop ▸ List.mem_cons_self))

end Method

theorem TypeExpr.unionTerms?_eq_none_iff {t : TypeExpr} :
    t.unionTerms? = none ↔ t.kind ≠ .union := by
  cases t <;> simp [unionTerms?, kind]

namespace InterfaceDecl

/-! ### Lookup -/

/-- **A method is found exactly by its name.** -/
theorem method?_eq_some_iff {d : InterfaceDecl} (hsorted : Method.Sorted d.methods) {n : String}
    {m : Method} : d.method? n = some m ↔ m ∈ d.methods ∧ m.name = n := by
  rw [method?, Option.filter_eq_some_iff, decide_eq_true_iff]
  constructor
  · rintro ⟨hbisect, hname⟩
    exact ⟨Method.mem_of_bisect hbisect, hname⟩
  · rintro ⟨hm, rfl⟩
    exact ⟨Method.bisect_eq_some_of_mem hsorted hm, rfl⟩

/-- A method is collected if it is the last one that is listed under its name. -/
theorem mem_collect_iff_getLast? {body : InterfaceBody} {ms : List Method}
    (hms : body.methods = ms.map Method.binding) {m : Method} :
    m ∈ Method.collect ms ↔
      (body.methods.filter fun b => b.name = m.name).getLast? = some m.binding := by
  rw [Method.mem_collect_iff, mem_lastByName_iff, hms, List.filter_map, List.getLast?_map,
    Option.map_eq_some_iff]
  constructor
  · intro h
    exact ⟨m, h, rfl⟩
  · rintro ⟨m', h, hbinding⟩
    exact Method.binding_injective hbinding ▸ h

/-! ### What is built -/

/-- A declaration that is built from a name, an import path, type parameters and the body of an
interface whose methods are functions. -/
structure BuiltFrom (name path : String) (typeParams : TypeParams) (body : InterfaceBody)
    (d : InterfaceDecl) : Prop where
  name_eq : d.name = name
  path_eq : d.path = path
  typeParams_eq : d.typeParams = typeParams
  /-- The type set is the first union that the interface embeds. -/
  typeSet_of_union : ∀ before terms after, body.embeds = before ++ .union terms :: after →
    (∀ t ∈ before, t.kind ≠ .union) → d.typeSet = terms
  typeSet_of_no_union : (∀ t ∈ body.embeds, t.kind ≠ .union) → d.typeSet = []
  /-- The methods stand in the order of the bytes of their names, each name once. -/
  ordered : d.methods.Pairwise fun m m' => utf8Bytes m.name < utf8Bytes m'.name
  mem_names_iff : ∀ n, n ∈ d.methods.map (·.name) ↔ n ∈ body.methods.map (·.name)
  /-- A method has the signature that is listed last under its name. -/
  mem_iff : ∀ m, m ∈ d.methods ↔
    (body.methods.filter fun b => b.name = m.name).getLast? = some ⟨m.name, .func m.signature⟩
  /-- A method is found by its name, and by no other. -/
  method?_eq_some_iff : ∀ n m, d.method? n = some m ↔ m ∈ d.methods ∧ m.name = n
  method?_eq_none_iff : ∀ n, d.method? n = none ↔ n ∉ body.methods.map (·.name)

theorem builtFrom_of_methods (name path : String) (typeParams : TypeParams) {body : InterfaceBody}
    {ms : List Method} (hms : body.methods = ms.map Method.binding) :
    BuiltFrom name path typeParams body
      ⟨name, path, typeParams, Method.collect ms, body.unionTerms?.getD []⟩ where
  name_eq := rfl
  path_eq := rfl
  typeParams_eq := rfl
  typeSet_of_union before terms after hembeds hbefore := by
    have hunion : body.unionTerms? = some terms :=
      List.findSome?_eq_some_iff.mpr ⟨before, .union terms, after, hembeds, rfl,
        fun t ht => TypeExpr.unionTerms?_eq_none_iff.mpr (hbefore t ht)⟩
    rw [hunion]
    rfl
  typeSet_of_no_union hembeds := by
    have hnone : body.unionTerms? = none :=
      List.findSome?_eq_none_iff.mpr fun t ht => TypeExpr.unionTerms?_eq_none_iff.mpr (hembeds t ht)
    rw [hnone]
    rfl
  ordered := (Method.sorted_collect ms).imp lt_iff_utf8Bytes_lt.mp
  mem_names_iff n := by
    rw [hms, Method.map_name_binding]
    exact Method.mem_names_collect
  mem_iff _ := mem_collect_iff_getLast? hms
  method?_eq_some_iff _ _ := method?_eq_some_iff (Method.sorted_collect ms)
  method?_eq_none_iff n := by
    rw [hms, Method.map_name_binding, ← Method.mem_names_collect, Option.eq_none_iff_forall_ne_some,
      List.mem_map, not_exists]
    exact forall_congr' fun m => not_congr (method?_eq_some_iff (Method.sorted_collect ms))

/-- **Building orders the methods and lookup finds them.**  From a name, an import path and an
interface whose methods are functions a declaration is built. -/
theorem exists_builtFrom {name path : String} (hname : name ≠ "") (hpath : path ≠ "")
    (typeParams : TypeParams) {body : InterfaceBody}
    (hfunc : ∀ b ∈ body.methods, ∃ s, b.type = .func s) :
    ∃ d, build name path typeParams (.interface body) = .ok d ∧
      BuiltFrom name path typeParams body d := by
  obtain ⟨ms, hms⟩ := Method.exists_map_binding hfunc
  exact ⟨_, build_of_methods hname hpath typeParams hms, builtFrom_of_methods name path typeParams hms⟩

/-- Four methods, two of one name, with names outside ASCII: `𝐀dd` has a greater code point than
`Ａdd`. -/
theorem exists_builtFrom_cache :
    let close : Signature := ⟨[], [⟨"", .error⟩], false⟩
    let get : Signature := ⟨[⟨"key", .typeParam "K"⟩], [⟨"value", .typeParam "V"⟩], false⟩
    let terms : List Term := [.approx .int, .exact .string]
    let body : InterfaceBody :=
      ⟨[⟨"𝐀dd", .func close⟩, ⟨"Get", .func close⟩, ⟨"Ａdd", .func close⟩, ⟨"Get", .func get⟩],
        [.error, .union terms, .union []]⟩
    (∀ b ∈ body.methods, ∃ s, b.type = .func s) ∧
      ∃ d, build "Cache" "example.com/cache" [] (.interface body) = .ok d ∧
        BuiltFrom "Cache" "example.com/cache" [] body d ∧
        d.typeSet = terms ∧ d.methods = [⟨"Get", get⟩, ⟨"Ａdd", close⟩, ⟨"𝐀dd", close⟩] ∧
        d.method? "Get" = some ⟨"Get", get⟩ ∧ d.method? "Put" = none := by
  intro close get terms body
  have hfunc : ∀ b ∈ body.methods, ∃ s, b.type = .func s := by
    simp [body]
  obtain ⟨d, hd, hbuilt⟩ :=
    exists_builtFrom (by decide : "Cache" ≠ "") (by decide : "example.com/cache" ≠ "") [] hfunc
  have hmethods : d.methods = [⟨"Get", get⟩, ⟨"Ａdd", close⟩, ⟨"𝐀dd", close⟩] := by
    cases hd
    decide +kernel
  refine ⟨hfunc, d, hd, hbuilt, ?_, hmethods, ?_, ?_⟩
  · exact hbuilt.typeSet_of_union [.error] terms [.union []] rfl (by decide)
  · refine (hbuilt.method?_eq_some_iff _ _).mpr ⟨?_, rfl⟩
    rw [hmethods]
    exact List.mem_cons_self
  · refine (hbuilt.method?_eq_none_iff _).mpr ?_
    decide

end InterfaceDecl

end GoDecl
