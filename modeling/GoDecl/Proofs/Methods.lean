import GoDecl.Declaration.Source
import Mathlib

/-!
# The methods of a built declaration

A resolver lists methods in any order and may list one several times.  Of the methods of
one name the last counts, and the methods of a declaration stand in the order of their
names, so what is built depends on the listed methods as a set as long as no name has two
different ones.

## Main definitions

* `lastByName`: the elements of a list that no later one of the same name replaces
* `byName`: the same elements in the order of their names
* `Method.table`, `Method.drain`: methods put into a table, and taken out of it
* `Method.binding`: a method as a resolver lists it

## Main results

* `mem_lastByName_iff`, `mem_names_lastByName`: an element stays if it is the last one of its
  name, and every name keeps one
* `Method.collect_eq_byName`: collecting methods orders the last ones by name
* `Method.collect_eq_drain`: collecting methods is the same by way of a table, in whatever order
  the table lists its names
* `InterfaceDecl.build_of_methods`: what is built from an interface whose methods are
  functions
* `InterfaceDecl.declare_eq_of_same_methods`: the order and the repetitions of methods do
  not show
-/

namespace GoDecl

/-! ### The last element of each name -/

section LastByName

variable {α β : Type}

/-- The elements of a list that no later one of the same name replaces. -/
def lastByName (name : α → String) : List α → List α
  | [] => []
  | x :: xs =>
    if xs.any fun y => name y = name x then lastByName name xs else x :: lastByName name xs

variable {name : α → String}

theorem mem_of_mem_lastByName {x : α} {xs : List α} (h : x ∈ lastByName name xs) : x ∈ xs := by
  induction xs with
  | nil => exact h
  | cons y ys ih =>
    rw [lastByName] at h
    split at h
    · exact List.mem_cons_of_mem y (ih h)
    · rcases List.mem_cons.mp h with rfl | h
      · exact List.mem_cons_self
      · exact List.mem_cons_of_mem y (ih h)

/-- An element stays if it is the last one of its name. -/
theorem mem_lastByName_iff {x : α} {xs : List α} :
    x ∈ lastByName name xs ↔ (xs.filter fun y => name y = name x).getLast? = some x := by
  induction xs with
  | nil => simp [lastByName]
  | cons y ys ih =>
    rw [lastByName]
    by_cases hname : name y = name x
    · rw [List.filter_cons_of_pos (by simpa using hname)]
      by_cases hlater : ys.any fun z => name z = name y
      · have hne : ys.filter (fun z => name z = name x) ≠ [] := by
          obtain ⟨z, hz, hzy⟩ := List.any_eq_true.mp hlater
          exact List.ne_nil_of_mem (List.mem_filter.mpr ⟨hz, by simpa [hname] using hzy⟩)
        rw [if_pos hlater, ih, List.getLast?_cons_of_ne_nil hne]
      · have hnone : ∀ z ∈ ys, name z ≠ name x := by
          simpa [hname] using hlater
        have hnil : ys.filter (fun z => name z = name x) = [] := by simpa using hnone
        have hx : x ∉ lastByName name ys := fun h => hnone x (mem_of_mem_lastByName h) rfl
        rw [if_neg hlater, hnil, List.mem_cons, List.getLast?_singleton, Option.some_inj]
        exact ⟨fun h => (h.resolve_right hx).symm, fun h => .inl h.symm⟩
    · have hxy : x ≠ y := fun h => hname (h ▸ rfl)
      rw [List.filter_cons_of_neg (by simpa using hname), ← ih]
      split <;> simp [hxy]

/-- Every name keeps an element. -/
theorem mem_names_lastByName {n : String} {xs : List α} :
    n ∈ (lastByName name xs).map name ↔ n ∈ xs.map name := by
  constructor
  · intro h
    obtain ⟨x, hx, rfl⟩ := List.mem_map.mp h
    exact List.mem_map_of_mem (mem_of_mem_lastByName hx)
  · intro h
    obtain ⟨x, hx, rfl⟩ := List.mem_map.mp h
    have hmem : x ∈ xs.filter fun y => name y = name x := List.mem_filter.mpr ⟨hx, by simp⟩
    obtain ⟨y, hy⟩ := Option.ne_none_iff_exists'.mp
      (mt List.getLast?_eq_none_iff.mp (List.ne_nil_of_mem hmem))
    have hname : name y = name x := by simpa using (List.mem_filter.mp (List.mem_of_getLast? hy)).2
    rw [← hname] at hy ⊢
    exact List.mem_map_of_mem (mem_lastByName_iff.mpr hy)

theorem pairwise_lastByName (xs : List α) :
    (lastByName name xs).Pairwise fun x y => name x ≠ name y := by
  induction xs with
  | nil => exact List.Pairwise.nil
  | cons x xs ih =>
    rw [lastByName]
    split
    · exact ih
    · next hlast =>
      refine List.pairwise_cons.mpr ⟨?_, ih⟩
      intro y hy hxy
      exact hlast (List.any_eq_true.mpr ⟨y, mem_of_mem_lastByName hy, by simp [hxy]⟩)

theorem lastByName_map (f : β → α) (xs : List β) :
    lastByName name (xs.map f) = (lastByName (fun x => name (f x)) xs).map f := by
  induction xs with
  | nil => rfl
  | cons x xs ih =>
    simp only [List.map_cons, lastByName, List.any_map, Function.comp_def, ih]
    split <;> simp

/-- An element behind all others replaces those of its name. -/
theorem lastByName_concat (xs : List α) (x : α) :
    lastByName name (xs ++ [x]) =
      (lastByName name xs).filter (fun y => name y ≠ name x) ++ [x] := by
  induction xs with
  | nil => rfl
  | cons z zs ih =>
    by_cases hlast : zs.any fun w => name w = name z
    · simp [lastByName, hlast, ih]
    · by_cases hname : name x = name z
      · simp [lastByName, hlast, hname, ih]
      · simp [lastByName, hlast, hname, Ne.symm hname, ih]

/-- Where no name has two elements, every element is the last of its name. -/
theorem mem_lastByName_of_unique {xs : List α}
    (h : ∀ x ∈ xs, ∀ y ∈ xs, name x = name y → x = y) {x : α} :
    x ∈ lastByName name xs ↔ x ∈ xs := by
  induction xs with
  | nil => rfl
  | cons y ys ih =>
    have hys := ih fun x hx x' hx' => h x (List.mem_cons_of_mem y hx) x' (List.mem_cons_of_mem y hx')
    rw [lastByName]
    split
    · next hany =>
      obtain ⟨z, hz, hzy⟩ := List.any_eq_true.mp hany
      have hzy : z = y :=
        h z (List.mem_cons_of_mem y hz) y List.mem_cons_self (of_decide_eq_true hzy)
      rw [hys, List.mem_cons]
      exact ⟨.inr, fun hx => hx.elim (fun hxy => hxy ▸ hzy ▸ hz) id⟩
    · rw [List.mem_cons, List.mem_cons, hys]

/-- The last element of each name, in the order of the names. -/
def byName (name : α → String) (xs : List α) : List α :=
  (lastByName name xs).mergeSort fun x y => name x ≤ name y

theorem mem_byName {x : α} {xs : List α} : x ∈ byName name xs ↔ x ∈ lastByName name xs :=
  List.mem_mergeSort

/-- Sorted by name, elements with different names stand in ascending order. -/
theorem pairwise_mergeSort_of_ne {xs : List α} (h : xs.Pairwise fun x y => name x ≠ name y) :
    (xs.mergeSort fun x y => name x ≤ name y).Pairwise fun x y => name x < name y := by
  have hle : (xs.mergeSort fun x y => name x ≤ name y).Pairwise fun x y => name x ≤ name y := by
    refine (List.pairwise_mergeSort ?_ ?_ xs).imp of_decide_eq_true
    · intro x y z hxy hyz
      exact decide_eq_true (String.le_trans (of_decide_eq_true hxy) (of_decide_eq_true hyz))
    · intro x y
      simpa using String.le_total (name x) (name y)
  have hne := h.perm (List.mergeSort_perm xs fun x y => name x ≤ name y).symm fun h => h.symm
  exact (hle.and hne).imp fun ⟨hle, hne⟩ => lt_of_le_of_ne hle hne

/-- The names stand in ascending order, each once. -/
theorem pairwise_byName (xs : List α) : (byName name xs).Pairwise fun x y => name x < name y :=
  pairwise_mergeSort_of_ne (pairwise_lastByName xs)

theorem byName_map (f : β → α) (xs : List β) :
    byName name (xs.map f) = (byName (fun x => name (f x)) xs).map f := by
  rw [byName, byName, lastByName_map]
  refine (List.map_mergeSort ?_).symm
  intro x _ y _
  rfl

end LastByName

/-! ### Collected methods -/

namespace Method

theorem collect_concat (ms : List Method) (m : Method) :
    collect (ms ++ [m]) = insert m (collect ms) := by
  rw [collect, List.foldl_concat, ← collect]

/-- The collected methods are the last ones of their names.  They are inserted from the left, so
the induction takes them off at the end. -/
theorem mem_collect_iff {m : Method} {ms : List Method} :
    m ∈ collect ms ↔ m ∈ lastByName name ms := by
  induction ms using List.reverseRecOn with
  | nil => rfl
  | append_singleton ms m' ih =>
    rw [collect_concat, mem_insert_iff (sorted_collect ms), ih, lastByName_concat]
    simp [or_comm]

theorem mem_names_collect {n : String} {ms : List Method} :
    n ∈ (collect ms).map name ↔ n ∈ ms.map name := by
  have hlast : n ∈ (collect ms).map name ↔ n ∈ (lastByName name ms).map name := by
    simp only [List.mem_map, mem_collect_iff]
  exact hlast.trans mem_names_lastByName

/-- There are as many collected methods as names. -/
theorem length_collect (ms : List Method) :
    (collect ms).length = (ms.map name).toFinset.card := by
  have hnodup : ((collect ms).map name).Nodup :=
    List.pairwise_map.mpr ((sorted_collect ms).imp ne_of_lt)
  have hnames : ((collect ms).map name).toFinset = (ms.map name).toFinset := by
    ext n
    rw [List.mem_toFinset, List.mem_toFinset, mem_names_collect]
  rw [← List.length_map (f := name), ← List.toFinset_card_of_nodup hnodup, hnames]

theorem collect_eq_nil_iff {ms : List Method} : collect ms = [] ↔ ms = [] := by
  rw [← List.map_eq_nil_iff (f := name), ← List.map_eq_nil_iff (f := name) (l := ms),
    List.eq_nil_iff_forall_not_mem, List.eq_nil_iff_forall_not_mem]
  simp only [mem_names_collect]

/-- Methods in the order of their names are determined by which methods they are. -/
theorem Sorted.eq_of_mem_iff {ms ms' : List Method} (h : Sorted ms) (h' : Sorted ms')
    (hmem : ∀ m, m ∈ ms ↔ m ∈ ms') : ms = ms' :=
  List.Pairwise.eq_of_mem_iff (r := Order.Preimage name (· < ·)) h h' hmem

/-- **Collecting methods orders the last ones by name.** -/
theorem collect_eq_byName (ms : List Method) : collect ms = byName name ms := by
  refine (sorted_collect ms).eq_of_mem_iff (pairwise_byName ms) ?_
  intro m
  rw [mem_collect_iff, mem_byName]

/-- The methods by name, where each one replaces an earlier one of its name. -/
def table (ms : List Method) : String → Option Method :=
  ms.foldl (fun table m => Function.update table m.name (some m)) fun _ => none

theorem table_eq_getLast? (ms : List Method) (n : String) :
    table ms n = (ms.filter fun m => m.name = n).getLast? := by
  induction ms using List.reverseRecOn with
  | nil => rfl
  | append_singleton ms m ih =>
    rw [table, List.foldl_concat, ← table, List.filter_append]
    by_cases hname : m.name = n
    · simp [hname]
    · simp [hname, Ne.symm hname, ih]

theorem table_eq_some_iff {ms : List Method} {n : String} {m : Method} :
    table ms n = some m ↔ m ∈ collect ms ∧ m.name = n := by
  rw [mem_collect_iff, mem_lastByName_iff, table_eq_getLast?]
  constructor
  · intro h
    have hname : m.name = n := by simpa using (List.mem_filter.mp (List.mem_of_getLast? h)).2
    exact ⟨hname ▸ h, hname⟩
  · rintro ⟨h, rfl⟩
    exact h

/-- Takes the methods of some names out of a table, one name after the other. -/
def drain (table : String → Option Method) : List String → List Method
  | [] => []
  | n :: names => (table n).toList ++ drain (Function.update table n none) names

theorem drain_eq_filterMap {names : List String} (h : names.Nodup)
    (table : String → Option Method) : drain table names = names.filterMap table := by
  induction names generalizing table with
  | nil => rfl
  | cons n names ih =>
    obtain ⟨hn, hnames⟩ := List.nodup_cons.mp h
    have hrest : names.filterMap (Function.update table n none) = names.filterMap table := by
      refine List.filterMap_congr ?_
      intro n' hn'
      have hne : n' ≠ n := fun he => hn (he ▸ hn')
      exact Function.update_of_ne hne _ _
    rw [drain, ih hnames, hrest, List.filterMap_cons]
    cases table n <;> rfl

/-- **Collecting methods is the same by way of a table:** in whatever order the names of a table
are listed, sorted, the methods are taken out of it in the order in which they are collected. -/
theorem collect_eq_drain {ms : List Method} {names : List String} (hnodup : names.Nodup)
    (hnames : ∀ n, n ∈ names ↔ ∃ m, table ms n = some m) :
    collect ms = drain (table ms) (names.mergeSort fun n n' => n ≤ n') := by
  have hperm := List.mergeSort_perm names fun n n' => n ≤ n'
  have hsorted : (names.mergeSort fun n n' => n ≤ n').Pairwise fun n n' => n < n' :=
    pairwise_mergeSort_of_ne hnodup
  rw [drain_eq_filterMap (hperm.nodup_iff.mpr hnodup)]
  refine (sorted_collect ms).eq_of_mem_iff ?_ ?_
  · refine hsorted.filterMap (table ms) ?_
    intro n n' hlt m hm m' hm'
    rw [(table_eq_some_iff.mp hm).2, (table_eq_some_iff.mp hm').2]
    exact hlt
  · intro m
    rw [List.mem_filterMap]
    constructor
    · intro hm
      have htable : table ms m.name = some m := table_eq_some_iff.mpr ⟨hm, rfl⟩
      exact ⟨m.name, hperm.mem_iff.mpr ((hnames m.name).mpr ⟨m, htable⟩), htable⟩
    · rintro ⟨n, -, hm⟩
      exact (table_eq_some_iff.mp hm).1

/-- The order and the repetitions of methods do not show in what is collected. -/
theorem collect_eq_of_mem_iff {ms ms' : List Method} (hsame : ∀ m, m ∈ ms ↔ m ∈ ms')
    (hone : ∀ m ∈ ms, ∀ m' ∈ ms, m.name = m'.name → m = m') : collect ms = collect ms' := by
  refine (sorted_collect ms).eq_of_mem_iff (sorted_collect ms') ?_
  have hone' : ∀ m ∈ ms', ∀ m' ∈ ms', m.name = m'.name → m = m' := fun m hm m' hm' =>
    hone m ((hsame m).mpr hm) m' ((hsame m').mpr hm')
  intro m
  rw [mem_collect_iff, mem_collect_iff, mem_lastByName_of_unique hone,
    mem_lastByName_of_unique hone', hsame]

/-- A method as a resolver lists it. -/
def binding (m : Method) : Binding := ⟨m.name, .func m.signature⟩

theorem binding_injective : Function.Injective binding := by
  intro m m' h
  cases m
  cases m'
  cases h
  rfl

theorem map_name_binding (ms : List Method) :
    (ms.map binding).map (fun b => b.name) = ms.map name := by
  rw [List.map_map]
  rfl

/-- Methods that are functions are the methods of some declaration. -/
theorem exists_map_binding {bs : List Binding} (h : ∀ b ∈ bs, ∃ s, b.type = .func s) :
    ∃ ms : List Method, bs = ms.map binding := by
  induction bs with
  | nil => exact ⟨[], rfl⟩
  | cons b bs ih =>
    obtain ⟨⟨s, hs⟩, hbs⟩ := List.forall_mem_cons.mp h
    obtain ⟨ms, rfl⟩ := ih hbs
    obtain ⟨name, type⟩ := b
    subst hs
    exact ⟨⟨name, s⟩ :: ms, rfl⟩

end Method

namespace InterfaceDecl

theorem isConstraintOnly_iff {d : InterfaceDecl} :
    d.isConstraintOnly ↔ d.methods = [] ∧ d.typeSet ≠ [] := by
  simp [isConstraintOnly]

/-- What is built from an interface whose methods are functions. -/
theorem build_of_methods {name path : String} (hname : name ≠ "") (hpath : path ≠ "")
    (typeParams : TypeParams) {body : InterfaceBody} {ms : List Method}
    (hms : body.methods = ms.map Method.binding) :
    build name path typeParams (.interface body) =
      .ok ⟨name, path, typeParams, Method.collect ms, body.unionTerms?.getD []⟩ := by
  have hmethods : body.methods.mapM (Method.ofBinding name) = .ok ms := by
    rw [hms, List.mapM_map]
    exact List.mapM_pure.trans (congrArg pure (List.map_id ms))
  rw [build, if_neg hname, if_neg hpath]
  simp only [TypeExpr.interface?, hmethods]
  rfl

/-- Interfaces with the same type set and the same methods are built alike. -/
theorem build_eq_of_same_methods {body body' : InterfaceBody}
    (hunion : body.unionTerms? = body'.unionTerms?)
    (hfunc : ∀ b ∈ body.methods, ∃ s, b.type = .func s)
    (hsame : ∀ b, b ∈ body.methods ↔ b ∈ body'.methods)
    (hone : ∀ b ∈ body.methods, ∀ b' ∈ body.methods, b.name = b'.name → b.type = b'.type)
    (name path : String) (typeParams : TypeParams) :
    build name path typeParams (.interface body) =
      build name path typeParams (.interface body') := by
  obtain ⟨ms, hms⟩ := Method.exists_map_binding hfunc
  obtain ⟨ms', hms'⟩ := Method.exists_map_binding fun b hb => hfunc b ((hsame b).mpr hb)
  have hmem : ∀ m, m ∈ ms ↔ m ∈ ms' := by
    intro m
    rw [← List.mem_map_of_injective Method.binding_injective, ← hms, hsame, hms',
      List.mem_map_of_injective Method.binding_injective]
  have hcollect : Method.collect ms = Method.collect ms' := by
    refine Method.collect_eq_of_mem_iff hmem ?_
    rintro ⟨n, s⟩ hm ⟨n', s'⟩ hm' hname
    have htype : TypeExpr.func s = .func s' :=
      hone ⟨n, .func s⟩ (hms ▸ List.mem_map_of_mem hm) ⟨n', .func s'⟩
        (hms ▸ List.mem_map_of_mem hm') hname
    cases hname
    cases htype
    rfl
  by_cases hname : name = ""
  · rw [build, build, if_pos hname, if_pos hname]
  by_cases hpath : path = ""
  · rw [build, build, if_neg hname, if_neg hname, if_pos hpath, if_pos hpath]
  rw [build_of_methods hname hpath typeParams hms, build_of_methods hname hpath typeParams hms',
    hcollect, hunion]

/-- **The order and the repetitions of methods do not show.**  Of two interfaces with the
same type set, whose methods are functions, the same ones in any order and any number, and
no two different ones of one name, the same declaration is built; a method is found in
both or in neither, and the same one; and in every scope the same is written. -/
theorem declare_eq_of_same_methods {body body' : InterfaceBody}
    (hunion : body.unionTerms? = body'.unionTerms?)
    (hfunc : ∀ b ∈ body.methods, ∃ s, b.type = .func s)
    (hsame : ∀ b, b ∈ body.methods ↔ b ∈ body'.methods)
    (hone : ∀ b ∈ body.methods, ∀ b' ∈ body.methods, b.name = b'.name → b.type = b'.type)
    (name path : String) (typeParams : TypeParams) :
    build name path typeParams (.interface body) =
        build name path typeParams (.interface body') ∧
      (∀ n, (·.method? n) <$> build name path typeParams (.interface body) =
        (·.method? n) <$> build name path typeParams (.interface body')) ∧
      ∀ scope, declare scope name path typeParams (.interface body) =
        declare scope name path typeParams (.interface body') := by
  have hbuild := build_eq_of_same_methods hunion hfunc hsame hone name path typeParams
  refine ⟨hbuild, ?_, ?_⟩
  · intro n
    rw [hbuild]
  · intro scope
    rw [declare, declare, hbuild]

/-- Three methods, and the same three in another order with two of them repeated, beside
another embedded type. -/
theorem declare_eq_of_same_methods_cache :
    let value : Binding := ⟨"value", .typeParam "V"⟩
    let get : Binding := ⟨"Get", .func ⟨[⟨"key", .typeParam "K"⟩], [value], false⟩⟩
    let put : Binding := ⟨"Put", .func ⟨[⟨"key", .typeParam "K"⟩, value], [], false⟩⟩
    let close : Binding := ⟨"Close", .func ⟨[], [⟨"", .error⟩], false⟩⟩
    let terms : List Term := [.approx .int, .exact .string]
    let body : InterfaceBody := ⟨[put, get, close], [.union terms]⟩
    let body' : InterfaceBody :=
      ⟨[close, get, put, get, close], [.named ⟨"Closer", "io", []⟩, .union terms]⟩
    let typeParams : TypeParams := [⟨["K"], .named ⟨"Ordered", "cmp", []⟩⟩, ⟨["V"], .basic "any"⟩]
    body ≠ body' ∧
      (∃ d, build "Cache" "example.com/cache" typeParams (.interface body) = .ok d ∧
        build "Cache" "example.com/cache" typeParams (.interface body') = .ok d ∧
        d.methods.map (·.name) = ["Close", "Get", "Put"]) ∧
      ∀ scope, declare scope "Cache" "example.com/cache" typeParams (.interface body) =
        declare scope "Cache" "example.com/cache" typeParams (.interface body') := by
  intro value get put close terms body body' typeParams
  have hunion : body.unionTerms? = body'.unionTerms? := rfl
  have hone : ∀ b ∈ body.methods, ∀ b' ∈ body.methods, b.name = b'.name → b.type = b'.type := by
    decide +kernel
  have hsame : ∀ b, b ∈ body.methods ↔ b ∈ body'.methods := by
    intro b
    simp only [body, body', List.mem_cons, List.not_mem_nil]
    tauto
  have hfunc : ∀ b ∈ body.methods, ∃ s, b.type = .func s := by
    simp [body, get, put, close]
  obtain ⟨hbuild, -, hdeclare⟩ :=
    declare_eq_of_same_methods hunion hfunc hsame hone "Cache" "example.com/cache" typeParams
  refine ⟨by decide +kernel, ?_, hdeclare⟩
  obtain ⟨d, hd, hnames⟩ : ∃ d, build "Cache" "example.com/cache" typeParams (.interface body) =
      .ok d ∧ d.methods.map (·.name) = ["Close", "Get", "Put"] := ⟨_, rfl, by decide +kernel⟩
  exact ⟨d, hd, hbuild ▸ hd, hnames⟩

end InterfaceDecl

end GoDecl
