import GoDecl.Declaration.TypeParams

/-!
# Interface declarations

A declared interface: its type parameters, its methods by name, and the type set
it declares, if any.

## Main definitions

* `Method`, `InterfaceDecl`
* `Method.insert`: adds a method to a list ordered by name
* `InterfaceDecl.method?`: a method by its name, found by bisection

## Main results

* `Method.sorted_insert`: inserting keeps the order
* `Method.mem_insert_iff`: inserting replaces the method of that name only
-/

namespace GoDecl

/-- A method with its name. -/
structure Method where
  name : String
  signature : Signature
deriving DecidableEq

namespace Method

/-- Whether the methods stand in ascending order of their names, each name
once. -/
def Sorted (ms : List Method) : Prop :=
  ms.Pairwise fun m m' => m.name < m'.name

/-- Adds a method to a list ordered by name; one that has the name already gives
way. -/
def insert (m : Method) : List Method → List Method
  | [] => [m]
  | x :: xs =>
    if m.name < x.name then m :: x :: xs
    else if m.name = x.name then m :: xs
    else x :: insert m xs

/-- The given methods ordered by name; of several with one name the last
stays. -/
def collect (ms : List Method) : List Method :=
  ms.foldl (fun sorted m => insert m sorted) []

/-- The one method that bisection for a name ends at: with `m` in the middle, the
search goes on from `m` unless the name comes before `m`. -/
def bisect (name : String) (ms : List Method) : Option Method :=
  if _h : ms.length ≤ 1 then ms.head?
  else
    let half := ms.length / 2
    match _hdrop : ms.drop half with
    | [] => none
    | m :: upper =>
      if name < m.name then bisect name (ms.take (ms.length - half)) else bisect name (m :: upper)
termination_by ms.length
decreasing_by
  · simp only [List.length_take]
    omega
  · have := congrArg List.length _hdrop
    simp only [List.length_drop] at this
    omega

/-! ### Order -/

theorem mem_insert_iff {m x : Method} {ms : List Method} (h : Sorted ms) :
    x ∈ insert m ms ↔ x = m ∨ x ∈ ms ∧ x.name ≠ m.name := by
  induction ms with
  | nil => simp [insert]
  | cons y ys ih =>
    obtain ⟨hy, hys⟩ := List.pairwise_cons.mp h
    rw [insert]
    split
    · next hlt =>
      have hall : ∀ z ∈ y :: ys, z.name ≠ m.name := by
        intro z hz he
        rcases List.mem_cons.mp hz with rfl | hz
        · exact String.lt_irrefl _ (he ▸ hlt)
        · exact String.lt_irrefl _ (he ▸ String.lt_trans hlt (hy z hz))
      rw [List.mem_cons]
      exact or_congr_right ⟨fun hx => ⟨hx, hall x hx⟩, And.left⟩
    · next hlt =>
      split
      · next heq =>
        have hall : ∀ z ∈ ys, z.name ≠ m.name := fun z hz he =>
          String.lt_irrefl y.name ((he.trans heq) ▸ hy z hz)
        rw [List.mem_cons, List.mem_cons]
        refine or_congr_right ⟨fun hx => ⟨.inr hx, hall x hx⟩, ?_⟩
        rintro ⟨rfl | hx, hne⟩
        · exact absurd heq.symm hne
        · exact hx
      · next hne =>
        rw [List.mem_cons, List.mem_cons, ih hys]
        constructor
        · rintro (rfl | rfl | ⟨hx, hn⟩)
          · exact .inr ⟨.inl rfl, Ne.symm hne⟩
          · exact .inl rfl
          · exact .inr ⟨.inr hx, hn⟩
        · rintro (rfl | ⟨rfl | hx, hn⟩)
          · exact .inr (.inl rfl)
          · exact .inl rfl
          · exact .inr (.inr ⟨hx, hn⟩)

theorem sorted_insert {m : Method} {ms : List Method} (h : Sorted ms) : Sorted (insert m ms) := by
  induction ms with
  | nil => exact List.pairwise_singleton _ _
  | cons y ys ih =>
    obtain ⟨hy, hys⟩ := List.pairwise_cons.mp h
    rw [insert]
    split
    · next hlt =>
      refine List.pairwise_cons.mpr ⟨fun z hz => ?_, h⟩
      rcases List.mem_cons.mp hz with rfl | hz
      · exact hlt
      · exact String.lt_trans hlt (hy z hz)
    · next hlt =>
      split
      · next heq => exact List.pairwise_cons.mpr ⟨fun z hz => heq ▸ hy z hz, hys⟩
      · next hne =>
        refine List.pairwise_cons.mpr ⟨fun z hz => ?_, ih hys⟩
        rcases (mem_insert_iff hys).mp hz with rfl | ⟨hz, -⟩
        · exact Classical.byContradiction fun hn =>
            hne (String.le_antisymm (String.not_lt.mp hn) (String.not_lt.mp hlt))
        · exact hy z hz

theorem sorted_collect (ms : List Method) : Sorted (collect ms) := by
  suffices h : ∀ sorted, Sorted sorted → Sorted (ms.foldl (fun s m => insert m s) sorted) from
    h [] List.Pairwise.nil
  induction ms with
  | nil => exact fun _ h => h
  | cons m ms ih => exact fun _ h => ih _ (sorted_insert h)

end Method

/-- A declared interface. -/
structure InterfaceDecl where
  name : String
  path : String
  typeParams : TypeParams
  methods : List Method
  typeSet : List Term
deriving DecidableEq

namespace InterfaceDecl

/-- The method of a name.  The methods have to be in order. -/
def method? (d : InterfaceDecl) (name : String) : Option Method :=
  (Method.bisect name d.methods).filter (·.name = name)

/-- Whether the declaration has type parameters. -/
def isGeneric (d : InterfaceDecl) : Bool :=
  !d.typeParams.isEmpty

/-- Whether the interface declares a type set and nothing else, so that it can
only be used as a constraint. -/
def isConstraintOnly (d : InterfaceDecl) : Bool :=
  d.methods.isEmpty && !d.typeSet.isEmpty

/-- The scope of the declaration in a file of the package `output`. -/
def scope (d : InterfaceDecl) (output : String) : Scope := ⟨d.path, output⟩

end InterfaceDecl

end GoDecl
