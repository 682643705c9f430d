import GoDecl.Json.TypeExpr
import GoDecl.Proofs.Rendering

/-!
# Edited documents

What the format of a document says about its places: which members an object has, which of
them may be left out and what they stand for then.  It is a table that the readers know nothing
of.  By it a document can be edited: a field that holds its default is left out, members
of unknown names are added, at any places and at any depth, and the value stays the same; where
a field without a default is left out, the value is lost.

## Main definitions

* `Json.Format`, `Json.Record`, `Json.Field`: what the places of a document hold
* `Json.Edit`: a document and what it may become, with or without a loss
* `Json.Encodes`: a document that is read as a value, however it is edited

## Main results

* `MembersEdit.forall₂_editedIn`: after an edit each member is looked up on its own
* `Encodes.type`, `Encodes.list`, `Encodes.record`: documents that hold documents
-/

namespace GoDecl

theorem Kind.tag_injective {k k' : Kind} (h : k.tag = k'.tag) : k = k' := by
  have hk := Kind.ofTag?_tag k
  rw [h, Kind.ofTag?_tag] at hk
  exact (Option.some.inj hk).symm

namespace Json

/-! ### The format -/

/-- The objects that are not type expressions: the parts of arrays, maps and channels; fields
and methods (`named`), parameters and results; the other parts of types; type parameters,
declared methods, declared interfaces and scopes. -/
inductive Record where
  | array
  | map
  | chan
  | binding (named : Bool)
  | signature
  | body
  | ref
  | term
  | group
  | method
  | decl
  | scope

/-- What a place of a document holds. -/
inductive Format where
  | scalar
  | type
  | list (item : Format)
  | record (record : Record)

/-- A member of an object, which has to be there or has a default. -/
inductive Field where
  | required (format : Format)
  | optional (default : Json) (format : Format)

/-- What a field holds. -/
def Field.format : Field → Format
  | required format | optional _ format => format

/-- The fields of a record, by their names. -/
def Record.fields : Record → List (String × Field)
  | array => [("len", .required .scalar), ("elem", .required .type)]
  | map => [("key", .required .type), ("value", .required .type)]
  | chan => [("dir", .optional (.string "Both") .scalar), ("elem", .required .type)]
  | binding true => [("name", .required .scalar), ("ty", .required .type)]
  | binding false => [("name", .optional (.string "") .scalar), ("ty", .required .type)]
  | signature =>
    [("params", .optional (.array []) (.list (.record (binding false)))),
      ("results", .optional (.array []) (.list (.record (binding false)))),
      ("variadic", .optional (.bool false) .scalar)]
  | body =>
    [("methods", .optional (.array []) (.list (.record (binding true)))),
      ("embeddeds", .optional (.array []) (.list .type))]
  | ref =>
    [("name", .required .scalar), ("import_path", .optional (.string "") .scalar),
      ("type_args", .optional (.array []) (.list .type))]
  | term => [("ty", .required .type), ("tilde", .optional (.bool false) .scalar)]
  | group => [("names", .required (.list .scalar)), ("constraint", .required .type)]
  | method => [("name", .required .scalar), ("signature", .required (.record signature))]
  | decl =>
    [("name", .required .scalar), ("import_path", .required .scalar),
      ("type_params", .required (.list (.record group))),
      ("methods", .required (.list (.record method))),
      ("type_set", .required (.list (.record term)))]
  | scope =>
    [("enclosing_import_path", .optional (.string "") .scalar),
      ("output_import_path", .optional (.string "") .scalar)]

/-- What stands behind the kind of a type expression. -/
def payload : Kind → Format
  | .basic | .typeParam => .scalar
  | .pointer | .slice => .type
  | .array => .record .array
  | .map => .record .map
  | .chan => .record .chan
  | .struct => .list (.record (.binding true))
  | .signature => .record .signature
  | .interface => .record .body
  | .named => .record .ref
  | .union => .list (.record .term)
  | .tuple => .list (.record (.binding false))

/-! ### Edits -/

mutual

/-- A document of a format and what it may become.  With `lost`, at least one field without a
default is left out. -/
inductive Edit : Format → Bool → Json → Json → Prop
  | scalar (j : Json) : Edit .scalar false j j
  | type (k : Kind) {lost : Bool} {j j' : Json} (value : Edit (payload k) lost j j') :
      Edit .type lost (.object [(k.tag, j)]) (.object [(k.tag, j')])
  | list {f : Format} {lost : Bool} {js js' : List Json} (items : ItemsEdit f lost js js') :
      Edit (.list f) lost (.array js) (.array js')
  | record {r : Record} {lost : Bool} {ms ms' : List (String × Json)}
      (members : MembersEdit r lost ms ms') : Edit (.record r) lost (.object ms) (.object ms')

/-- The items of an array, edited one by one. -/
inductive ItemsEdit : Format → Bool → List Json → List Json → Prop
  | nil {f : Format} : ItemsEdit f false [] []
  | cons {f : Format} {lost lost' : Bool} {j j' : Json} {js js' : List Json}
      (head : Edit f lost j j') (tail : ItemsEdit f lost' js js') :
      ItemsEdit f (lost || lost') (j :: js) (j' :: js')

/-- The members of an object.  Each is edited, left out if it holds its default, or lost; and
members of unknown names are added. -/
inductive MembersEdit : Record → Bool → List (String × Json) → List (String × Json) → Prop
  | nil {r : Record} : MembersEdit r false [] []
  | keep {r : Record} {name : String} {x : Field} {lost lost' : Bool} {j j' : Json}
      {ms ms' : List (String × Json)} (known : r.fields.lookup name = some x)
      (head : Edit x.format lost j j') (tail : MembersEdit r lost' ms ms') :
      MembersEdit r (lost || lost') ((name, j) :: ms) ((name, j') :: ms')
  | leave {r : Record} {name : String} {f : Format} {lost : Bool} {j : Json}
      {ms ms' : List (String × Json)} (known : r.fields.lookup name = some (.optional j f))
      (tail : MembersEdit r lost ms ms') : MembersEdit r lost ((name, j) :: ms) ms'
  | lose {r : Record} {name : String} {f : Format} {lost : Bool} {j : Json}
      {ms ms' : List (String × Json)} (known : r.fields.lookup name = some (.required f))
      (tail : MembersEdit r lost ms ms') : MembersEdit r true ((name, j) :: ms) ms'
  | add {r : Record} {name : String} {lost : Bool} {j : Json} {ms ms' : List (String × Json)}
      (unknown : r.fields.lookup name = none) (tail : MembersEdit r lost ms ms') :
      MembersEdit r lost ms ((name, j) :: ms')

end

/-! ### Looking up an edited member -/

/-- A member that held `j`, and what is found under its name after an edit. -/
inductive Edited : Field → Bool → Json → Option Json → Prop
  | keep {x : Field} {lost : Bool} {j j' : Json} (h : Edit x.format lost j j') :
      Edited x lost j (some j')
  | leave {f : Format} {j : Json} : Edited (.optional j f) false j none
  | lose {f : Format} {j : Json} : Edited (.required f) true j none

/-- A member of a record is edited as its field allows. -/
def EditedIn (r : Record) (ms' : List (String × Json)) (m : String × Json) (lost : Bool) : Prop :=
  ∃ x, r.fields.lookup m.1 = some x ∧ Edited x lost m.2 (ms'.lookup m.1)

theorem lookup_cons_of_ne {name name' : String} (h : name ≠ name') (j : Json)
    (ms : List (String × Json)) : ((name', j) :: ms).lookup name = ms.lookup name := by
  rw [List.lookup_cons, beq_false_of_ne h]

theorem EditedIn.cons {r : Record} {ms' : List (String × Json)} {m : String × Json} {lost : Bool}
    (h : EditedIn r ms' m lost) {name : String} (hne : m.1 ≠ name) (j : Json) :
    EditedIn r ((name, j) :: ms') m lost := by
  obtain ⟨x, hx, hedited⟩ := h
  exact ⟨x, hx, by rwa [lookup_cons_of_ne hne]⟩

namespace MembersEdit

variable {r : Record}

/-- No edit adds a known name. -/
theorem lookup_eq_none {name : String} {x : Field} (hx : r.fields.lookup name = some x) :
    ∀ {lost : Bool} {ms ms' : List (String × Json)}, MembersEdit r lost ms ms' →
      (∀ m ∈ ms, m.1 ≠ name) → ms'.lookup name = none
  | _, _, _, .nil, _ => rfl
  | _, _, _, .keep _ _ tail, h => by
    obtain ⟨hne, h⟩ := List.forall_mem_cons.mp h
    rw [lookup_cons_of_ne hne.symm]
    exact lookup_eq_none hx tail h
  | _, _, _, .leave _ tail, h => lookup_eq_none hx tail (List.forall_mem_cons.mp h).2
  | _, _, _, .lose _ tail, h => lookup_eq_none hx tail (List.forall_mem_cons.mp h).2
  | _, _, _, .add unknown tail, h => by
    rw [lookup_cons_of_ne]
    · exact lookup_eq_none hx tail h
    · rintro rfl
      rw [hx] at unknown
      cases unknown

theorem forall_ne_of_nodup {name : String} {j : Json} {ms : List (String × Json)}
    (h : (((name, j) :: ms).map Prod.fst).Nodup) : ∀ m ∈ ms, m.1 ≠ name := by
  rintro m hm rfl
  exact (List.nodup_cons.mp h).1 (List.mem_map.mpr ⟨m, hm, rfl⟩)

/-- **After an edit each member is looked up on its own,** and something is lost if it is lost
in one of them. -/
theorem forall₂_editedIn : ∀ {lost : Bool} {ms ms' : List (String × Json)},
    MembersEdit r lost ms ms' → (ms.map Prod.fst).Nodup →
      ∃ losts, List.Forall₂ (EditedIn r ms') ms losts ∧ lost = losts.any id
  | _, _, _, .nil, _ => ⟨[], .nil, rfl⟩
  | _, _, _, @MembersEdit.keep _ name x lost _ j j' _ _ known head tail, h => by
    obtain ⟨losts, hlosts, rfl⟩ := forall₂_editedIn tail (List.nodup_cons.mp h).2
    refine ⟨lost :: losts, .cons ⟨x, known, ?_⟩ ?_, rfl⟩
    · rw [List.lookup_cons_self]
      exact .keep head
    · have hne := (List.forall₂_and_left _ _).mpr ⟨forall_ne_of_nodup h, hlosts⟩
      exact hne.imp fun _ _ hm => hm.2.cons hm.1 j'
  | _, _, _, .leave known tail, h => by
    obtain ⟨losts, hlosts, rfl⟩ := forall₂_editedIn tail (List.nodup_cons.mp h).2
    refine ⟨false :: losts, .cons ⟨_, known, ?_⟩ hlosts, rfl⟩
    rw [lookup_eq_none known tail (forall_ne_of_nodup h)]
    exact .leave
  | _, _, _, .lose known tail, h => by
    obtain ⟨losts, hlosts, rfl⟩ := forall₂_editedIn tail (List.nodup_cons.mp h).2
    refine ⟨true :: losts, .cons ⟨_, known, ?_⟩ hlosts, rfl⟩
    rw [lookup_eq_none known tail (forall_ne_of_nodup h)]
    exact .lose
  | _, _, _, @MembersEdit.add _ name _ j _ _ unknown tail, h => by
    obtain ⟨losts, hlosts, rfl⟩ := forall₂_editedIn tail h
    refine ⟨losts, hlosts.imp ?_, rfl⟩
    rintro m lost hm
    refine hm.cons ?_ j
    rintro rfl
    obtain ⟨x, hx, -⟩ := hm
    rw [hx] at unknown
    cases unknown

end MembersEdit

/-! ### Reading edited documents -/

section Reading

variable {α β : Type}

/-- A value that is there unless something is lost. -/
def unlessLost (lost : Bool) (a : α) : Option α :=
  if lost then none else some a

theorem unlessLost_bind {lost lost' : Bool} {a : α} {k : α → Option β} {b : β}
    (h : k a = unlessLost lost' b) : unlessLost lost a >>= k = unlessLost (lost || lost') b := by
  cases lost with
  | false => exact h
  | true => rfl

theorem unlessLost_bind_pure (lost : Bool) (a : α) (g : α → β) :
    (unlessLost lost a >>= fun a => pure (g a)) = unlessLost lost (g a) := by
  cases lost <;> rfl

/-- The type that stands behind a kind. -/
def payload? : Kind → Json → Option TypeExpr
  | .basic => fun value => do return .basic (← value.string?)
  | .pointer => fun value => do return .pointer (← typeExpr? value)
  | .slice => fun value => do return .slice (← typeExpr? value)
  | .array => arrayType?
  | .map => mapType?
  | .chan => chanType?
  | .struct => fun value => do return .struct (← bindings? true value)
  | .signature => fun value => do return .func (← signature? value)
  | .interface => fun value => do return .interface (← interfaceBody? value)
  | .named => fun value => do return .named (← typeRef? value)
  | .typeParam => fun value => do return .typeParam (← value.string?)
  | .union => fun value => do return .union (← terms? value)
  | .tuple => fun value => do return .tuple (← bindings? false value)

theorem typeExpr?_object (k : Kind) (value : Json) :
    typeExpr? (.object [(k.tag, value)]) = payload? k value := by
  rw [typeExpr?, Kind.ofTag?_tag]
  cases k <;> rfl

/-- A document of a format encodes a value: it may stay as it is, and however it is edited, the
value is read from it unless a field without a default is lost. -/
structure Encodes (f : Format) (read : Json → Option α) (j : Json) (a : α) : Prop where
  unedited : Edit f false j j
  read_edit : ∀ {lost : Bool} {j' : Json}, Edit f lost j j' → read j' = unlessLost lost a

namespace Encodes

variable {f : Format} {read : Json → Option α} {j : Json} {a : α}

theorem read_eq (h : Encodes f read j a) : read j = some a :=
  h.read_edit h.unedited

theorem scalar (h : read j = some a) : Encodes .scalar read j a := by
  refine ⟨.scalar j, ?_⟩
  rintro lost j' ⟨⟩
  exact h

theorem map (h : Encodes f read j a) (g : α → β) :
    Encodes f (fun j => do return g (← read j)) j (g a) := by
  refine ⟨h.unedited, ?_⟩
  intro lost j' hedit
  rw [h.read_edit hedit, unlessLost_bind_pure]

/-- A type expression encodes what the document behind its kind encodes. -/
theorem type (k : Kind) {t : TypeExpr} (h : Encodes (payload k) (payload? k) j t) :
    Encodes .type typeExpr? (.object [(k.tag, j)]) t := by
  refine ⟨.type k h.unedited, ?_⟩
  intro lost j' hedit
  generalize hdoc : Json.object [(k.tag, j)] = doc at hedit
  obtain - | ⟨k', hvalue⟩ := hedit
  obtain ⟨htag, rfl⟩ := Prod.mk.inj (List.cons.inj (Json.object.inj hdoc)).1
  obtain rfl := Kind.tag_injective htag
  rw [typeExpr?_object, h.read_edit hvalue]

theorem mapM_eq_of_itemsEdit {write : α → Json} {as : List α}
    (h : ∀ a ∈ as, Encodes f read (write a) a) {lost : Bool} {js : List Json}
    (hedit : ItemsEdit f lost (as.map write) js) : js.mapM read = unlessLost lost as := by
  induction as generalizing lost js with
  | nil =>
    obtain - | - := hedit
    rfl
  | cons a as ih =>
    obtain ⟨ha, has⟩ := List.forall_mem_cons.mp h
    obtain - | ⟨head, tail⟩ := hedit
    rw [List.mapM_cons, ha.read_edit head, ih has tail]
    exact unlessLost_bind (unlessLost_bind_pure _ _ _)

theorem list {write : α → Json} {as : List α} (h : ∀ a ∈ as, Encodes f read (write a) a) :
    Encodes (.list f) (list? read) (.array (as.map write)) as := by
  constructor
  · apply Edit.list
    induction as with
    | nil => exact .nil
    | cons a as ih =>
      obtain ⟨ha, has⟩ := List.forall_mem_cons.mp h
      exact .cons ha.unedited (ih has)
  · rintro lost _ (- | - | ⟨hitems⟩ | -)
    exact mapM_eq_of_itemsEdit h hitems

end Encodes

/-! ### Reading edited members -/

section Members

variable {r : Record} {ms' : List (String × Json)} {name : String} {lost : Bool} {f : Format}
  {read : Json → Option α} {j : Json} {a : α}

/-- A member that has to be there is read unless something in it, or itself, is lost. -/
theorem EditedIn.required (h : EditedIn r ms' (name, j) lost)
    (hx : r.fields.lookup name = some (.required f)) (ha : Encodes f read j a) :
    Json.required read name ms' = unlessLost lost a := by
  obtain ⟨x, hx', hedited⟩ := h
  obtain rfl : x = .required f := Option.some.inj (hx'.symm.trans hx)
  unfold Json.required
  generalize ms'.lookup name = found at hedited
  rcases hedited with hedit | - | -
  · exact ha.read_edit hedit
  · rfl

/-- A member that may be left out is only left out where it holds the default. -/
theorem EditedIn.defaulted (h : EditedIn r ms' (name, j) lost) {default : Json}
    (hx : r.fields.lookup name = some (.optional default f)) (ha : Encodes f read j a) {d : α}
    (hd : read default = some d) : Json.defaulted d read name ms' = unlessLost lost a := by
  obtain ⟨x, hx', hedited⟩ := h
  obtain rfl : x = .optional default f := Option.some.inj (hx'.symm.trans hx)
  unfold Json.defaulted
  generalize ms'.lookup name = found at hedited
  rcases hedited with hedit | - | -
  · exact ha.read_edit hedit
  · exact hd.symm.trans ha.read_eq

theorem Record.nodup_fields (r : Record) : (r.fields.map Prod.fst).Nodup := by
  cases r with
  | binding named => cases named <;> simp [fields]
  | _ => simp [fields]

theorem Record.lookup_fields {r : Record} {x : String × Field} (h : x ∈ r.fields) :
    r.fields.lookup x.1 = some x.2 := by
  obtain ⟨before, after, hfields⟩ := List.append_of_mem h
  refine List.lookup_eq_some_iff.mpr ⟨before, after, hfields, ?_⟩
  have hnodup := r.nodup_fields
  rw [hfields, List.map_append, List.map_cons, List.nodup_append] at hnodup
  intro y hy
  exact bne_iff_ne.mpr (hnodup.2.2 y.1 (List.mem_map_of_mem hy) x.1 List.mem_cons_self).symm

/-- A member has the name of a field and holds what the field holds. -/
def Holds (x : String × Field) (m : String × Json) : Prop :=
  m.1 = x.1 ∧ Edit x.2.format false m.2 m.2

theorem MembersEdit.of_holds {xs : List (String × Field)} {ms : List (String × Json)}
    (hxs : xs ⊆ r.fields) (h : List.Forall₂ Holds xs ms) : MembersEdit r false ms ms := by
  induction h with
  | nil => exact .nil
  | @cons x m xs ms head tail ih =>
    obtain ⟨name, j⟩ := m
    obtain ⟨rfl, hedit⟩ := head
    obtain ⟨hx, hxs⟩ := List.cons_subset.mp hxs
    exact .keep (Record.lookup_fields hx) hedit (ih hxs)

theorem map_fst_of_holds {xs : List (String × Field)} {ms : List (String × Json)}
    (h : List.Forall₂ Holds xs ms) : ms.map Prod.fst = xs.map Prod.fst := by
  induction h with
  | nil => rfl
  | cons head tail ih => rw [List.map_cons, List.map_cons, head.1, ih]

/-- **A record holds its fields in order,** and is read member by member. -/
theorem Encodes.record {ms : List (String × Json)} (hfields : List.Forall₂ Holds r.fields ms)
    (hread : ∀ {ms' : List (String × Json)} {losts : List Bool},
      List.Forall₂ (EditedIn r ms') ms losts → read (.object ms') = unlessLost (losts.any id) a) :
    Encodes (.record r) read (.object ms) a := by
  constructor
  · exact .record (.of_holds (List.Subset.refl _) hfields)
  · rintro lost _ (- | - | - | ⟨hmembers⟩)
    have hnodup : (ms.map Prod.fst).Nodup := map_fst_of_holds hfields ▸ r.nodup_fields
    obtain ⟨losts, hlosts, rfl⟩ := hmembers.forall₂_editedIn hnodup
    exact hread hlosts

end Members

end Reading

end Json

end GoDecl
