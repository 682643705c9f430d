import GoDecl.Json.Declaration
import GoDecl.Proofs.Induction
import GoDecl.Proofs.Json.Format

/-!
# Reading what was written

A written value is read again, and so is every document it becomes when fields with their
defaults are left out and members of unknown names are added.  A document in which a field
without a default is missing is not read at all.

Each record is read member by member, so it is enough that its members are; the rest is an
induction over the parts of a type.

## Main definitions

* `Json.RoundTrips`: what is written is read again, also after an edit

## Main results

* `encodes_typeExpr`: the document of a type expression encodes it
* `round_trips`: every kind of value the format knows
-/

namespace GoDecl

/-! ### Lists of documents -/

theorem TypeExpr.listToJson_eq_map (ts : List TypeExpr) :
    TypeExpr.listToJson ts = ts.map TypeExpr.toJson := by
  induction ts with
  | nil => rfl
  | cons t ts ih => rw [TypeExpr.listToJson, List.map_cons, ih]

theorem Shape.Binding.listToJson_eq_map (bs : List (Binding TypeExpr)) :
    Shape.Binding.listToJson bs = bs.map Shape.Binding.toJson := by
  induction bs with
  | nil => rfl
  | cons b bs ih => rw [Shape.Binding.listToJson, List.map_cons, ih, Shape.Binding.toJson]

theorem Shape.Term.listToJson_eq_map (ts : List (Term TypeExpr)) :
    Shape.Term.listToJson ts = ts.map Shape.Term.toJson := by
  induction ts with
  | nil => rfl
  | cons t ts ih => rw [Shape.Term.listToJson, List.map_cons, ih, Shape.Term.toJson]

namespace Json

/-- A reader of arrays that reads one item after the other. -/
theorem eq_list? {α : Type} {read : Json → Option α} (readItems : List Json → Option (List α))
    {readArray : Json → Option (List α)} (hnil : readItems [] = some [])
    (hcons : ∀ j js, readItems (j :: js) = do
      let a ← read j
      return a :: (← readItems js))
    (harray : ∀ j, readArray j = j.items? >>= readItems) : readArray = list? read := by
  have hitems : readItems = fun js => js.mapM read := by
    funext js
    induction js with
    | nil => exact hnil
    | cons j js ih => rw [hcons, List.mapM_cons, ih]
  funext j
  rw [harray, hitems]
  rfl

theorem typeExprs?_eq_list? : typeExprs? = list? typeExpr? :=
  eq_list? typeExprList? rfl (fun _ _ => rfl) fun j => by cases j <;> rfl

theorem bindings?_eq_list? (named : Bool) : bindings? named = list? (binding? named) :=
  eq_list? (bindingList? named) rfl (fun _ _ => rfl) fun j => by cases j <;> rfl

theorem terms?_eq_list? : terms? = list? term? :=
  eq_list? termList? rfl (fun _ _ => rfl) fun j => by cases j <;> rfl

/-! ### The parts of a type -/

theorem encodes_string (s : String) : Encodes .scalar string? (.string s) s :=
  .scalar rfl

theorem encodes_bool (b : Bool) : Encodes .scalar bool? (.bool b) b :=
  .scalar rfl

theorem encodes_typeExprs {ts : List TypeExpr}
    (h : ∀ t ∈ ts, Encodes .type typeExpr? t.toJson t) :
    Encodes (.list .type) typeExprs? (.array (TypeExpr.listToJson ts)) ts := by
  rw [TypeExpr.listToJson_eq_map, typeExprs?_eq_list?]
  exact .list h

theorem encodes_binding (named : Bool) {b : Binding}
    (h : Encodes .type typeExpr? b.type.toJson b.type) :
    Encodes (.record (.binding named)) (binding? named) b.toJson b := by
  have hname := encodes_string b.name
  cases named with
  | true =>
    refine .record (.cons ⟨rfl, hname.unedited⟩ (.cons ⟨rfl, h.unedited⟩ .nil)) ?_
    rintro ms' _ (- | ⟨name, - | ⟨type, ⟨⟩⟩⟩)
    rw [binding?, bindingName?, if_pos rfl, name.required rfl hname, typeExprAt?_eq_required,
      type.required rfl h]
    exact unlessLost_bind (unlessLost_bind rfl)
  | false =>
    refine .record (.cons ⟨rfl, hname.unedited⟩ (.cons ⟨rfl, h.unedited⟩ .nil)) ?_
    rintro ms' _ (- | ⟨name, - | ⟨type, ⟨⟩⟩⟩)
    rw [binding?, bindingName?, if_neg Bool.false_ne_true, name.defaulted rfl hname rfl,
      typeExprAt?_eq_required, type.required rfl h]
    exact unlessLost_bind (unlessLost_bind rfl)

theorem encodes_bindings (named : Bool) {bs : List Binding}
    (h : ∀ b ∈ bs, Encodes .type typeExpr? b.type.toJson b.type) :
    Encodes (.list (.record (.binding named))) (bindings? named)
      (.array (Shape.Binding.listToJson bs)) bs := by
  rw [Shape.Binding.listToJson_eq_map, bindings?_eq_list?]
  exact .list fun b hb => encodes_binding named (h b hb)

theorem encodes_signature {s : Signature}
    (h : s.Each fun t => Encodes .type typeExpr? t.toJson t) :
    Encodes (.record .signature) signature? s.toJson s := by
  obtain ⟨params, results, variadic⟩ := s
  have hparams := encodes_bindings false h.params
  have hresults := encodes_bindings false h.results
  have hvariadic := encodes_bool variadic
  rw [Shape.Signature.toJson]
  refine .record (.cons ⟨rfl, hparams.unedited⟩ (.cons ⟨rfl, hresults.unedited⟩
    (.cons ⟨rfl, hvariadic.unedited⟩ .nil))) ?_
  rintro ms' _ (- | ⟨params, - | ⟨results, - | ⟨variadic, ⟨⟩⟩⟩⟩)
  rw [signature?, bindingsAt?_eq_defaulted, params.defaulted rfl hparams rfl,
    bindingsAt?_eq_defaulted, results.defaulted rfl hresults rfl,
    variadic.defaulted rfl hvariadic rfl]
  exact unlessLost_bind (unlessLost_bind (unlessLost_bind rfl))

theorem encodes_body {body : InterfaceBody}
    (hmethods : ∀ b ∈ body.methods, Encodes .type typeExpr? b.type.toJson b.type)
    (hembeds : ∀ t ∈ body.embeds, Encodes .type typeExpr? t.toJson t) :
    Encodes (.record .body) interfaceBody? body.toJson body := by
  obtain ⟨methods, embeds⟩ := body
  have hmethods := encodes_bindings true hmethods
  have hembeds := encodes_typeExprs hembeds
  rw [Shape.InterfaceBody.toJson]
  refine .record (.cons ⟨rfl, hmethods.unedited⟩ (.cons ⟨rfl, hembeds.unedited⟩ .nil)) ?_
  rintro ms' _ (- | ⟨methods, - | ⟨embeds, ⟨⟩⟩⟩)
  rw [interfaceBody?, bindingsAt?_eq_defaulted, methods.defaulted rfl hmethods rfl,
    typeExprsAt?_eq_defaulted, embeds.defaulted rfl hembeds rfl]
  exact unlessLost_bind (unlessLost_bind rfl)

theorem encodes_ref {ref : TypeRef} (h : ∀ t ∈ ref.args, Encodes .type typeExpr? t.toJson t) :
    Encodes (.record .ref) typeRef? ref.toJson ref := by
  obtain ⟨name, path, args⟩ := ref
  have hname := encodes_string name
  have hpath := encodes_string path
  have hargs := encodes_typeExprs h
  rw [Shape.TypeRef.toJson]
  refine .record (.cons ⟨rfl, hname.unedited⟩ (.cons ⟨rfl, hpath.unedited⟩
    (.cons ⟨rfl, hargs.unedited⟩ .nil))) ?_
  rintro ms' _ (- | ⟨name, - | ⟨path, - | ⟨args, ⟨⟩⟩⟩⟩)
  rw [typeRef?, name.required rfl hname, path.defaulted rfl hpath rfl, typeExprsAt?_eq_defaulted,
    args.defaulted rfl hargs rfl]
  exact unlessLost_bind (unlessLost_bind (unlessLost_bind rfl))

theorem encodes_term {t : Term} (h : Encodes .type typeExpr? t.type.toJson t.type) :
    Encodes (.record .term) term? t.toJson t := by
  have htilde := encodes_bool t.tilde
  refine .record (.cons ⟨rfl, h.unedited⟩ (.cons ⟨rfl, htilde.unedited⟩ .nil)) ?_
  rintro ms' _ (- | ⟨type, - | ⟨tilde, ⟨⟩⟩⟩)
  rw [term?, typeExprAt?_eq_required, type.required rfl h, tilde.defaulted rfl htilde rfl]
  exact unlessLost_bind (unlessLost_bind rfl)

theorem encodes_terms {ts : List Term}
    (h : ∀ t ∈ ts, Encodes .type typeExpr? t.type.toJson t.type) :
    Encodes (.list (.record .term)) terms? (.array (Shape.Term.listToJson ts)) ts := by
  rw [Shape.Term.listToJson_eq_map, terms?_eq_list?]
  exact .list fun t ht => encodes_term (h t ht)

theorem encodes_arrayType {len : UInt64} {elem : TypeExpr}
    (h : Encodes .type typeExpr? elem.toJson elem) :
    Encodes (.record .array) arrayType?
      (.object [("len", .natural len.toNat), ("elem", elem.toJson)]) (.array len elem) := by
  have hlen : Encodes .scalar word? (.natural len.toNat) len := .scalar (word?_natural_toNat len)
  refine .record (.cons ⟨rfl, hlen.unedited⟩ (.cons ⟨rfl, h.unedited⟩ .nil)) ?_
  rintro ms' _ (- | ⟨len, - | ⟨elem, ⟨⟩⟩⟩)
  rw [arrayType?, len.required rfl hlen, typeExprAt?_eq_required, elem.required rfl h]
  exact unlessLost_bind (unlessLost_bind rfl)

theorem encodes_mapType {key value : TypeExpr} (hkey : Encodes .type typeExpr? key.toJson key)
    (hvalue : Encodes .type typeExpr? value.toJson value) :
    Encodes (.record .map) mapType? (.object [("key", key.toJson), ("value", value.toJson)])
      (.map key value) := by
  refine .record (.cons ⟨rfl, hkey.unedited⟩ (.cons ⟨rfl, hvalue.unedited⟩ .nil)) ?_
  rintro ms' _ (- | ⟨key, - | ⟨value, ⟨⟩⟩⟩)
  rw [mapType?, typeExprAt?_eq_required, key.required rfl hkey, typeExprAt?_eq_required,
    value.required rfl hvalue]
  exact unlessLost_bind (unlessLost_bind rfl)

theorem encodes_chanType {dir : ChanDir} {elem : TypeExpr}
    (h : Encodes .type typeExpr? elem.toJson elem) :
    Encodes (.record .chan) chanType? (.object [("dir", .string dir.tag), ("elem", elem.toJson)])
      (.chan dir elem) := by
  have hdir : Encodes .scalar chanDir? (.string dir.tag) dir := .scalar (ChanDir.ofTag?_tag dir)
  refine .record (.cons ⟨rfl, hdir.unedited⟩ (.cons ⟨rfl, h.unedited⟩ .nil)) ?_
  rintro ms' _ (- | ⟨dir, - | ⟨elem, ⟨⟩⟩⟩)
  rw [chanType?, dir.defaulted rfl hdir (ChanDir.ofTag?_tag .both), typeExprAt?_eq_required,
    elem.required rfl h]
  exact unlessLost_bind (unlessLost_bind rfl)

/-! ### Type expressions -/

/-- **The document of a type expression encodes it.** -/
theorem encodes_typeExpr (t : TypeExpr) : Encodes .type typeExpr? t.toJson t := by
  induction t using TypeExpr.parts_induction with
  | basic name => exact .type .basic ((encodes_string name).map TypeExpr.basic)
  | pointer elem ih => exact .type .pointer (ih.map TypeExpr.pointer)
  | slice elem ih => exact .type .slice (ih.map TypeExpr.slice)
  | array len elem ih => exact .type .array (encodes_arrayType ih)
  | map key value ih ih' => exact .type .map (encodes_mapType ih ih')
  | chan dir elem ih => exact .type .chan (encodes_chanType ih)
  | struct fields ih => exact .type .struct ((encodes_bindings true ih).map TypeExpr.struct)
  | func s ih => exact .type .signature ((encodes_signature ih).map TypeExpr.func)
  | interface body ihMethods ihEmbeds =>
    exact .type .interface ((encodes_body ihMethods ihEmbeds).map TypeExpr.interface)
  | named ref ih => exact .type .named ((encodes_ref ih).map TypeExpr.named)
  | typeParam name => exact .type .typeParam ((encodes_string name).map TypeExpr.typeParam)
  | union terms ih => exact .type .union ((encodes_terms ih).map TypeExpr.union)
  | tuple items ih => exact .type .tuple ((encodes_bindings false ih).map TypeExpr.tuple)

/-! ### Declarations and scopes -/

theorem encodes_typeParamGroup (g : TypeParamGroup) :
    Encodes (.record .group) typeParamGroup? g.toJson g := by
  have hnames : Encodes (.list .scalar) (list? string?) (.array (g.names.map Json.string)) g.names :=
    .list fun name _ => encodes_string name
  have hconstraint := encodes_typeExpr g.constraint
  refine .record (.cons ⟨rfl, hnames.unedited⟩ (.cons ⟨rfl, hconstraint.unedited⟩ .nil)) ?_
  rintro ms' _ (- | ⟨names, - | ⟨constraint, ⟨⟩⟩⟩)
  rw [typeParamGroup?, members?, Option.bind_eq_bind, Option.bind_some, names.required rfl hnames,
    constraint.required rfl hconstraint]
  exact unlessLost_bind (unlessLost_bind rfl)

theorem encodes_method (m : Method) : Encodes (.record .method) method? m.toJson m := by
  have hname := encodes_string m.name
  have hsignature := encodes_signature (m.signature.each encodes_typeExpr)
  refine .record (.cons ⟨rfl, hname.unedited⟩ (.cons ⟨rfl, hsignature.unedited⟩ .nil)) ?_
  rintro ms' _ (- | ⟨name, - | ⟨signature, ⟨⟩⟩⟩)
  rw [method?, members?, Option.bind_eq_bind, Option.bind_some, name.required rfl hname,
    signature.required rfl hsignature]
  exact unlessLost_bind (unlessLost_bind rfl)

theorem encodes_interfaceDecl (d : InterfaceDecl) :
    Encodes (.record .decl) interfaceDecl? d.toJson d := by
  have hname := encodes_string d.name
  have hpath := encodes_string d.path
  have htypeParams : Encodes (.list (.record .group)) (list? typeParamGroup?)
      (.array (d.typeParams.map TypeParamGroup.toJson)) d.typeParams :=
    .list fun g _ => encodes_typeParamGroup g
  have hmethods : Encodes (.list (.record .method)) (list? method?)
      (.array (d.methods.map Method.toJson)) d.methods :=
    .list fun m _ => encodes_method m
  have htypeSet := encodes_terms fun t (_ : t ∈ d.typeSet) => encodes_typeExpr t.type
  refine .record (.cons ⟨rfl, hname.unedited⟩ (.cons ⟨rfl, hpath.unedited⟩
    (.cons ⟨rfl, htypeParams.unedited⟩ (.cons ⟨rfl, hmethods.unedited⟩
      (.cons ⟨rfl, htypeSet.unedited⟩ .nil))))) ?_
  rintro ms' _ (- | ⟨name, - | ⟨path, - | ⟨typeParams, - | ⟨methods, - | ⟨typeSet, ⟨⟩⟩⟩⟩⟩⟩)
  rw [interfaceDecl?, members?, Option.bind_eq_bind, Option.bind_some, name.required rfl hname,
    path.required rfl hpath, typeParams.required rfl htypeParams, methods.required rfl hmethods,
    typeSet.required rfl htypeSet]
  exact unlessLost_bind (unlessLost_bind (unlessLost_bind (unlessLost_bind (unlessLost_bind rfl))))

theorem encodes_scope (s : Scope) : Encodes (.record .scope) scope? s.toJson s := by
  have henclosing := encodes_string s.enclosing
  have houtput := encodes_string s.output
  refine .record (.cons ⟨rfl, henclosing.unedited⟩ (.cons ⟨rfl, houtput.unedited⟩ .nil)) ?_
  rintro ms' _ (- | ⟨enclosing, - | ⟨output, ⟨⟩⟩⟩)
  rw [scope?, members?, Option.bind_eq_bind, Option.bind_some,
    enclosing.defaulted rfl henclosing rfl, output.defaulted rfl houtput rfl]
  exact unlessLost_bind (unlessLost_bind rfl)

/-! ### Round trips -/

/-- What is written is a document of the format and is read again.  It is also read again after
an edit without a loss, and it is not read after any other. -/
structure RoundTrips {α : Type} (f : Format) (write : α → Json) (read : Json → Option α) :
    Prop where
  read_write : ∀ a, read (write a) = some a
  unedited : ∀ a, Edit f false (write a) (write a)
  read_edited : ∀ a j, Edit f false (write a) j → read j = some a
  read_lost : ∀ a j, Edit f true (write a) j → read j = none

theorem RoundTrips.of_encodes {α : Type} {f : Format} {write : α → Json} {read : Json → Option α}
    (h : ∀ a, Encodes f read (write a) a) : RoundTrips f write read where
  read_write a := (h a).read_eq
  unedited a := (h a).unedited
  read_edited a _ hedit := (h a).read_edit hedit
  read_lost a _ hedit := (h a).read_edit hedit

/-- **Every value is read from its document again,** and from every document that this becomes
when fields with their defaults are left out and members of unknown names are added, at any
places; without any other of its fields it is not read. -/
theorem round_trips :
    RoundTrips .type TypeExpr.toJson typeExpr? ∧
    (∀ named, RoundTrips (.record (.binding named)) Shape.Binding.toJson (binding? named)) ∧
    RoundTrips (.record .signature) Shape.Signature.toJson signature? ∧
    RoundTrips (.record .body) Shape.InterfaceBody.toJson interfaceBody? ∧
    RoundTrips (.record .ref) Shape.TypeRef.toJson typeRef? ∧
    RoundTrips (.record .term) Shape.Term.toJson term? ∧
    RoundTrips (.record .group) TypeParamGroup.toJson typeParamGroup? ∧
    RoundTrips (.record .method) Method.toJson method? ∧
    RoundTrips (.record .decl) InterfaceDecl.toJson interfaceDecl? ∧
    RoundTrips (.record .scope) Scope.toJson scope? := by
  refine ⟨.of_encodes encodes_typeExpr, ?_, ?_, ?_, ?_, ?_, .of_encodes encodes_typeParamGroup,
    .of_encodes encodes_method, .of_encodes encodes_interfaceDecl, .of_encodes encodes_scope⟩
  · exact fun named => .of_encodes fun b => encodes_binding named (encodes_typeExpr b.type)
  · exact .of_encodes fun s => encodes_signature (s.each encodes_typeExpr)
  · exact .of_encodes fun body => encodes_body (fun b _ => encodes_typeExpr b.type)
      fun t _ => encodes_typeExpr t
  · exact .of_encodes fun ref => encodes_ref fun t _ => encodes_typeExpr t
  · exact .of_encodes fun t => encodes_term (encodes_typeExpr t.type)

/-- A channel of functions: without the direction, the name of the parameter, the results and the
flag, which are defaults, and with two unknown members, its document is still read; without the
length of the array it is not. -/
theorem round_trips_chan :
    let element : Json := .object [("Basic", .string "int")]
    let t : TypeExpr :=
      .chan .both (.func ⟨[⟨"", .array 18446744073709551615 .int⟩], [], false⟩)
    let array : Json := .object [("Array", .object [("len", .natural 18446744073709551615),
      ("elem", element)])]
    let document (array : Json) : Json := .object [("Chan", .object [("note", .null),
      ("elem", .object [("Signature", .object [("params", .array [.object [("ty", array)]]),
        ("note", .bool true)])])])]
    let short : Json := .object [("Array", .object [("elem", element)])]
    Edit .type false t.toJson (document array) ∧ typeExpr? (document array) = some t ∧
      Edit .type true t.toJson (document short) ∧ typeExpr? (document short) = none := by
  intro element t array document short
  have hedit {lost : Bool} {array' : Json} (h : Edit .type lost array array') :
      Edit .type lost t.toJson (document array') := by
    have hparam : MembersEdit (.binding false) (lost || false)
        [("name", .string ""), ("ty", array)] [("ty", array')] :=
      .leave rfl (.keep rfl h .nil)
    have hparams : ItemsEdit (.record (.binding false)) ((lost || false) || false) _ _ :=
      .cons (.record hparam) .nil
    have hsignature : MembersEdit .signature (((lost || false) || false) || false)
        [("params", .array [.object [("name", .string ""), ("ty", array)]]),
          ("results", .array []), ("variadic", .bool false)]
        [("params", .array [.object [("ty", array')]]), ("note", .bool true)] :=
      .keep rfl (.list hparams) (.leave rfl (.leave rfl (.add rfl .nil)))
    have hchan : MembersEdit .chan ((((lost || false) || false) || false) || false)
        [("dir", .string "Both"), ("elem", .object [("Signature", _)])]
        [("note", .null), ("elem", .object [("Signature", _)])] :=
      .leave rfl (.add rfl (.keep rfl (.type .signature (.record hsignature)) .nil))
    simp only [Bool.or_false] at hchan
    exact .type .chan (.record hchan)
  have hkeep : Edit .type false array array :=
    (encodes_typeExpr (.array 18446744073709551615 .int)).unedited
  have hshort : MembersEdit .array true
      [("len", .natural 18446744073709551615), ("elem", element)] [("elem", element)] :=
    .lose rfl (.keep rfl (encodes_typeExpr .int).unedited .nil)
  have hlose : Edit .type true array short := .type .array (.record hshort)
  exact ⟨hedit hkeep, round_trips.1.read_edited t _ (hedit hkeep), hedit hlose,
    round_trips.1.read_lost t _ (hedit hlose)⟩

end Json

end GoDecl
