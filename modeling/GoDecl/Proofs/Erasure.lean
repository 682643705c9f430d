import GoDecl.Proofs.Rendering

/-!
# What a written type keeps

The source of a type does not tell a basic type from a type parameter or from a
declared type that needs no qualifier, and it leaves out what is never written:
the names of results, the embedded types of an interface, the import path of a
name without a qualifier.  Erasing a type drops that and nothing else, and a
reader of the tokens finds the erased type again.

## Main definitions

* `TypeExpr.erase`: a type without what its source leaves out
* `Fragment.readType`: the type that some tokens write

## Main results

* `readType_render`: reading the source of a type gives the erased type
* `render_erase`: an erased type is written like the type itself

Together they say that two types are written alike exactly when they are erased alike.
-/

namespace GoDecl

/-! ### Erasure -/

namespace TypeExpr

/-- Whether a type is a slice. -/
def isSlice : TypeExpr → Bool
  | slice _ => true
  | _ => false

/-- Whether the last of some parameters is a slice, so that it can be the place of
a variadic parameter. -/
def endsInSlice (params : List Binding) : Bool :=
  params.getLast?.any fun b => b.type.isSlice

mutual

/-- A type without what its source in a scope leaves out.  `mark` stands for what a
qualifier keeps of the import path. -/
def erase (mark : String → String) (scope : Scope) : TypeExpr → TypeExpr
  | basic name => .named ⟨name, "", []⟩
  | pointer elem => .pointer (erase mark scope elem)
  | slice elem => .slice (erase mark scope elem)
  | array len elem => .array len (erase mark scope elem)
  | map key value => .map (erase mark scope key) (erase mark scope value)
  | chan dir elem => .chan dir (erase mark scope elem)
  | struct fields => .struct (eraseBindings mark scope fields)
  | func signature => .func (eraseSignature mark scope signature)
  | interface body => eraseBody mark scope body
  | named ref => .named (eraseRef mark scope ref)
  | typeParam name => .named ⟨name, "", []⟩
  | union terms => .union (eraseTerms mark scope terms)
  | tuple items => .tuple (eraseBindings mark scope items)
termination_by structural t => t

/-- Fields, parameters or methods, which keep their names. -/
def eraseBindings (mark : String → String) (scope : Scope) : List Binding → List Binding
  | [] => []
  | b :: bs => ⟨b.name, erase mark scope b.type⟩ :: eraseBindings mark scope bs
termination_by structural bs => bs

/-- Results, which lose their names. -/
def eraseResults (mark : String → String) (scope : Scope) : List Binding → List Binding
  | [] => []
  | b :: bs => ⟨"", erase mark scope b.type⟩ :: eraseResults mark scope bs
termination_by structural bs => bs

/-- A signature, which is variadic only if a slice can show it. -/
def eraseSignature (mark : String → String) (scope : Scope) : Signature → Signature
  | ⟨params, results, variadic⟩ =>
    ⟨eraseBindings mark scope params, eraseResults mark scope results,
      variadic && endsInSlice params⟩
termination_by structural s => s

/-- An interface: the first union it embeds, otherwise its methods alone. -/
def eraseBody (mark : String → String) (scope : Scope) : InterfaceBody → TypeExpr
  | ⟨methods, embeds⟩ =>
    (eraseFirstUnion mark scope embeds).getD (.interface ⟨eraseBindings mark scope methods, []⟩)
termination_by structural b => b

/-- The first union among some types. -/
def eraseFirstUnion (mark : String → String) (scope : Scope) : List TypeExpr → Option TypeExpr
  | [] => none
  | union terms :: _ => some (.union (eraseTerms mark scope terms))
  | _ :: rest => eraseFirstUnion mark scope rest
termination_by structural ts => ts

/-- A reference, whose import path counts only in a qualifier. -/
def eraseRef (mark : String → String) (scope : Scope) : TypeRef → TypeRef
  | ⟨name, path, args⟩ =>
    ⟨name, if scope.qualifies path then mark path else "", eraseAll mark scope args⟩
termination_by structural r => r

/-- Type arguments. -/
def eraseAll (mark : String → String) (scope : Scope) : List TypeExpr → List TypeExpr
  | [] => []
  | t :: ts => erase mark scope t :: eraseAll mark scope ts
termination_by structural ts => ts

/-- The terms of a union, which keep their tildes. -/
def eraseTerms (mark : String → String) (scope : Scope) : List Term → List Term
  | [] => []
  | t :: ts => ⟨erase mark scope t.type, t.tilde⟩ :: eraseTerms mark scope ts
termination_by structural ts => ts

end

theorem eraseBindings_eq_map (mark : String → String) (scope : Scope) (bs : List Binding) :
    eraseBindings mark scope bs = bs.map fun b => ⟨b.name, b.type.erase mark scope⟩ := by
  induction bs with
  | nil => rfl
  | cons b bs ih => rw [eraseBindings, List.map_cons, ih]

theorem eraseResults_eq_map (mark : String → String) (scope : Scope) (bs : List Binding) :
    eraseResults mark scope bs = bs.map fun b => ⟨"", b.type.erase mark scope⟩ := by
  induction bs with
  | nil => rfl
  | cons b bs ih => rw [eraseResults, List.map_cons, ih]

theorem eraseFirstUnion_decided (mark : String → String) (scope : Scope) :
    DecidedByUnion (eraseFirstUnion mark scope)
      fun terms => some (erase mark scope (.union terms)) where
  union _ _ := rfl
  skip t _ h := by cases t <;> first | rfl | cases h

variable {mark : String → String} {scope : Scope}

theorem eraseBody_of_some {body : InterfaceBody} {terms : List Term}
    (h : body.unionTerms? = some terms) :
    eraseBody mark scope body = erase mark scope (.union terms) := by
  rw [eraseBody, (eraseFirstUnion_decided mark scope).of_some h, Option.getD_some]

theorem eraseBody_of_none {body : InterfaceBody} (h : body.unionTerms? = none) :
    eraseBody mark scope body = .interface ⟨eraseBindings mark scope body.methods, []⟩ := by
  rw [eraseBody, (eraseFirstUnion_decided mark scope).of_none h]
  rfl

end TypeExpr

/-! ### Reading tokens -/

namespace Fragment

/-- The length whose decimal form a word is. -/
def length? (word : String) : Option UInt64 :=
  let len := UInt64.ofNat (Nat.ofDigitChars 10 word.toList 0)
  if toString len.toNat = word then some len else none

/-- Whether an entry, with its name or without one, takes any number of values. -/
def takesMany : Fragment → Bool
  | .punct .ellipsis :: _ => true
  | .ident _ :: .punct .ellipsis :: _ => true
  | _ => false

/-- Whether the last of some entries takes any number of values. -/
def endsSpread (entries : List Fragment) : Bool :=
  entries.getLast?.any takesMany

mutual

/-- The type that some tokens write. -/
def readType : List Token → Option TypeExpr
  | [.ident name] => some (.named ⟨name, "", []⟩)
  | [.ident name, args] => return .named ⟨name, "", ← readArgs args⟩
  | [.qualified path name] => some (.named ⟨name, path, []⟩)
  | [.qualified path name, args] => return .named ⟨name, path, ← readArgs args⟩
  | .punct .star :: elem => return .pointer (← readType elem)
  | .punct .brackets :: elem => return .slice (← readType elem)
  | .punct .ellipsis :: elem => return .slice (← readType elem)
  | .group .index [[.ident len]] :: elem => return .array (← length? len) (← readType elem)
  | .keyword "map" :: .group .index [key] :: value =>
    return .map (← readType key) (← readType value)
  | .keyword "chan" :: .punct .sendArrow :: elem => return .chan .send (← readType elem)
  | [.keyword "chan", .group .paren [elem]] => return .chan .both (← readType elem)
  | .keyword "chan" :: elem => return .chan .both (← readType elem)
  | .punct .recvArrow :: .keyword "chan" :: elem => return .chan .recv (← readType elem)
  | [.keyword "struct", .group .brace fields] => return .struct (← readEntries fields)
  | .keyword "func" :: signature => return .func (← readSignature signature)
  | [.keyword "interface", .group .brace methods] =>
    return .interface ⟨← readMethods methods, []⟩
  | [.group .pipe terms] => return .union (← readTerms terms)
  | _ => none
termination_by structural ts => ts

/-- Type arguments in brackets. -/
def readArgs : Token → Option (List TypeExpr)
  | .group .bracket args => readTypes args
  | _ => none
termination_by structural t => t

/-- A signature: its parameters, and no result, several, or one. -/
def readSignature : List Token → Option Signature
  | [.group .paren params] => return ⟨← readEntries params, [], endsSpread params⟩
  | [.group .paren params, .group .paren results] => do
    let results ← readTypes results
    return ⟨← readEntries params, results.map (⟨"", ·⟩), endsSpread params⟩
  | .group .paren params :: result =>
    return ⟨← readEntries params, [⟨"", ← readType result⟩], endsSpread params⟩
  | _ => none
termination_by structural ts => ts

/-- Types one after the other. -/
def readTypes : List (List Token) → Option (List TypeExpr)
  | [] => some []
  | item :: items => return (← readType item) :: (← readTypes items)
termination_by structural items => items

/-- Fields or parameters.  A name before a token that opens a type is the name of
the entry; otherwise it belongs to the type. -/
def readEntries : List (List Token) → Option (List Binding)
  | [] => some []
  | (.ident name :: u :: us) :: items =>
    if u.opensType then return ⟨name, ← readType (u :: us)⟩ :: (← readEntries items)
    else return ⟨"", ← readType (.ident name :: u :: us)⟩ :: (← readEntries items)
  | item :: items => return ⟨"", ← readType item⟩ :: (← readEntries items)
termination_by structural items => items

/-- Methods. -/
def readMethods : List (List Token) → Option (List Binding)
  | [] => some []
  | (.ident name :: signature) :: items =>
    return ⟨name, .func (← readSignature signature)⟩ :: (← readMethods items)
  | _ => none
termination_by structural items => items

/-- The terms of a union. -/
def readTerms : List (List Token) → Option (List Term)
  | [] => some []
  | (.punct .tilde :: type) :: items => return ⟨← readType type, true⟩ :: (← readTerms items)
  | item :: items => return ⟨← readType item, false⟩ :: (← readTerms items)
termination_by structural items => items

end

/-! ### Reading what was written -/

theorem length?_toString (len : UInt64) : length? (toString len.toNat) = some len := by
  have hvalue : Nat.ofDigitChars 10 (toString len.toNat).toList 0 = len.toNat := by
    rw [Nat.toString_eq_repr, Nat.toList_repr, Nat.ofDigitChars_ten_toDigits]
  rw [length?, hvalue, UInt64.ofNat_toNat, if_pos rfl]

/-- How the source of a type begins, as far as a reader of entries looks at it. -/
structure TypeHead (spread : Bool) (t : TypeExpr) (f : Fragment) : Prop where
  name_closed : ∀ name u us, f = .ident name :: u :: us → u.opensType = false
  ellipsis_iff : f.head? = some (.punct .ellipsis) ↔ spread = true ∧ t.isSlice = true

theorem typeHead_rules (scope : Scope) : RenderRules scope TypeHead (fun _ _ => True) where
  basic _ _ := ⟨by simp, by simp [TypeExpr.isSlice]⟩
  pointer _ _ _ _ := ⟨by simp, by simp [TypeExpr.isSlice]⟩
  slice spread _ _ _ := ⟨by simp, by cases spread <;> simp [TypeExpr.isSlice]⟩
  array _ _ _ _ _ := ⟨by simp, by simp [TypeExpr.isSlice]⟩
  map _ _ _ _ _ _ _ := ⟨by simp, by simp [TypeExpr.isSlice]⟩
  chan _ dir _ _ _ := by
    cases dir <;> exact ⟨by simp [ChanDir.tokens], by simp [ChanDir.tokens, TypeExpr.isSlice]⟩
  struct _ _ _ _ := ⟨by simp, by simp [TypeExpr.isSlice]⟩
  signature _ _ _ _ _ _ _ := trivial
  func _ _ _ _ := ⟨by simp, by simp [TypeExpr.isSlice]⟩
  interface _ _ _ _ _ := ⟨by simp, by simp [TypeExpr.isSlice]⟩
  typeSet _ _ _ _ _ h := ⟨h.name_closed, by simpa [TypeExpr.isSlice] using h.ellipsis_iff⟩
  named _ ref gs _ := by
    constructor
    · intro name u us h
      cases gs with
      | nil => simp [bracketed] at h
      | cons g gs =>
        simp only [bracketed, List.cons.injEq] at h
        obtain ⟨-, rfl, -⟩ := h
        rfl
    · rw [Scope.reference]
      split <;> simp [TypeExpr.isSlice]
  typeParam _ _ := ⟨by simp, by simp [TypeExpr.isSlice]⟩
  union _ _ _ _ := ⟨by simp, by simp [TypeExpr.isSlice]⟩

theorem typeHead_of_render {scope : Scope} {spread : Bool} {t : TypeExpr} {f : Fragment}
    (h : t.render scope spread = .ok f) : TypeHead spread t f :=
  (typeHead_rules scope).render t h

variable {scope : Scope} {spread : Bool} {t : TypeExpr} {g : Fragment}

/-- A rendered type is read as the type of an entry, under a name or without
one. -/
theorem readEntries_entry (hrender : t.render scope spread = .ok g) {t' : TypeExpr}
    (hg : readType g = some t') (name : String) {items : List Fragment} {bs : List Binding}
    (hitems : readEntries items = some bs) :
    readEntries (entry name g :: items) = some (⟨name, t'⟩ :: bs) := by
  obtain ⟨u, us, rfl, hu⟩ := opens_of_render hrender
  rw [entry]
  split
  · next hname =>
    cases u with
    | ident n =>
      cases us with
      | nil => simp [readEntries, hg, hitems, hname]
      | cons v vs =>
        have hv : v.opensType = false := (typeHead_of_render hrender).name_closed n v vs rfl
        simp [readEntries, hg, hitems, hname, hv]
    | _ => simp [readEntries, hg, hitems, hname]
  · simp [readEntries, hg, hitems, hu]

theorem readEntries_of_entries {variadic : Bool} {bs : List Binding} {gs : List Fragment}
    (h : Entries (Rendered scope fun _ t f => readType f = some (t.erase id scope)) variadic
      bs gs) :
    readEntries gs = some (TypeExpr.eraseBindings id scope bs) := by
  induction h with
  | nil => rfl
  | cons head tail ih => exact readEntries_entry head.render_eq head.holds _ ih

/-- Whether an entry takes any number of values shows in its type alone. -/
theorem takesMany_entry (hrender : t.render scope spread = .ok g) (name : String) :
    takesMany (entry name g) = (spread && t.isSlice) := by
  have hhead := typeHead_of_render hrender
  have hiff : takesMany (entry name g) = true ↔ g.head? = some (.punct .ellipsis) := by
    obtain ⟨u, us, rfl, hu⟩ := opens_of_render hrender
    rw [entry]
    split
    · cases u with
      | ident n =>
        cases us with
        | nil => simp [takesMany]
        | cons v vs =>
          have hv := hhead.name_closed n v vs rfl
          cases v with
          | punct mark => cases mark <;> simp [takesMany, Token.opensType] at hv ⊢
          | _ => simp [takesMany]
      | punct mark => cases mark <;> simp [takesMany]
      | _ => simp [takesMany]
    · cases u with
      | punct mark => cases mark <;> simp [takesMany]
      | _ => simp [takesMany]
  rw [Bool.eq_iff_iff, hiff, hhead.ellipsis_iff, Bool.and_eq_true]

theorem endsSpread_of_entries {P : Bool → TypeExpr → Fragment → Prop} {variadic : Bool}
    {bs : List Binding} {gs : List Fragment} (h : Entries (Rendered scope P) variadic bs gs) :
    endsSpread gs = (variadic && TypeExpr.endsInSlice bs) := by
  induction h with
  | nil => cases variadic <;> rfl
  | @cons b bs g gs head tail ih =>
    cases tail with
    | nil =>
      have hmany := takesMany_entry head.render_eq b.name
      rw [endsSpread, List.getLast?_singleton, Option.any_some, hmany]
      simp [TypeExpr.endsInSlice]
    | cons head' tail' =>
      rw [endsSpread, TypeExpr.endsInSlice, List.getLast?_cons_cons, List.getLast?_cons_cons]
      exact ih

theorem readTypes_of_results {bs : List Binding} {gs : List Fragment}
    (h : List.Forall₂ (fun b g =>
      Rendered scope (fun _ t f => readType f = some (t.erase id scope)) false b.type g) bs gs) :
    readTypes gs = some (bs.map fun b => b.type.erase id scope) := by
  induction h with
  | nil => rfl
  | cons head tail ih => simp [readTypes, head.holds, ih]

theorem readTypes_of_args {ts : List TypeExpr} {gs : List Fragment}
    (h : List.Forall₂ (Rendered scope (fun _ t f => readType f = some (t.erase id scope)) false)
      ts gs) :
    readTypes gs = some (TypeExpr.eraseAll id scope ts) := by
  induction h with
  | nil => rfl
  | cons head tail ih => simp [readTypes, TypeExpr.eraseAll, head.holds, ih]

theorem readMethods_of_methods {bs : List Binding} {gs : List Fragment}
    (h : List.Forall₂ (fun b f => ∃ s g, b.type = .func s ∧
      readSignature g = some (TypeExpr.eraseSignature id scope s) ∧ f = .ident b.name :: g) bs gs) :
    readMethods gs = some (TypeExpr.eraseBindings id scope bs) := by
  induction h with
  | nil => rfl
  | cons head tail ih =>
    obtain ⟨s, g, hs, hg, rfl⟩ := head
    simp [readMethods, TypeExpr.eraseBindings, hs, hg, ih, TypeExpr.erase]

theorem readTerms_of_terms {ts : List Term} {gs : List Fragment}
    (h : List.Forall₂ (fun t f => ∃ g,
      Rendered scope (fun _ t f => readType f = some (t.erase id scope)) false t.type g ∧
        f = term t.tilde g) ts gs) :
    readTerms gs = some (TypeExpr.eraseTerms id scope ts) := by
  induction h with
  | nil => rfl
  | @cons t f ts gs head tail ih =>
    obtain ⟨g, hg, rfl⟩ := head
    obtain ⟨u, us, rfl, hu⟩ := hg.opens
    have hread : readType (u :: us) = some (t.type.erase id scope) := hg.holds
    rw [TypeExpr.eraseTerms]
    cases htilde : t.tilde with
    | true => simp [term, readTerms, hread, ih]
    | false =>
      cases u with
      | punct mark => cases mark <;> simp [term, readTerms, hread, ih, Token.opensType] at hu ⊢
      | _ => simp [term, readTerms, hread, ih]

/-- Behind `chan`, a type is not taken for an arrow or for a type in
parentheses. -/
theorem readType_chan (hopens : g.Opens) {t' : TypeExpr} (hg : readType g = some t') :
    readType (.keyword "chan" :: g) = some (.chan .both t') := by
  obtain ⟨u, us, rfl, hu⟩ := hopens
  rw [readType, hg]
  · rfl
  · rintro elem ⟨⟩
    cases hu
  · rintro elem ⟨⟩
    cases hu

/-- Behind the parameters, one result is not taken for several. -/
theorem readSignature_single (hopens : g.Opens) {t' : TypeExpr} (hg : readType g = some t')
    {params : List Fragment} {bs : List Binding} (hparams : readEntries params = some bs) :
    readSignature (.group .paren params :: g) = some ⟨bs, [⟨"", t'⟩], endsSpread params⟩ := by
  obtain ⟨u, us, rfl, hu⟩ := hopens
  rw [readSignature, hparams, hg]
  · rfl
  · rintro ⟨⟩
  · rintro results ⟨⟩
    cases hu

theorem readType_rules (scope : Scope) :
    RenderRules scope (fun _ t f => readType f = some (t.erase id scope))
      (fun s f => readSignature f = some (TypeExpr.eraseSignature id scope s)) where
  basic _ _ := rfl
  pointer _ _ _ h := by simp [readType, h.holds, TypeExpr.erase]
  slice spread _ _ h := by cases spread <;> simp [readType, h.holds, TypeExpr.erase]
  array _ len _ _ h := by
    rw [readType, length?_toString, h.holds, TypeExpr.erase]
    rfl
  map _ _ _ _ _ hk hv := by simp [readType, hk.holds, hv.holds, TypeExpr.erase]
  chan _ dir elem g h := by
    cases dir with
    | both =>
      rw [TypeExpr.chanElem, TypeExpr.erase]
      split
      · simp [ChanDir.tokens, readType, h.holds]
      · exact readType_chan h.opens h.holds
    | send => simp [ChanDir.tokens, TypeExpr.chanElem, readType, h.holds, TypeExpr.erase]
    | recv => simp [ChanDir.tokens, TypeExpr.chanElem, readType, h.holds, TypeExpr.erase]
  struct _ _ _ h := by simp [readType, readEntries_of_entries h, TypeExpr.erase]
  signature params results variadic gs gs' h h' := by
    have hparams := readEntries_of_entries h
    have hresults := readTypes_of_results h'
    have hspread := endsSpread_of_entries h
    rw [TypeExpr.eraseSignature, TypeExpr.eraseResults_eq_map, ← hspread]
    cases h' with
    | nil => simp [resultClause, readSignature, hparams]
    | cons head tail =>
      cases tail with
      | nil => exact readSignature_single head.opens head.holds hparams
      | cons head' tail' => simp [resultClause, readSignature, hparams, hresults]
  func _ _ _ h := by simp [readType, h, TypeExpr.erase]
  interface _ body _ hnone h := by
    rw [TypeExpr.erase, TypeExpr.eraseBody_of_none hnone]
    simp [readType, readMethods_of_methods h]
  typeSet _ body terms _ hterms h := by
    rw [TypeExpr.erase, TypeExpr.eraseBody_of_some hterms]
    exact h
  named _ ref gs h := by
    have hargs := readTypes_of_args h
    obtain ⟨name, path, args⟩ := ref
    rw [TypeExpr.erase, TypeExpr.eraseRef, Scope.reference]
    cases h with
    | nil => split <;> simp [bracketed, readType, TypeExpr.eraseAll]
    | cons head tail => split <;> simp [bracketed, readType, readArgs, hargs]
  typeParam _ _ := rfl
  union _ _ _ h := by simp [readType, readTerms_of_terms h, TypeExpr.erase]

/-- **Reading the source of a type gives the erased type.** -/
theorem readType_render {scope : Scope} {spread : Bool} {t : TypeExpr} {f : Fragment}
    (h : t.render scope spread = .ok f) : readType f = some (t.erase id scope) :=
  (readType_rules scope).render t h

end Fragment

/-! ### Writing what was erased -/

namespace TypeExpr

variable {scope : Scope}

theorem isSlice_erase (mark : String → String) (scope : Scope) (t : TypeExpr) :
    (t.erase mark scope).isSlice = t.isSlice := by
  cases t with
  | interface body =>
    rw [erase]
    cases h : body.unionTerms? with
    | none => rw [eraseBody_of_none h]; rfl
    | some terms => rw [eraseBody_of_some h, erase]; rfl
  | _ => rw [erase]; rfl

theorem isRecvChan_erase (mark : String → String) (scope : Scope) (t : TypeExpr) :
    (t.erase mark scope).isRecvChan = t.isRecvChan := by
  cases t with
  | interface body =>
    rw [erase]
    cases h : body.unionTerms? with
    | none => rw [eraseBody_of_none h]; rfl
    | some terms => rw [eraseBody_of_some h, erase]; rfl
  | chan dir elem => cases dir <;> rw [erase] <;> rfl
  | _ => rw [erase]; rfl

/-- Only a slice is written otherwise in the place of a variadic parameter. -/
theorem render_of_isSlice_eq_false {t : TypeExpr} (h : t.isSlice = false) (spread : Bool) :
    t.render scope spread = t.render scope false := by
  cases t with
  | slice elem => cases h
  | _ => simp only [render]

theorem render_plain_name (name : String) (spread : Bool) :
    (named ⟨name, "", []⟩).render scope spread = .ok [.ident name] := by
  have hempty : scope.qualifies "" = false := by simp [Scope.qualifies]
  simp only [render, renderRef, renderAll, Scope.reference, hempty]
  rfl

theorem reference_erased (path name : String) :
    scope.reference (if scope.qualifies path then path else "") name =
      scope.reference path name := by
  cases h : scope.qualifies path with
  | true => simp
  | false =>
    have hempty : scope.qualifies "" = false := by simp [Scope.qualifies]
    simp [Scope.reference, hempty, h]

/-- Entries are written like their erasures.  The flag is erased only where no slice shows it, and
there it changes nothing. -/
theorem renderEntries_erase {variadic : Bool} {bs : List Binding} {gs : List Fragment}
    (h : Entries (Rendered scope fun spread t f => (t.erase id scope).render scope spread = .ok f)
      variadic bs gs) :
    renderEntries scope (variadic && endsInSlice bs) (eraseBindings id scope bs) = .ok gs := by
  induction h with
  | nil => rfl
  | @cons b bs g gs head tail ih =>
    have hb : (b.type.erase id scope).render scope (variadic && bs.isEmpty) = .ok g := head.holds
    cases tail with
    | nil =>
      have hlast : (b.type.erase id scope).render scope (variadic && endsInSlice [b]) = .ok g := by
        rw [← hb]
        cases hslice : b.type.isSlice with
        | true => simp [endsInSlice, hslice]
        | false =>
          have hslice' := (isSlice_erase id scope b.type).trans hslice
          rw [render_of_isSlice_eq_false hslice', render_of_isSlice_eq_false hslice' (_ && _)]
      simp [eraseBindings, renderEntries, hlast]
    | @cons b' bs' g' gs' head' tail' =>
      have hfirst : (b.type.erase id scope).render scope false = .ok g := by
        rw [← hb, List.isEmpty_cons, Bool.and_false]
      have hlast : endsInSlice (b :: b' :: bs') = endsInSlice (b' :: bs') := by
        rw [endsInSlice, List.getLast?_cons_cons, endsInSlice]
      rw [hlast, eraseBindings, renderEntries, ih]
      simp [eraseBindings, hfirst]

theorem renderResults_erase {bs : List Binding} {gs : List Fragment}
    (h : List.Forall₂ (fun b g => Rendered scope
      (fun spread t f => (t.erase id scope).render scope spread = .ok f) false b.type g) bs gs) :
    renderResults scope (eraseResults id scope bs) = .ok gs := by
  induction h with
  | nil => rfl
  | cons head tail ih => simp [eraseResults, renderResults, head.holds, ih]

theorem renderMethods_erase {bs : List Binding} {gs : List Fragment}
    (h : List.Forall₂ (fun b f => ∃ s g, b.type = .func s ∧
      renderSignature scope (eraseSignature id scope s) = .ok g ∧ f = .ident b.name :: g) bs gs) :
    renderMethods scope (eraseBindings id scope bs) = .ok gs := by
  induction h with
  | nil => rfl
  | cons head tail ih =>
    obtain ⟨s, g, hs, hg, rfl⟩ := head
    simp [eraseBindings, renderMethods, renderMethod, erase, hs, hg, ih]

theorem renderAll_erase {ts : List TypeExpr} {gs : List Fragment}
    (h : List.Forall₂ (Rendered scope
      (fun spread t f => (t.erase id scope).render scope spread = .ok f) false) ts gs) :
    renderAll scope (eraseAll id scope ts) = .ok gs := by
  induction h with
  | nil => rfl
  | cons head tail ih => simp [eraseAll, renderAll, head.holds, ih]

theorem renderTerms_erase {ts : List Term} {gs : List Fragment}
    (h : List.Forall₂ (fun t f => ∃ g, Rendered scope
      (fun spread t f => (t.erase id scope).render scope spread = .ok f) false t.type g ∧
        f = Fragment.term t.tilde g) ts gs) :
    renderTerms scope (eraseTerms id scope ts) = .ok gs := by
  induction h with
  | nil => rfl
  | cons head tail ih =>
    obtain ⟨g, hg, rfl⟩ := head
    simp [eraseTerms, renderTerms, hg.holds, ih]

theorem erase_rules (scope : Scope) :
    RenderRules scope (fun spread t f => (t.erase id scope).render scope spread = .ok f)
      (fun s f => renderSignature scope (eraseSignature id scope s) = .ok f) where
  basic _ _ := by rw [erase, render_plain_name]
  pointer _ _ _ h := by simp [erase, render, h.holds]
  slice _ _ _ h := by simp [erase, render, h.holds]
  array _ _ _ _ h := by simp [erase, render, h.holds]
  map _ _ _ _ _ hk hv := by simp [erase, render, hk.holds, hv.holds]
  chan _ dir elem g h := by simp [erase, render, h.holds, chanElem, isRecvChan_erase]
  struct _ fields gs h := by
    have hfields := renderEntries_erase h
    rw [Bool.false_and] at hfields
    simp [erase, render, hfields]
  signature params results variadic gs gs' h h' := by
    simp [eraseSignature, renderSignature, renderEntries_erase h, renderResults_erase h']
  func _ _ _ h := by simp [erase, render, h]
  interface _ body gs hnone h := by
    rw [erase, eraseBody_of_none hnone]
    simp [render, renderBody, renderFirstUnion, renderMethods_erase h]
  typeSet spread body terms g hterms h := by
    rw [erase, eraseBody_of_some hterms, render_of_isSlice_eq_false (by rw [erase]; rfl)]
    exact h
  named _ ref gs h := by
    obtain ⟨name, path, args⟩ := ref
    simp [erase, eraseRef, render, renderRef, renderAll_erase h, reference_erased]
  typeParam _ _ := by rw [erase, render_plain_name]
  union _ _ _ h := by simp [erase, render, renderTerms_erase h]

/-- **An erased type is written like the type itself.** -/
theorem render_erase {scope : Scope} {spread : Bool} {t : TypeExpr} {f : Fragment}
    (h : t.render scope spread = .ok f) : (t.erase id scope).render scope spread = .ok f :=
  (erase_rules scope).render t h

/-! ### Types that are written alike -/

/-- **Two types are written alike exactly when they are erased alike,** and the
tokens alone tell the erased type. -/
theorem render_eq_iff_erase_eq {scope : Scope} {a b : TypeExpr} {f g : Fragment}
    (ha : a.render scope false = .ok f) (hb : b.render scope false = .ok g) :
    (f = g ↔ a.erase id scope = b.erase id scope) ∧
      Fragment.readType f = some (a.erase id scope) := by
  have hreadA := Fragment.readType_render ha
  have hreadB := Fragment.readType_render hb
  refine ⟨?_, hreadA⟩
  constructor
  · intro hfg
    rw [hfg, hreadB] at hreadA
    exact (Option.some.inj hreadA).symm
  · intro herase
    have hf := render_erase ha
    rw [herase, render_erase hb] at hf
    exact (Except.ok.inj hf).symm

/-- The same function type, written from a file of the package `example.com/app`:
its own package shows neither as a path nor as a name of a result, and the
arrows and the array lengths are kept. -/
theorem render_eq_iff_erase_eq_func :
    let scope : Scope := ⟨"example.com/app", "example.com/app/mocks"⟩
    let events : TypeExpr := .chan .both (.chan .recv (.named ⟨"Event", "example.com/lib/v2", []⟩))
    let a : TypeExpr := .func
      ⟨[⟨"key", .typeParam "K"⟩], [⟨"ok", .array 18446744073709551615 events⟩], true⟩
    let b : TypeExpr := .func
      ⟨[⟨"key", .named ⟨"K", "example.com/app", []⟩⟩], [⟨"", .array 18446744073709551615 events⟩],
        false⟩
    ∃ f g, a.render scope false = .ok f ∧ b.render scope false = .ok g ∧
      (f = g ↔ a.erase id scope = b.erase id scope) ∧
        Fragment.readType f = some (a.erase id scope) ∧ f = g := by
  intro scope events a b
  have ha : ∃ f, a.render scope false = .ok f := ⟨_, rfl⟩
  have hb : ∃ g, b.render scope false = .ok g := ⟨_, rfl⟩
  obtain ⟨f, hf⟩ := ha
  obtain ⟨g, hg⟩ := hb
  have halike := render_eq_iff_erase_eq hf hg
  exact ⟨f, g, hf, hg, halike.1, halike.2, halike.1.mpr rfl⟩

end TypeExpr

end GoDecl
