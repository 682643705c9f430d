import GoDecl.Proofs.Grammar

/-!
# The productions of the grammar

What the readers of the grammar take, one rule for each production.  A reader that has
taken a type does not look further when what stands behind the type closes it.

## Main definitions

* `Grammar.Takes`: what a reader takes from some lexemes and what it leaves
* `Grammar.closesType`: whether lexemes behind a type do not go on it

## Main results

* `opensType_of_takes`: what is read as a type begins like one
* `takes_chan`, `takes_reference_iff`, `takes_param_alone`: the rules in which what stands
  behind decides
* `takes_list`: the rule for items between delimiters
-/

namespace GoDecl

namespace Grammar

/-! ### What a reader takes -/

/-- A reader takes `a` from the beginning of `ls` and leaves `rest`. -/
def Takes {α : Type} (reader : (ls : List Lexeme) → Option (α × Rest ls)) (ls : List Lexeme)
    (a : α) (rest : List Lexeme) : Prop :=
  ∃ h, reader ls = some (a, ⟨rest, h⟩)

theorem Takes.unique {α : Type} {reader : (ls : List Lexeme) → Option (α × Rest ls)}
    {ls : List Lexeme} {a b : α} {rest rest' : List Lexeme} (h : Takes reader ls a rest)
    (h' : Takes reader ls b rest') : a = b ∧ rest = rest' := by
  obtain ⟨hlen, h⟩ := h
  obtain ⟨hlen', h'⟩ := h'
  cases h.symm.trans h'
  exact ⟨rfl, rfl⟩

variable {ls rest : List Lexeme} {t : TypeExpr}

theorem parse_of_takes {s : String} (h : Takes type? (Lexeme.ofText s) t []) :
    parse s = some t := by
  obtain ⟨hlen, h⟩ := h
  rw [parse, h]

/-- Whether some lexemes behind a type do not go on it. -/
def closesType : List Lexeme → Bool
  | [] => true
  | .mark c :: _ => c ∈ [',', ')', ']', '\x7d', ';']
  | _ => false

theorem opensType_of_closesType (h : closesType rest = true) : opensType rest = false := by
  cases rest with
  | nil => rfl
  | cons l rest =>
    cases l with
    | mark c =>
      simp only [closesType, List.mem_cons, List.not_mem_nil, or_false, decide_eq_true_eq] at h
      rcases h with rfl | rfl | rfl | rfl | rfl <;> rfl
    | _ => cases h

theorem ne_mark_of_closesType (h : closesType rest = true) {c : Char}
    (hc : closesType [.mark c] = false) (ls : List Lexeme) : rest ≠ .mark c :: ls := by
  rintro rfl
  exact Bool.false_ne_true (hc.symm.trans h)

/-! ### Types -/

theorem takes_parens (h : Takes type? ls t (.mark ')' :: rest)) :
    Takes type? (.mark '(' :: ls) t rest := by
  obtain ⟨hlen, h⟩ := h
  refine ⟨by simp at hlen ⊢; omega, ?_⟩
  simp only [type?, h, mark?, Option.bind_eq_bind, Option.bind_some, if_true]
  rfl

theorem takes_pointer (h : Takes type? ls t rest) :
    Takes type? (.mark '*' :: ls) (.pointer t) rest := by
  obtain ⟨hlen, h⟩ := h
  refine ⟨by simp; omega, ?_⟩
  rw [type?, h]
  rfl

theorem takes_slice (h : Takes type? ls t rest) :
    Takes type? (.mark '[' :: .mark ']' :: ls) (.slice t) rest := by
  obtain ⟨hlen, h⟩ := h
  refine ⟨by simp; omega, ?_⟩
  rw [type?, h]
  rfl

theorem takes_array {w : String} {len : UInt64} (hw : Fragment.length? w = some len)
    (h : Takes type? ls t rest) :
    Takes type? (.mark '[' :: .word w :: .mark ']' :: ls) (.array len t) rest := by
  obtain ⟨hlen, h⟩ := h
  refine ⟨by simp; omega, ?_⟩
  rw [type?, hw, h]
  rfl

theorem takes_map {ls' : List Lexeme} {t' : TypeExpr} (h : Takes type? ls t (.mark ']' :: ls'))
    (h' : Takes type? ls' t' rest) :
    Takes type? (.word "map" :: .mark '[' :: ls) (.map t t') rest := by
  obtain ⟨hlen, h⟩ := h
  obtain ⟨hlen', h'⟩ := h'
  refine ⟨by simp at hlen ⊢; omega, ?_⟩
  simp only [type?, h, mark?, Option.bind_eq_bind, Option.bind_some, if_true, h']
  rfl

/-- Behind `chan`, an arrow would belong to it. -/
theorem takes_chan (hne : ∀ ls', ls ≠ .arrow :: ls') (h : Takes type? ls t rest) :
    Takes type? (.word "chan" :: ls) (.chan .both t) rest := by
  obtain ⟨hlen, h⟩ := h
  refine ⟨by simp; omega, ?_⟩
  rw [type?, h]
  · rfl
  · exact hne

theorem takes_send (h : Takes type? ls t rest) :
    Takes type? (.word "chan" :: .arrow :: ls) (.chan .send t) rest := by
  obtain ⟨hlen, h⟩ := h
  refine ⟨by simp; omega, ?_⟩
  rw [type?, h]
  rfl

theorem takes_recv (h : Takes type? ls t rest) :
    Takes type? (.arrow :: .word "chan" :: ls) (.chan .recv t) rest := by
  obtain ⟨hlen, h⟩ := h
  refine ⟨by simp; omega, ?_⟩
  rw [type?, h]
  rfl

theorem takes_struct {fields : List Binding} (h : Takes fields? ls fields rest) :
    Takes type? (.word "struct" :: .mark '\x7b' :: ls) (.struct fields) rest := by
  obtain ⟨hlen, h⟩ := h
  refine ⟨by simp; omega, ?_⟩
  rw [type?, h]
  rfl

theorem takes_func {s : Signature} (h : Takes signature? ls s rest) :
    Takes type? (.word "func" :: ls) (.func s) rest := by
  obtain ⟨hlen, h⟩ := h
  refine ⟨by simp; omega, ?_⟩
  rw [type?, h]
  rfl

theorem takes_interface {body : InterfaceBody} (h : Takes elements? ls body rest) :
    Takes type? (.word "interface" :: .mark '\x7b' :: ls) (.interface body) rest := by
  obtain ⟨hlen, h⟩ := h
  refine ⟨by simp; omega, ?_⟩
  rw [type?, h]
  rfl

/-! ### How a type begins -/

/-- A reference begins with a name. -/
theorem exists_word_of_reference? {r : TypeRef × Rest ls} (h : reference? ls = some r) :
    ∃ x ls', ls = .word x :: ls' ∧ isIdentifier x = true := by
  rw [reference?] at h
  obtain ⟨name, hname, -⟩ := Option.bind_eq_some_iff.mp h
  unfold typeName? at hname
  split at hname
  · split at hname
    · next package _ _ hand => exact ⟨package, _, rfl, (Bool.and_eq_true_iff.mp hand).1⟩
    · cases hname
  · split at hname
    · next x _ _ hx => exact ⟨x, _, rfl, hx⟩
    · cases hname
  · cases hname

/-- **What is read as a type begins like one.** -/
theorem opensType_of_takes (h : Takes type? ls t rest) : opensType ls = true := by
  obtain ⟨hlen, h⟩ := h
  unfold type? at h
  split at h
  case h_4 w ls =>
    obtain ⟨len, hlen, -⟩ := Option.bind_eq_some_iff.mp h
    rw [opensType, opensElement, hlen]
    rfl
  case h_12 =>
    obtain ⟨r, hr, -⟩ := Option.bind_eq_some_iff.mp h
    obtain ⟨x, ls', rfl, hx⟩ := exists_word_of_reference? hr
    rw [opensType, hx, Bool.true_or]
  all_goals simp [opensType, opensElement]

/-- A length begins with a digit, a name does not. -/
theorem length?_eq_none_of_isIdentifier {w : String} (hw : isIdentifier w = true) :
    Fragment.length? w = none := by
  rw [Fragment.length?]
  apply if_neg
  intro hword
  obtain ⟨c, cs, hdigits⟩ := List.exists_cons_of_ne_nil (Nat.toDigits_ne_nil (b := 10)
    (n := (UInt64.ofNat (Nat.ofDigitChars 10 w.toList 0)).toNat))
  have hdigit : c.isDigit = true :=
    Nat.isDigit_of_mem_toDigits (by decide) (by decide) (hdigits ▸ List.mem_cons_self)
  have hhead : w.toList = c :: cs := by
    rw [← hword, Nat.toString_eq_repr, Nat.toList_repr, hdigits]
  simp [isIdentifier, hhead, hdigit] at hw

/-- What begins like a type is not taken for what stands in the brackets of an array
type. -/
theorem opensElement_of_opensType (h : opensType ls = true) : opensElement ls = false := by
  cases ls with
  | nil => cases h
  | cons l ls =>
    cases l with
    | word w =>
      rw [opensElement, Option.isSome_eq_false_iff, Option.isNone_iff_eq_none]
      rw [opensType, Bool.or_eq_true] at h
      rcases h with hname | hkeyword
      · exact length?_eq_none_of_isIdentifier hname
      · simp only [List.mem_cons, List.not_mem_nil, or_false, decide_eq_true_eq] at hkeyword
        rcases hkeyword with rfl | rfl | rfl | rfl | rfl <;> decide
    | mark c =>
      unfold opensElement
      split
      · next hc => cases hc; cases h
      · next hw => cases hw
      · rfl
    | _ => rfl

theorem type?_eq_none (h : opensType ls = false) : type? ls = none := by
  cases htype : type? ls with
  | none => rfl
  | some r =>
    obtain ⟨t, rest, hlen⟩ := r
    have hopens := opensType_of_takes ⟨hlen, htype⟩
    rw [h] at hopens
    cases hopens

theorem reference?_eq_none (c : Char) (ls : List Lexeme) : reference? (.mark c :: ls) = none := by
  cases href : reference? (.mark c :: ls) with
  | none => rfl
  | some r =>
    obtain ⟨x, ls', hword, -⟩ := exists_word_of_reference? href
    cases hword

/-- An arrow at the beginning is that of a channel. -/
theorem isRecvChan_of_takes (h : Takes type? (.arrow :: ls) t rest) : t.isRecvChan = true := by
  obtain ⟨hlen, h⟩ := h
  by_cases hchan : ∃ ls', ls = .word "chan" :: ls'
  · obtain ⟨ls', rfl⟩ := hchan
    rw [type?] at h
    obtain ⟨r, -, h⟩ := Option.bind_eq_some_iff.mp h
    obtain ⟨rfl, -⟩ := Prod.mk.inj (Option.some.inj h)
    rfl
  · rw [type?] at h
    · obtain ⟨r, hr, -⟩ := Option.bind_eq_some_iff.mp h
      obtain ⟨x, ls', hx, -⟩ := exists_word_of_reference? hr
      cases hx
    all_goals
      intros
      simp_all

theorem takes_of_takes_pointer (h : Takes type? (.mark '*' :: ls) (.pointer t) rest) :
    Takes type? ls t rest := by
  obtain ⟨hlen, h⟩ := h
  rw [type?] at h
  obtain ⟨⟨t', rest', hlen'⟩, hr, h⟩ := Option.bind_eq_some_iff.mp h
  cases h
  exact ⟨hlen', hr⟩

theorem takes_reference_iff {x : String} (hx : isIdentifier x = true) {r : TypeRef} :
    Takes type? (.word x :: ls) (.named r) rest ↔ Takes reference? (.word x :: ls) r rest := by
  rw [Takes, type?_word hx]
  constructor
  · rintro ⟨hlen, h⟩
    obtain ⟨⟨r', rest', hlen'⟩, hr, h⟩ := Option.bind_eq_some_iff.mp h
    cases h
    exact ⟨hlen', hr⟩
  · rintro ⟨hlen, h⟩
    exact ⟨hlen, by rw [h]; rfl⟩

/-! ### References -/

theorem takes_plain {name : String} (hname : isIdentifier name = true)
    (hrest : ∀ ls', rest ≠ .mark '.' :: ls') :
    Takes typeName? (.word name :: rest) ("", name) rest := by
  refine ⟨by simp, ?_⟩
  rw [typeName?, if_pos hname]
  intro n ls' h
  exact hrest _ h

theorem takes_qualified {package name : String} (hpackage : isIdentifier package = true)
    (hname : isIdentifier name = true) :
    Takes typeName? (.word package :: .mark '.' :: .word name :: rest) (package, name) rest := by
  refine ⟨by simp; omega, ?_⟩
  rw [typeName?, if_pos (by rw [hpackage, hname]; rfl)]

/-- A name without arguments.  A bracket behind it is that of another type. -/
theorem takes_name {package name : String} (h : Takes typeName? ls (package, name) rest)
    (hrest : ∀ ls', rest = .mark '[' :: ls' → opensElement ls' = true) :
    Takes reference? ls ⟨name, package, []⟩ rest := by
  obtain ⟨hlen, h⟩ := h
  refine ⟨hlen, ?_⟩
  simp only [reference?, h, Option.bind_eq_bind, Option.bind_some]
  split
  · next ls' hlen' => rw [if_pos (hrest ls' rfl)]; rfl
  · rfl

/-- A name with arguments. -/
theorem takes_args {package name : String} {ls' : List Lexeme} {args : List TypeExpr}
    (h : Takes typeName? ls (package, name) (.mark '[' :: ls')) (hopen : opensElement ls' = false)
    (hargs : Takes args? ls' args rest) : Takes reference? ls ⟨name, package, args⟩ rest := by
  obtain ⟨hlen, h⟩ := h
  obtain ⟨hlen', hargs⟩ := hargs
  refine ⟨by simp at hlen; omega, ?_⟩
  simp only [reference?, h, Option.bind_eq_bind, Option.bind_some, hopen, hargs]
  rfl

/-! ### Parameters -/

theorem takes_one (h : Takes type? ls t rest) : Takes place? ls (false, t) rest := by
  have hopens := opensType_of_takes h
  obtain ⟨hlen, h⟩ := h
  refine ⟨hlen, ?_⟩
  rw [place?, h]
  · rfl
  · rintro ls' rfl
    cases hopens

theorem takes_many (h : Takes type? ls t rest) : Takes place? (.ellipsis :: ls) (true, t) rest := by
  obtain ⟨hlen, h⟩ := h
  refine ⟨by simp; omega, ?_⟩
  rw [place?, h]
  rfl

theorem takes_one_iff : Takes place? ls (false, t) rest ↔ Takes type? ls t rest := by
  constructor
  · rintro ⟨hlen, h⟩
    unfold place? at h
    split at h
    · obtain ⟨r, -, h⟩ := Option.bind_eq_some_iff.mp h
      cases h
    · obtain ⟨⟨t', rest', hlen'⟩, hr, h⟩ := Option.bind_eq_some_iff.mp h
      cases h
      exact ⟨hlen', hr⟩
  · intro h
    exact takes_one h

theorem takes_many_iff : Takes place? ls (true, t) rest ↔
    ∃ ls', ls = .ellipsis :: ls' ∧ Takes type? ls' t rest := by
  constructor
  · rintro ⟨hlen, h⟩
    unfold place? at h
    split at h
    · obtain ⟨⟨t', rest', hlen'⟩, hr, h⟩ := Option.bind_eq_some_iff.mp h
      cases h
      exact ⟨_, rfl, hlen', hr⟩
    · obtain ⟨r, -, h⟩ := Option.bind_eq_some_iff.mp h
      cases h
  · rintro ⟨ls', rfl, h⟩
    exact takes_many h

/-- The place of a parameter can follow its name. -/
theorem takes_name_of_place {x : String} {p : Bool × TypeExpr} (hx : isIdentifier x = true)
    (h : Takes place? ls p rest) : Takes name? (.word x :: ls) x ls := by
  have hopens : (ls.head? = some .ellipsis || opensType ls) = true := by
    obtain ⟨many, t⟩ := p
    cases many with
    | true =>
      obtain ⟨ls', rfl, -⟩ := takes_many_iff.mp h
      rfl
    | false => simp [opensType_of_takes (takes_one_iff.mp h)]
  refine ⟨by simp, ?_⟩
  rw [name?, hx, Bool.true_and, if_pos hopens]

/-- A name before a type is read alone. -/
theorem takes_name_before {x : String} (hx : isIdentifier x = true)
    (hopens : (ls.head? = some .ellipsis || opensType ls) = true) :
    Takes reference? (.word x :: ls) ⟨x, "", []⟩ ls := by
  apply takes_name
  · apply takes_plain hx
    rintro ls' rfl
    cases hopens
  · rintro ls' rfl
    exact hopens

/-- A type does not begin with a name and another type. -/
theorem name?_eq_none_of_takes (h : Takes type? ls t rest) (hrest : closesType rest = true) :
    name? ls = none := by
  unfold name?
  split
  · next x ls =>
    split
    · next hcond =>
      obtain ⟨hx, hopens⟩ := Bool.and_eq_true_iff.mp hcond
      have hbefore := (takes_reference_iff hx).mpr (takes_name_before hx hopens)
      obtain ⟨-, rfl⟩ := hbefore.unique h
      rw [opensType_of_closesType hrest, Bool.or_false, decide_eq_true_eq] at hopens
      cases ls with
      | nil => cases hopens
      | cons l ls =>
        cases hopens
        cases hrest
    · rfl
  · rfl

theorem takes_param_named {x : String} {many : Bool} (hx : isIdentifier x = true)
    (h : Takes place? ls (many, t) rest) : Takes param? (.word x :: ls) ⟨x, many, t⟩ rest := by
  obtain ⟨hlen, hname⟩ := takes_name_of_place hx h
  obtain ⟨hlen', h⟩ := h
  refine ⟨by simp; omega, ?_⟩
  simp only [param?, hname, h]
  rfl

theorem takes_param_alone {many : Bool} (h : Takes place? ls (many, t) rest)
    (hrest : closesType rest = true) : Takes param? ls ⟨"", many, t⟩ rest := by
  have hname : name? ls = none := by
    cases many with
    | true =>
      obtain ⟨ls', rfl, -⟩ := takes_many_iff.mp h
      rfl
    | false => exact name?_eq_none_of_takes (takes_one_iff.mp h) hrest
  obtain ⟨hlen, h⟩ := h
  refine ⟨hlen, ?_⟩
  simp only [param?, hname, h]
  rfl

/-! ### Fields and methods -/

/-- A field with a name.  No comma stands behind the name, so no other name shares its type. -/
theorem takes_field_named {x : String} (hx : isIdentifier x = true) (h : Takes type? ls t rest) :
    Takes field? (.word x :: ls) [⟨x, t⟩] rest := by
  obtain ⟨hlen', hname⟩ := takes_name_of_place hx (takes_one h)
  have hcomma : ∀ ls', ls ≠ .mark ',' :: ls' := by
    rintro ls' rfl
    cases opensType_of_takes h
  obtain ⟨hlen, h⟩ := h
  refine ⟨by simp; omega, ?_⟩
  rw [field?, hname]
  · simp only [h]
    rfl
  · intro ls' hls
    cases hls
  · intro x' ls' hls
    cases hls
    exact hcomma ls' rfl

/-- What stands behind an item of a list: the separator or the closing delimiter. -/
def Ends (sep close : Char) (rest : List Lexeme) : Prop :=
  ∃ ls, rest = .mark sep :: ls ∨ rest = .mark close :: ls

theorem Ends.closesType {sep close : Char} (h : Ends sep close rest)
    (hsep : Grammar.closesType [.mark sep] = true)
    (hclose : Grammar.closesType [.mark close] = true) : Grammar.closesType rest = true := by
  obtain ⟨ls, rfl | rfl⟩ := h
  · exact hsep
  · exact hclose

/-- An embedded field.  Before a comma its name would be read alone, and the comma would end the
field. -/
theorem takes_field_reference {x : String} (hx : isIdentifier x = true) {r : TypeRef}
    (h : Takes reference? (.word x :: ls) r rest) (hrest : Ends ';' '\x7d' rest) :
    Takes field? (.word x :: ls) [⟨"", .named r⟩] rest := by
  have hcloses := hrest.closesType rfl rfl
  have htype := (takes_reference_iff hx).mpr h
  have hname := name?_eq_none_of_takes htype hcloses
  have hcomma : ∀ ls', ls ≠ .mark ',' :: ls' := by
    rintro ls' rfl
    have hplain : Takes reference? (.word x :: .mark ',' :: ls') ⟨x, "", []⟩ (.mark ',' :: ls') :=
      takes_name (takes_plain hx (by simp)) (by simp)
    obtain ⟨-, rfl⟩ := hplain.unique h
    obtain ⟨ls, hls | hls⟩ := hrest <;> cases hls
  obtain ⟨hlen, h⟩ := h
  refine ⟨hlen, ?_⟩
  rw [field?, hname]
  · simp only [h]
    rfl
  · intro ls' hls
    cases hls
  · intro x' ls' hls
    cases hls
    exact hcomma ls' rfl

theorem takes_field_pointer {r : TypeRef} (h : Takes reference? ls r rest) :
    Takes field? (.mark '*' :: ls) [⟨"", .pointer (.named r)⟩] rest := by
  obtain ⟨hlen, h⟩ := h
  refine ⟨by simp; omega, ?_⟩
  rw [field?, h]
  rfl

theorem takes_method {name : String} (hname : isIdentifier name = true) {s : Signature}
    (h : Takes signature? (.mark '(' :: ls) s rest) :
    Takes element? (.word name :: .mark '(' :: ls) ⟨[⟨name, .func s⟩], []⟩ rest := by
  obtain ⟨hlen, h⟩ := h
  refine ⟨by simp at hlen ⊢; omega, ?_⟩
  rw [element?, h]
  simp only [Option.bind_eq_bind, Option.bind_some, if_pos hname]
  rfl

/-! ### Lists between delimiters -/

theorem separator?_sep (sep close : Char) (ls : List Lexeme) :
    separator? sep close (.mark sep :: ls) = some ⟨ls, Nat.le_succ _⟩ := by
  rw [separator?, if_pos rfl]

theorem separator?_close {sep close : Char} (hne : close ≠ sep) (ls : List Lexeme) :
    separator? sep close (.mark close :: ls) = some ⟨.mark close :: ls, Nat.le_refl _⟩ := by
  rw [separator?, if_neg hne, if_pos rfl]

/-- **A list between delimiters:** a reader that takes the closing delimiter, and an
item with what stands behind it before other items, takes items with separators
between them. -/
theorem takes_list {α β : Type} {item? : (ls : List Lexeme) → Option (α × Rest ls)}
    {list? : (ls : List Lexeme) → Option (β × Rest ls)} {sep close : Char} (hne : close ≠ sep)
    (nil : β) (cons : α → β → β) (hnil : ∀ rest, Takes list? (.mark close :: rest) nil rest)
    (hcons : ∀ {ls a rest rest' h b rest''}, Takes item? ls a rest →
      separator? sep close rest = some ⟨rest', h⟩ → Takes list? rest' b rest'' →
        Takes list? ls (cons a b) rest'')
    {as : List α} {lss : List (List Lexeme)}
    (h : List.Forall₂ (fun a ls => ∀ rest, Ends sep close rest → Takes item? (ls ++ rest) a rest)
      as lss) (rest : List Lexeme) :
    Takes list? ([.mark sep].intercalate lss ++ .mark close :: rest) (as.foldr cons nil) rest := by
  induction h with
  | nil => exact hnil rest
  | @cons a ls as lss head tail ih =>
    cases tail with
    | nil =>
      have hlast := head (.mark close :: rest) ⟨rest, .inr rfl⟩
      rw [List.intercalate_singleton]
      exact hcons hlast (separator?_close hne rest) (hnil rest)
    | @cons a' ls' as lss head' tail' =>
      rw [List.intercalate_cons_cons, List.append_assoc, List.append_assoc, List.singleton_append]
      exact hcons (head _ ⟨_, .inl rfl⟩) (separator?_sep sep close _) ih

theorem takes_types {ts : List TypeExpr} {lss : List (List Lexeme)}
    (h : List.Forall₂ (fun t ls => ∀ rest, Ends ',' ']' rest → Takes type? (ls ++ rest) t rest)
      ts lss) (rest : List Lexeme) :
    Takes args? ([.mark ','].intercalate lss ++ .mark ']' :: rest) ts rest := by
  have hlist : Takes args? ([.mark ','].intercalate lss ++ .mark ']' :: rest)
      (ts.foldr List.cons []) rest := by
    refine takes_list (by decide) [] List.cons (fun rest => ⟨_, args?_close rest⟩) ?_ h rest
    rintro ls t rest rest' hle ts rest'' hitem hsep ⟨hlen', hlist⟩
    have hopens := opensType_of_takes hitem
    obtain ⟨hlen, hitem⟩ := hitem
    refine ⟨by omega, ?_⟩
    rw [args?, hitem]
    · simp only [Option.bind_eq_bind, Option.bind_some, hsep, hlist]
      rfl
    · rintro ls' rfl
      cases hopens
  rwa [List.foldr_cons_nil] at hlist

/-- Type arguments begin like a type. -/
theorem opensType_of_takes_args {ts : List TypeExpr} (h : Takes args? ls (t :: ts) rest) :
    opensType ls = true := by
  obtain ⟨hlen, h⟩ := h
  unfold args? at h
  split at h
  · cases h
  · obtain ⟨⟨t', rest', hlen'⟩, htype, h⟩ := Option.bind_eq_some_iff.mp h
    exact opensType_of_takes ⟨hlen', htype⟩

theorem takes_params {ps : List Param} {lss : List (List Lexeme)}
    (h : List.Forall₂ (fun p ls => ∀ rest, Ends ',' ')' rest → Takes param? (ls ++ rest) p rest)
      ps lss) (rest : List Lexeme) :
    Takes params? ([.mark ','].intercalate lss ++ .mark ')' :: rest) ps rest := by
  have hlist : Takes params? ([.mark ','].intercalate lss ++ .mark ')' :: rest)
      (ps.foldr List.cons []) rest := by
    refine takes_list (by decide) [] List.cons (fun rest => ⟨_, params?_close rest⟩) ?_ h rest
    rintro ls p rest rest' hle ps rest'' ⟨hlen, hitem⟩ hsep ⟨hlen', hlist⟩
    refine ⟨by omega, ?_⟩
    rw [params?, hitem]
    · simp only [Option.bind_eq_bind, Option.bind_some, hsep, hlist]
      rfl
    · rintro ls' rfl
      have hplace : place? (.mark ')' :: ls') = none := by
        rw [place?, type?_eq_none rfl]
        · rfl
        · simp
      have hname : name? (.mark ')' :: ls') = none := rfl
      simp only [param?, hname, hplace, Option.bind_eq_bind, Option.bind_none] at hitem
      cases hitem
  rwa [List.foldr_cons_nil] at hlist

theorem takes_fields {bss : List (List Binding)} {lss : List (List Lexeme)}
    (h : List.Forall₂
      (fun bs ls => ∀ rest, Ends ';' '\x7d' rest → Takes field? (ls ++ rest) bs rest) bss lss)
    (rest : List Lexeme) :
    Takes fields? ([.mark ';'].intercalate lss ++ .mark '\x7d' :: rest)
      (bss.foldr List.append []) rest := by
  refine takes_list (by decide) [] List.append (fun rest => ⟨_, fields?_close rest⟩) ?_ h rest
  rintro ls p rest rest' hle ps rest'' ⟨hlen, hitem⟩ hsep ⟨hlen', hlist⟩
  refine ⟨by omega, ?_⟩
  rw [fields?, hitem]
  · simp only [Option.bind_eq_bind, Option.bind_some, hsep, hlist]
    rfl
  · rintro ls' rfl
    have hname : name? (.mark '\x7d' :: ls') = none := rfl
    rw [field?, hname, reference?_eq_none] at hitem
    · cases hitem
    · simp
    · simp

theorem takes_elements {bodies : List InterfaceBody} {lss : List (List Lexeme)}
    (h : List.Forall₂
      (fun body ls => ∀ rest, Ends ';' '\x7d' rest → Takes element? (ls ++ rest) body rest)
      bodies lss) (rest : List Lexeme) :
    Takes elements? ([.mark ';'].intercalate lss ++ .mark '\x7d' :: rest)
      (bodies.foldr (fun b b' => ⟨b.methods ++ b'.methods, b.embeds ++ b'.embeds⟩) .empty)
      rest := by
  refine takes_list (by decide) _ _ (fun rest => ⟨_, elements?_close rest⟩) ?_ h rest
  rintro ls p rest rest' hle ps rest'' ⟨hlen, hitem⟩ hsep ⟨hlen', hlist⟩
  refine ⟨by omega, ?_⟩
  rw [elements?, hitem]
  · simp only [Option.bind_eq_bind, Option.bind_some, hsep, hlist]
    rfl
  · rintro ls' rfl
    rw [element?, terms?, term?, type?_eq_none rfl] at hitem
    · cases hitem
    · simp
    · simp

/-! ### Signatures -/

variable {ps : List Param} {params : List Binding} {variadic : Bool}

theorem takes_no_result (h : Takes params? ls ps rest)
    (hps : Param.resolve? ps = some (params, variadic)) (hrest : opensType rest = false) :
    Takes signature? (.mark '(' :: ls) ⟨params, [], variadic⟩ rest := by
  obtain ⟨hlen, h⟩ := h
  refine ⟨by simp; omega, ?_⟩
  simp only [signature?, h, Option.bind_eq_bind, Option.bind_some, hps]
  split
  · cases hrest
  · rw [if_neg (by simp [hrest])]
    rfl

theorem takes_result {ls' : List Lexeme} (h : Takes params? ls ps ls')
    (hps : Param.resolve? ps = some (params, variadic)) (hne : ∀ ls'', ls' ≠ .mark '(' :: ls'')
    (ht : Takes type? ls' t rest) :
    Takes signature? (.mark '(' :: ls) ⟨params, [⟨"", t⟩], variadic⟩ rest := by
  have hopens := opensType_of_takes ht
  obtain ⟨hlen, h⟩ := h
  obtain ⟨hlen', ht⟩ := ht
  refine ⟨by simp; omega, ?_⟩
  simp only [signature?, h, Option.bind_eq_bind, Option.bind_some, hps]
  split
  · next ls'' _ => exact absurd rfl (hne ls'')
  · rw [if_pos hopens, ht]
    rfl

theorem takes_results {ls' : List Lexeme} {ps' : List Param} {results : List Binding}
    (h : Takes params? ls ps (.mark '(' :: ls'))
    (hps : Param.resolve? ps = some (params, variadic)) (h' : Takes params? ls' ps' rest)
    (hps' : Param.resolve? ps' = some (results, false)) :
    Takes signature? (.mark '(' :: ls) ⟨params, results, variadic⟩ rest := by
  obtain ⟨hlen, h⟩ := h
  obtain ⟨hlen', h'⟩ := h'
  refine ⟨by simp at hlen ⊢; omega, ?_⟩
  simp only [signature?, h, Option.bind_eq_bind, Option.bind_some, hps, h', hps']
  rfl

end Grammar

end GoDecl
