import GoDecl.Fragment.Text
import GoDecl.Proofs.ImportPath

/-!
# Lexemes

Source text is cut into words, the two arrows `...` and `<-` made of several
characters, and single characters; white space only separates.  The tokens of a
fragment have lexemes of their own, and the layout of a fragment keeps them apart:
cutting its text gives them back.

## Main definitions

* `Lexeme.ofText`: a text cut into lexemes
* `Fragment.lexemes`: the lexemes of the tokens of a fragment
* `Fragment.Worded`: whether every name in a fragment is a word
* `Cuts`: what a text contributes to the lexemes, whatever stands behind it

## Main results

* `ofText_text`: cutting the text of a fragment gives the lexemes of its tokens
-/

namespace GoDecl

/-- A piece of source that white space cannot divide. -/
inductive Lexeme where
  | word (text : String)
  | ellipsis
  | arrow
  | mark (c : Char)
deriving DecidableEq, Repr

/-- Whether a character belongs to words: ASCII letters, digits and the
underscore. -/
def isWordChar (c : Char) : Bool :=
  c.isAlphanum || c = '_'

/-- Whether a text is a word. -/
def isWord (s : String) : Bool :=
  s ≠ "" && s.toList.all isWordChar

theorem isWord_iff {w : String} :
    isWord w = true ↔ w.toList ≠ [] ∧ ∀ c ∈ w.toList, isWordChar c = true := by
  simp [isWord, ← String.toList_eq_nil_iff]

theorem exists_head_of_isWord {w : String} (hw : isWord w = true) :
    ∃ c cs, w.toList = c :: cs ∧ isWordChar c = true := by
  obtain ⟨hne, hall⟩ := isWord_iff.mp hw
  obtain ⟨c, cs, hword⟩ := List.exists_cons_of_ne_nil hne
  exact ⟨c, cs, hword, hall c (by simp [hword])⟩

theorem isWord_packageName (path : String) : isWord (ImportPath.packageName path) = true := by
  have hguess := ImportPath.packageName_chars path
  refine isWord_iff.mpr ⟨?_, fun d hd => ?_⟩
  · obtain ⟨c, cs, hname, -, -⟩ := hguess
    rw [hname]
    exact List.cons_ne_nil c cs
  · have hd := ImportPath.isAlphanum_of_isDigit_or_isLower (hguess.isDigit_or_isLower d hd)
    rw [isWordChar, hd, Bool.true_or]

theorem isWord_toString (n : Nat) : isWord (toString n) = true := by
  rw [isWord_iff, Nat.toString_eq_repr, Nat.toList_repr]
  refine ⟨Nat.toDigits_ne_nil, ?_⟩
  intro c hc
  have hdigit := Nat.isDigit_of_mem_toDigits (by decide) (by decide) hc
  simp [isWordChar, Char.isAlphanum, hdigit]

namespace Lexeme

/-- Whether a character only separates lexemes. -/
def isSpace (c : Char) : Bool :=
  c = ' ' || c = '\t' || c = '\n' || c = '\r'

/-- The word that has been read, if any, before other lexemes. -/
def flush (word : List Char) (ls : List Lexeme) : List Lexeme :=
  if word = [] then ls else .word (String.ofList word) :: ls

/-- The lexemes of some characters behind the beginning of a word. -/
def cut (word : List Char) : List Char → List Lexeme
  | [] => flush word []
  | '.' :: '.' :: '.' :: cs => flush word (.ellipsis :: cut [] cs)
  | '<' :: '-' :: cs => flush word (.arrow :: cut [] cs)
  | c :: cs =>
    if isWordChar c then cut (word ++ [c]) cs
    else if isSpace c then flush word (cut [] cs)
    else flush word (.mark c :: cut [] cs)

/-- A text cut into lexemes. -/
def ofText (s : String) : List Lexeme :=
  cut [] s.toList

end Lexeme

/-! ### The lexemes of tokens -/

/-- The lexemes of a punctuation mark. -/
def Punct.lexemes : Punct → List Lexeme
  | star => [.mark '*']
  | brackets => [.mark '[', .mark ']']
  | ellipsis => [.ellipsis]
  | recvArrow | sendArrow => [.arrow]
  | tilde => [.mark '~']
  | comma => [.mark ',']
  | assign => [.mark '=']

namespace Delim

/-- The lexeme that opens a group. -/
def openingLexemes : Delim → List Lexeme
  | paren => [.mark '(']
  | bracket | index => [.mark '[']
  | brace => [.mark '\x7b']
  | pipe => []

/-- The lexeme that closes a group. -/
def closingLexemes : Delim → List Lexeme
  | paren => [.mark ')']
  | bracket | index => [.mark ']']
  | brace => [.mark '\x7d']
  | pipe => []

/-- The lexeme between two items of a group. -/
def separatorLexeme : Delim → Lexeme
  | paren | bracket | index => .mark ','
  | brace => .mark ';'
  | pipe => .mark '|'

end Delim

mutual

/-- The lexemes of a token. -/
def Token.lexemes : Token → List Lexeme
  | .ident name => [.word name]
  | .keyword word => [.word word]
  | .qualified path name => [.word (ImportPath.packageName path), .mark '.', .word name]
  | .punct mark => mark.lexemes
  | .group d items =>
    d.openingLexemes ++ [d.separatorLexeme].intercalate (Fragment.lexemesOfItems items) ++
      d.closingLexemes
  | .comment _ => []

/-- The lexemes of a fragment. -/
def Fragment.lexemes : List Token → List Lexeme
  | [] => []
  | t :: ts => t.lexemes ++ Fragment.lexemes ts

/-- The lexemes of each item of a group. -/
def Fragment.lexemesOfItems : List (List Token) → List (List Lexeme)
  | [] => []
  | f :: fs => Fragment.lexemes f :: Fragment.lexemesOfItems fs

end

mutual

/-- Whether every name in a token is a word, and the token is no comment. -/
def Token.Worded : Token → Prop
  | .ident name => isWord name
  | .keyword word => isWord word
  | .qualified _ name => isWord name
  | .punct _ => True
  | .group _ items => Fragment.WordedItems items
  | .comment _ => False

/-- Whether every name in a fragment is a word, and there are no comments. -/
def Fragment.Worded : List Token → Prop
  | [] => True
  | t :: ts => t.Worded ∧ Fragment.Worded ts

/-- `Worded` for the items of a group. -/
def Fragment.WordedItems : List (List Token) → Prop
  | [] => True
  | f :: fs => Fragment.Worded f ∧ Fragment.WordedItems fs

end

theorem Token.worded_keyword {word : String} (h : isWord word = true) :
    (Token.keyword word).Worded :=
  h

theorem Token.Worded.ne_comment {t : Token} (h : t.Worded) (text : String) : t ≠ .comment text := by
  rintro rfl
  exact h

namespace Fragment

theorem worded_append {f g : Fragment} (hf : Worded f) (hg : Worded g) : Worded (f ++ g) := by
  induction f with
  | nil => exact hg
  | cons t ts ih => exact ⟨hf.1, ih hf.2⟩

theorem wordedItems_iff {items : List Fragment} :
    WordedItems items ↔ ∀ f ∈ items, Worded f := by
  induction items with
  | nil => simp [WordedItems]
  | cons f fs ih => rw [WordedItems, ih, List.forall_mem_cons]

theorem lexemesOfItems_eq_map (items : List Fragment) :
    lexemesOfItems items = items.map lexemes := by
  induction items with
  | nil => rfl
  | cons f fs ih => rw [lexemesOfItems, ih, List.map_cons]

end Fragment

/-! ### Cutting text -/

namespace Lexeme

/-- Whether some characters do not go on a word that stands before them. -/
def StartsApart (cs : List Char) : Prop :=
  ∀ c ∈ cs.head?, isWordChar c = false

theorem StartsApart.nil : StartsApart [] := by
  intro c hc
  cases hc

theorem StartsApart.cons {c : Char} (h : isWordChar c = false) (cs : List Char) :
    StartsApart (c :: cs) := by
  intro c' hc'
  cases hc'
  exact h

theorem StartsApart.append {cs ds : List Char} (hcs : StartsApart cs) (hds : StartsApart ds) :
    StartsApart (cs ++ ds) := by
  cases cs with
  | nil => exact hds
  | cons c cs => exact .cons (hcs c rfl) _

theorem StartsApart.append_of_ne_nil {cs : List Char} (hcs : StartsApart cs) (hne : cs ≠ [])
    {ds : List Char} : StartsApart (cs ++ ds) := by
  cases cs with
  | nil => exact absurd rfl hne
  | cons c cs => exact .cons (hcs c rfl) _

/-- The characters of a word are read together. -/
theorem cut_word {w : List Char} (hw : ∀ c ∈ w, isWordChar c = true) (word cs : List Char) :
    cut word (w ++ cs) = cut (word ++ w) cs := by
  induction w generalizing word with
  | nil => simp
  | cons c w ih =>
    obtain ⟨hc, hw⟩ := List.forall_mem_cons.mp hw
    rw [List.cons_append, cut, if_pos hc, ih hw, List.append_assoc, List.singleton_append]
    · rintro cs' rfl
      cases hc
    · rintro cs' rfl
      cases hc

/-- A word ends where characters stand that do not go on it. -/
theorem cut_flush {cs : List Char} (hcs : StartsApart cs) (word : List Char) :
    cut word cs = flush word (cut [] cs) := by
  fun_cases cut word cs with
  | case1 => rfl
  | case2 cs => simp only [cut, flush, if_true]
  | case3 cs => simp only [cut, flush, if_true]
  | case4 c cs _ _ hc => exact absurd (hcs c rfl) (by simp [hc])
  | case5 c cs hdots harrow hc hs =>
    rw [cut, if_neg hc, if_pos hs]
    · rfl
    · exact hdots
    · exact harrow
  | case6 c cs hdots harrow hc hs =>
    rw [cut, if_neg hc, if_neg hs]
    · rfl
    · exact hdots
    · exact harrow

theorem cut_space (cs : List Char) : cut [] (' ' :: cs) = cut [] cs := by
  simp [cut, isWordChar, isSpace, flush]

/-- A dot before a word stands alone. -/
theorem cut_dot {c : Char} (hc : isWordChar c = true) (cs : List Char) :
    cut [] ('.' :: c :: cs) = .mark '.' :: cut [] (c :: cs) := by
  rw [cut, if_neg (by decide), if_neg (by decide)]
  · rfl
  · intro _ _ h
    rw [(List.cons.inj h).1] at hc
    cases hc
  · intro _ h _
    exact absurd h (by decide)

/-! ### What a text contributes -/

/-- Some characters contribute the lexemes `ls` before whatever stands apart from
them. -/
def Cuts (s : List Char) (ls : List Lexeme) : Prop :=
  ∀ cs, StartsApart cs → cut [] (s ++ cs) = ls ++ cut [] cs

/-- Some characters contribute the lexemes `ls` whatever stands behind them. -/
def CutsOff (s : List Char) (ls : List Lexeme) : Prop :=
  ∀ cs, cut [] (s ++ cs) = ls ++ cut [] cs

variable {s s' : List Char} {ls ls' : List Lexeme}

theorem CutsOff.cuts (h : CutsOff s ls) : Cuts s ls :=
  fun cs _ => h cs

theorem CutsOff.nil : CutsOff [] [] :=
  fun _ => rfl

theorem CutsOff.append (h : CutsOff s ls) (h' : CutsOff s' ls') :
    CutsOff (s ++ s') (ls ++ ls') := by
  intro cs
  rw [List.append_assoc, h, h', List.append_assoc]

theorem CutsOff.append_cuts (h : CutsOff s ls) (h' : Cuts s' ls') : Cuts (s ++ s') (ls ++ ls') := by
  intro cs hcs
  rw [List.append_assoc, h, h' cs hcs, List.append_assoc]

theorem Cuts.append (h : Cuts s ls) (h' : Cuts s' ls') (hs : StartsApart s') :
    Cuts (s ++ s') (ls ++ ls') := by
  intro cs hcs
  rw [List.append_assoc, h _ (hs.append hcs), h' cs hcs, List.append_assoc]

theorem Cuts.append_cutsOff (h : Cuts s ls) (h' : CutsOff s' ls') (hs : StartsApart s')
    (hne : s' ≠ []) : CutsOff (s ++ s') (ls ++ ls') := by
  intro cs
  rw [List.append_assoc, h _ (hs.append_of_ne_nil hne), h', List.append_assoc]

theorem CutsOff.space : CutsOff [' '] [] :=
  fun cs => cut_space cs

theorem cuts_word {w : String} (hw : isWord w = true) : Cuts w.toList [.word w] := by
  intro cs hcs
  obtain ⟨hne, hall⟩ := isWord_iff.mp hw
  rw [cut_word hall, cut_flush hcs, flush, List.nil_append, if_neg hne, String.ofList_toList]
  rfl

theorem cutsOff_punct (m : Punct) : CutsOff m.text.toList m.lexemes := by
  intro cs
  cases m <;> rfl

/-! ### Groups -/

theorem cutsOff_separator (d : Delim) : CutsOff d.separator.toList [d.separatorLexeme] := by
  intro cs
  cases d <;> rfl

theorem startsApart_separator (d : Delim) : StartsApart d.separator.toList := by
  cases d <;> exact .cons rfl _

theorem cutsOff_opening {d : Delim} {padding : String} (h : padding = "" ∨ padding = d.padding) :
    CutsOff (d.opening ++ padding).toList d.openingLexemes := by
  intro cs
  rcases h with rfl | rfl <;> cases d <;> rfl

theorem cutsOff_closing {d : Delim} {padding : String} (h : padding = "" ∨ padding = d.padding) :
    CutsOff (padding ++ d.closing).toList d.closingLexemes := by
  intro cs
  rcases h with rfl | rfl <;> cases d <;> rfl

theorem startsApart_closing {d : Delim} {padding : String}
    (h : padding = "" ∨ padding = d.padding) : StartsApart (padding ++ d.closing).toList := by
  rcases h with rfl | rfl <;> cases d <;> first | exact .nil | exact .cons rfl _

/-- The items of a group, with what separates them. -/
theorem cuts_intercalate (d : Delim) {items : List Fragment}
    (h : ∀ f ∈ items, Cuts f.text.toList (Fragment.lexemes f)) :
    Cuts (d.separator.intercalate (items.map Fragment.text)).toList
      ([d.separatorLexeme].intercalate (items.map Fragment.lexemes)) := by
  induction items with
  | nil => exact CutsOff.nil.cuts
  | cons f items ih =>
    obtain ⟨hf, hitems⟩ := List.forall_mem_cons.mp h
    cases items with
    | nil => simpa using hf
    | cons g items =>
      have hrest := (cutsOff_separator d).append_cuts (ih hitems)
      have happend := hf.append hrest ((startsApart_separator d).append_of_ne_nil ?_)
      · simpa using happend
      · cases d <;> exact List.cons_ne_nil _ _

end Lexeme

/-! ### Cutting the text of a fragment -/

open Lexeme

namespace Token

/-- Whether what stands behind a token cannot go on its last lexeme. -/
def isClosed : Token → Bool
  | .punct _ => true
  | .group d _ => d ≠ .pipe
  | _ => false

theorem lexemes_group (d : Delim) (items : List Fragment) :
    (group d items).lexemes =
      d.openingLexemes ++ ([d.separatorLexeme].intercalate (items.map Fragment.lexemes) ++
        d.closingLexemes) := by
  rw [lexemes, Fragment.lexemesOfItems_eq_map, List.append_assoc]

theorem toList_text_group (d : Delim) (items : List Fragment) :
    ∃ padding, (padding = "" ∨ padding = d.padding) ∧
      (group d items).text.toList =
        (d.opening ++ padding).toList ++
          ((d.separator.intercalate (items.map Fragment.text)).toList ++
            (padding ++ d.closing).toList) := by
  refine ⟨if items.isEmpty then "" else d.padding, ?_, ?_⟩
  · split
    · exact .inl rfl
    · exact .inr rfl
  · rw [text_group, Delim.enclose]
    simp

/-- The lexemes of a group.  Only a union has nothing behind its last item. -/
theorem cuts_group (d : Delim) {items : List Fragment}
    (h : ∀ f ∈ items, Cuts (Fragment.text f).toList (Fragment.lexemes f)) :
    Cuts (group d items).text.toList (group d items).lexemes ∧
      ((group d items).isClosed = true →
        CutsOff (group d items).text.toList (group d items).lexemes) := by
  obtain ⟨padding, hpadding, htext⟩ := toList_text_group d items
  have hopening := cutsOff_opening hpadding
  have hclosing := cutsOff_closing hpadding
  have hitems := cuts_intercalate d h
  rw [htext, lexemes_group]
  refine ⟨hopening.append_cuts (hitems.append hclosing.cuts (startsApart_closing hpadding)), ?_⟩
  intro hclosed
  have hne : (padding ++ d.closing).toList ≠ [] := by
    cases d <;> simp [isClosed, Delim.closing] at hclosed ⊢
  exact hopening.append (hitems.append_cutsOff hclosing (startsApart_closing hpadding) hne)

/-- Of the tokens that are not set apart from a word, each begins with a
delimiter. -/
theorem startsApart_text {prev t : Token} (hprev : prev.isClosed = false)
    (hcomment : ∀ text, prev ≠ .comment text) (hspace : needsSpace prev t = false) :
    StartsApart t.text.toList ∧ t.text.toList ≠ [] := by
  have hcases : t = .punct .comma ∨ t = .punct .sendArrow ∨
      ∃ d items, t = .group d items ∧ d ≠ .pipe := by
    cases prev with
    | comment text => exact absurd rfl (hcomment text)
    | punct mark => cases hprev
    | group d items =>
      have hcomma : t.isComma = true := by
        cases d <;> simp [isClosed, needsSpace] at hprev hspace
        exact hspace
      left
      revert hcomma
      fun_cases isComma t <;> simp
    | _ =>
      cases t with
      | punct mark => cases mark <;> simp [needsSpace, spacedAfterWord] at hspace ⊢
      | group d items =>
        cases d <;> simp [needsSpace, spacedAfterWord] at hspace ⊢
      | _ => cases hspace
  rcases hcases with rfl | rfl | ⟨d, items, rfl, hd⟩
  · exact ⟨.cons rfl _, List.cons_ne_nil _ _⟩
  · exact ⟨.cons rfl _, List.cons_ne_nil _ _⟩
  · obtain ⟨padding, -, htext⟩ := toList_text_group d items
    rw [htext, String.toList_append, List.append_assoc]
    have hopening : StartsApart d.opening.toList ∧ d.opening.toList ≠ [] := by
      cases d with
      | pipe => exact absurd rfl hd
      | _ => exact ⟨.cons rfl _, List.cons_ne_nil _ _⟩
    exact ⟨hopening.1.append_of_ne_nil hopening.2, by simp [hopening.2]⟩

/-- Behind a token that could go on, the next token is set apart or begins with a
delimiter. -/
theorem startsApart_gap_text {prev : Token} (hprev : prev.isClosed = false)
    (hcomment : ∀ text, prev ≠ .comment text) (t : Token) :
    StartsApart (gap prev t ++ t.text).toList ∧ (gap prev t ++ t.text).toList ≠ [] := by
  rw [gap]
  split
  · rw [String.toList_append]
    exact ⟨.cons (c := ' ') rfl _, List.cons_ne_nil _ _⟩
  · next hspace =>
    rw [String.empty_append]
    exact startsApart_text hprev hcomment (Bool.eq_false_iff.mpr hspace)

/-- The space between two tokens has no lexemes. -/
theorem cutsOff_gap (prev t : Token) : CutsOff (gap prev t).toList [] := by
  rw [gap]
  split
  · exact .space
  · exact .nil

/-- The dot of a qualifier is followed by a letter, so it is not part of an ellipsis. -/
theorem cuts_qualified (path : String) {name : String} (h : isWord name = true) :
    Cuts (qualified path name).text.toList (qualified path name).lexemes := by
  have hpackage := cuts_word (isWord_packageName path)
  have hname := cuts_word h
  obtain ⟨c, cs, hword, hc⟩ := exists_head_of_isWord h
  have hdot : Cuts ('.' :: name.toList) [.mark '.', .word name] := by
    intro ds hds
    rw [List.cons_append, hword, List.cons_append, cut_dot hc, ← List.cons_append, ← hword,
      hname ds hds]
    rfl
  have happend := hpackage.append hdot (.cons rfl _)
  simpa [text, lexemes] using happend

end Token

mutual

/-- The text of a token contributes its lexemes, and if the token is closed it does so
whatever stands behind it. -/
theorem Token.cuts_text : ∀ t : Token, t.Worded →
    Cuts t.text.toList t.lexemes ∧ (t.isClosed = true → CutsOff t.text.toList t.lexemes)
  | .ident _, h => ⟨cuts_word h, nofun⟩
  | .keyword _, h => ⟨cuts_word h, nofun⟩
  | .qualified path _, h => ⟨Token.cuts_qualified path h, nofun⟩
  | .punct m, _ => ⟨(cutsOff_punct m).cuts, fun _ => cutsOff_punct m⟩
  | .group d items, h => Token.cuts_group d (Fragment.cuts_texts items h)

theorem Fragment.cuts_text : ∀ ts : List Token, Fragment.Worded ts →
    Cuts (Fragment.text ts).toList (Fragment.lexemes ts)
  | [], _ => CutsOff.nil.cuts
  | [t], h => by
    have ht := (Token.cuts_text t h.1).1
    rw [Fragment.text_singleton, Fragment.lexemes, Fragment.lexemes, List.append_nil]
    exact ht
  | t :: u :: us, h => by
    have ht := Token.cuts_text t h.1
    have hus := Fragment.cuts_text (u :: us) h.2
    have hrest := (Token.cutsOff_gap t u).append_cuts hus
    rw [Fragment.text_cons_cons, Fragment.lexemes, String.append_assoc, String.toList_append,
      String.toList_append]
    cases hclosed : t.isClosed with
    | true => exact (ht.2 hclosed).append_cuts hrest
    | false =>
      have hnext := Token.startsApart_gap_text hclosed (Token.Worded.ne_comment h.1) u
      rw [String.toList_append] at hnext
      refine ht.1.append hrest ?_
      rw [Fragment.text_cons, String.toList_append, ← List.append_assoc]
      exact hnext.1.append_of_ne_nil hnext.2

theorem Fragment.cuts_texts : ∀ items : List (List Token), Fragment.WordedItems items →
    ∀ f ∈ items, Cuts (Fragment.text f).toList (Fragment.lexemes f)
  | [], _, f, hf => by cases hf
  | item :: items, h, f, hf => by
    rcases List.mem_cons.mp hf with hitem | hf
    · exact hitem ▸ Fragment.cuts_text item h.1
    · exact Fragment.cuts_texts items h.2 f hf

end

/-- **Cutting the text of a fragment gives the lexemes of its tokens.** -/
theorem Fragment.ofText_text {f : Fragment} (h : Fragment.Worded f) :
    Lexeme.ofText f.text = Fragment.lexemes f := by
  have hcut := Fragment.cuts_text f h [] .nil
  simpa [Lexeme.ofText, cut, flush] using hcut

end GoDecl
