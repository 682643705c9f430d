/-!
# White space

The characters with the Unicode property `White_Space`: 25 of them, in ten
ranges.  Core's `Char.isWhitespace` knows four.

## Main definitions

* `Text.isBlank`: whether a character is white space
* `Text.trimEnd`: a text without the white space at its end

## Main results

* `Text.trimEnd_eq_nil_iff`: nothing is left exactly of a text that is all
  white space
* `Text.exists_eq_trimEnd_append`: only white space is removed
-/

namespace GoDecl

namespace Text

/-- The ranges of white space, both ends included. -/
def blankRanges : List (Nat × Nat) :=
  [(0x9, 0xD), (0x20, 0x20), (0x85, 0x85), (0xA0, 0xA0), (0x1680, 0x1680), (0x2000, 0x200A),
    (0x2028, 0x2029), (0x202F, 0x202F), (0x205F, 0x205F), (0x3000, 0x3000)]

/-- Whether a character is white space. -/
def isBlank (c : Char) : Bool :=
  blankRanges.any fun r => r.1 ≤ c.toNat && c.toNat ≤ r.2

example : (blankRanges.map fun r => r.2 + 1 - r.1).sum = 25 := by
  decide

/-- A text without the white space at its end. -/
def trimEnd : List Char → List Char
  | [] => []
  | c :: cs =>
    match trimEnd cs with
    | [] => if isBlank c then [] else [c]
    | d :: ds => c :: d :: ds

theorem trimEnd_eq_nil_iff {s : List Char} : trimEnd s = [] ↔ ∀ c ∈ s, isBlank c := by
  induction s with
  | nil => simp [trimEnd]
  | cons c cs ih =>
    rw [trimEnd]
    cases h : trimEnd cs with
    | nil =>
      have hcs := ih.mp h
      by_cases hc : isBlank c <;> simp [hc]
      exact hcs
    | cons d ds =>
      have hcs : ¬ ∀ c ∈ cs, isBlank c := fun hall => by simp [ih.mpr hall] at h
      simp only [List.cons_ne_nil, List.mem_cons, forall_eq_or_imp, false_iff, not_and]
      exact fun _ => hcs

/-- What `trimEnd` removes is white space. -/
theorem exists_eq_trimEnd_append (s : List Char) :
    ∃ t, s = trimEnd s ++ t ∧ ∀ c ∈ t, isBlank c := by
  induction s with
  | nil => exact ⟨[], by simp [trimEnd]⟩
  | cons c cs ih =>
    obtain ⟨t, hs, ht⟩ := ih
    rw [trimEnd]
    cases h : trimEnd cs with
    | nil =>
      rw [h, List.nil_append] at hs
      by_cases hc : isBlank c
      · exact ⟨c :: cs, by simp [hc], by simpa [hc, hs] using ht⟩
      · exact ⟨cs, by simp [hc], by simpa [hs] using ht⟩
    | cons d ds => exact ⟨t, by rw [h] at hs; simp [← hs], ht⟩

/-- What `trimEnd` leaves does not end in white space. -/
theorem not_isBlank_getLast_trimEnd {s : List Char} {c : Char}
    (h : (trimEnd s).getLast? = some c) : ¬ isBlank c := by
  induction s with
  | nil => simp [trimEnd] at h
  | cons x cs ih =>
    rw [trimEnd] at h
    cases hs : trimEnd cs with
    | nil =>
      by_cases hx : isBlank x <;> simp [hs, hx] at h
      exact h ▸ hx
    | cons d ds => exact ih (by rw [hs] at h ⊢; simpa using h)

end Text

end GoDecl
