/-!
# Lines and separators

Cutting a text into lines, and at the last occurrence of a separator.

## Main definitions

* `Text.lines`: the lines of a text, without their ends
* `Text.splitAtLast`: what stands before and after the last `c`

## Main results

* `Text.splitAtLast_eq_some_iff`: the cut is at the last occurrence
-/

namespace GoDecl

namespace Text

/-- The lines of a text.  A line feed ends its line, so one at the very end
begins no further line. -/
def lines : List Char → List (List Char)
  | [] => []
  | c :: cs =>
    if c = '\n' then [] :: lines cs
    else
      match lines cs with
      | [] => [[c]]
      | l :: ls => (c :: l) :: ls

theorem not_mem_of_mem_lines {s l : List Char} (h : l ∈ lines s) : '\n' ∉ l := by
  induction s generalizing l with
  | nil => simp [lines] at h
  | cons c cs ih =>
    rw [lines] at h
    split at h
    · rcases List.mem_cons.mp h with rfl | h
      · simp
      · exact ih h
    · next hc =>
      have hc : ¬ '\n' = c := fun e => hc e.symm
      split at h
      · simp_all
      · next l' ls hl =>
        rcases List.mem_cons.mp h with rfl | h
        · simpa [hc] using ih (l := l') (by simp [hl])
        · exact ih (by simp [hl, h])

/-- What stands before and after the last `c` of a text that has one. -/
def splitAtLast (c : Char) : List Char → Option (List Char × List Char)
  | [] => none
  | x :: xs =>
    match splitAtLast c xs with
    | some (before, after) => some (x :: before, after)
    | none => if x = c then some ([], xs) else none

theorem splitAtLast_eq_none_iff {c : Char} {s : List Char} :
    splitAtLast c s = none ↔ c ∉ s := by
  induction s with
  | nil => simp [splitAtLast]
  | cons x xs ih =>
    rw [splitAtLast]
    cases h : splitAtLast c xs with
    | some p =>
      have hm : c ∈ xs := by simpa [h] using ih
      simp [hm]
    | none =>
      have hm : c ∉ xs := ih.mp h
      by_cases hx : x = c
      · simp [hx]
      · simp [hx, hm, Ne.symm hx]

theorem splitAtLast_eq_some_iff {c : Char} {s before after : List Char} :
    splitAtLast c s = some (before, after) ↔ s = before ++ c :: after ∧ c ∉ after := by
  induction s generalizing before after with
  | nil => simp [splitAtLast]
  | cons x xs ih =>
    rw [splitAtLast]
    cases h : splitAtLast c xs with
    | some p =>
      obtain ⟨b, a⟩ := p
      obtain ⟨rfl, ha⟩ := ih.mp h
      constructor
      · rintro ⟨⟩
        exact ⟨rfl, ha⟩
      · rintro ⟨he, hc⟩
        cases before with
        | nil =>
          obtain ⟨-, rfl⟩ := by simpa using he
          simp at hc
        | cons y ys =>
          obtain ⟨rfl, hxs⟩ := List.cons.inj he
          have := ih.mpr ⟨hxs, hc⟩
          rw [h] at this
          cases this
          rfl
    | none =>
      have hm := splitAtLast_eq_none_iff.mp h
      cases before with
      | nil =>
        by_cases hx : x = c
        · subst hx
          simp only [↓reduceIte, Option.some.injEq, Prod.mk.injEq, true_and, List.nil_append,
            List.cons.injEq]
          constructor
          · rintro rfl
            exact ⟨rfl, hm⟩
          · exact fun e => e.1
        · simp [hx]
      | cons y ys =>
        have : ¬ (x :: xs = y :: ys ++ c :: after) := fun he => by
          obtain ⟨-, rfl⟩ := by simpa using he
          simp at hm
        by_cases hx : x = c <;> simp [hx] <;> simp_all

end Text

end GoDecl
