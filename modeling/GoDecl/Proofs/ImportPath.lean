import GoDecl.ImportPath
import Mathlib

/-!
# Package names

The qualifier guessed from an import path consists of ASCII digits and lower-case
letters and begins with a letter, whatever the path is.

## Main definitions

* `IsGuess`: a word that can be guessed, as far as its characters go

## Main results

* `packageName_chars`: the characters of a package name
-/

namespace GoDecl

namespace ImportPath

/-- Letters and digits are ASCII. -/
theorem toNat_lt_of_isAlphanum {c : Char} (h : c.isAlphanum = true) : c.toNat < 128 := by
  simp only [Char.isAlphanum, Char.isAlpha, Char.isUpper, Char.isLower, Char.isDigit,
    Bool.or_eq_true, Bool.and_eq_true, decide_eq_true_eq, ge_iff_le, UInt32.le_iff_toNat_le] at h
  have hZ : 'Z'.val.toNat = 90 := rfl
  have hz : 'z'.val.toNat = 122 := rfl
  have hnine : '9'.val.toNat = 57 := rfl
  have hc : c.toNat = c.val.toNat := rfl
  omega

/-- What holds of each ASCII character holds of letters and digits; those characters are few
enough to look at each of them. -/
theorem of_isAlphanum {P : Char → Prop} (hall : ∀ n < 128, P (Char.ofNat n)) {c : Char}
    (h : c.isAlphanum = true) : P c := by
  have hc := hall c.toNat (toNat_lt_of_isAlphanum h)
  rwa [Char.ofNat_toNat] at hc

/-- Lowering a letter or a digit gives a digit or a lower-case letter. -/
theorem isDigit_or_isLower_toLower {c : Char} (h : c.isAlphanum = true) :
    c.toLower.isDigit = true ∨ c.toLower.isLower = true := by
  have hc := of_isAlphanum (P := fun c => c.isAlphanum = true →
    c.toLower.isDigit = true ∨ c.toLower.isLower = true) (by decide) h
  exact hc h

theorem isAlphanum_of_isDigit_or_isLower {c : Char} (h : c.isDigit = true ∨ c.isLower = true) :
    c.isAlphanum = true := by
  rcases h with h | h <;> simp [Char.isAlphanum, Char.isAlpha, h]

/-- Digits and lower-case letters are in lower case. -/
theorem toLower_eq_self {c : Char} (h : c.isDigit = true ∨ c.isLower = true) : c.toLower = c := by
  have hc := of_isAlphanum (P := fun c => c.isDigit = true ∨ c.isLower = true → c.toLower = c)
    (by decide) (isAlphanum_of_isDigit_or_isLower h)
  exact hc h

theorem isDigit_of_isLower {c : Char} (h : c.isLower = true) : c.isDigit = false := by
  have hc := of_isAlphanum (P := fun c => c.isLower = true → c.isDigit = false) (by decide)
    (isAlphanum_of_isDigit_or_isLower (.inr h))
  exact hc h

theorem isDigit_or_isLower_of_mem_identifier {element : List Char} {c : Char}
    (h : c ∈ identifier element) : c.isDigit = true ∨ c.isLower = true := by
  have hmem := (List.dropWhile_sublist Char.isDigit).subset h
  obtain ⟨d, hd, rfl⟩ := List.mem_map.mp hmem
  exact isDigit_or_isLower_toLower (List.mem_filter.mp hd).2

theorem not_isDigit_of_identifier_eq {element : List Char} {c : Char} {cs : List Char}
    (h : identifier element = c :: cs) : c.isDigit = false := by
  have hhead := List.head?_dropWhile_not Char.isDigit
    ((element.filter Char.isAlphanum).map Char.toLower)
  rw [identifier] at h
  rw [h] at hhead
  simpa using hhead

/-- A word that can be the name of a package, as far as its characters go: a lower-case letter,
and digits and lower-case letters behind it. -/
def IsGuess (w : String) : Prop :=
  ∃ c cs, w.toList = c :: cs ∧ c.isLower = true ∧ ∀ d ∈ cs, d.isDigit = true ∨ d.isLower = true

theorem isGuess_iff {w : String} :
    IsGuess w ↔ w.toList.head?.any Char.isLower = true ∧
      w.toList.all (fun d => d.isDigit || d.isLower) = true := by
  constructor
  · rintro ⟨c, cs, hw, hc, hcs⟩
    simpa [hw, hc] using hcs
  · rintro ⟨hhead, hall⟩
    cases hw : w.toList with
    | nil => simp [hw] at hhead
    | cons c cs =>
      refine ⟨c, cs, hw, by simpa [hw] using hhead, ?_⟩
      simp only [hw, List.all_cons, Bool.and_eq_true, List.all_eq_true, Bool.or_eq_true] at hall
      exact hall.2

instance (w : String) : Decidable (IsGuess w) :=
  decidable_of_iff _ isGuess_iff.symm

theorem IsGuess.isDigit_or_isLower {w : String} (h : IsGuess w) :
    ∀ d ∈ w.toList, d.isDigit = true ∨ d.isLower = true := by
  obtain ⟨c, cs, hw, hc, hcs⟩ := h
  rw [hw]
  exact List.forall_mem_cons.mpr ⟨.inr hc, hcs⟩

/-- **The characters of a package name:** a lower-case letter, and digits and
lower-case letters behind it. -/
theorem packageName_chars (path : String) : IsGuess (packageName path) := by
  rw [packageName]
  split
  · refine ⟨'p', ['k', 'g'], rfl, rfl, ?_⟩
    simp [Char.isLower]
  · next name hne =>
    cases hname : identifier (dropVersion (element path.toList)) with
    | nil => exact absurd hname hne
    | cons c cs =>
      have hmem : ∀ d ∈ c :: cs, d.isDigit = true ∨ d.isLower = true := fun d hd =>
        isDigit_or_isLower_of_mem_identifier (hname ▸ hd)
      refine ⟨c, cs, String.toList_ofList, ?_, fun d hd => hmem d (List.mem_cons_of_mem c hd)⟩
      exact (hmem c List.mem_cons_self).resolve_left
        (by rw [not_isDigit_of_identifier_eq hname]; exact Bool.false_ne_true)

end ImportPath

end GoDecl
