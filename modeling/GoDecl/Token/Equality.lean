import GoDecl.Token.Basic

/-!
# Equality of tokens

Two fragments are equal when they hold the same tokens, groups compared item by
item.  The comparison reduces in the kernel.

## Main definitions

* `Token.same`: the comparison, with one function for each kind of list

## Main results

* `Token.same_iff`: the comparison decides equality
-/

namespace GoDecl

namespace Token

mutual

/-- Whether two tokens are the same. -/
def same : Token → Token → Bool
  | ident n, ident n' => n == n'
  | keyword w, keyword w' => w == w'
  | qualified p n, qualified p' n' => p == p' && n == n'
  | punct m, punct m' => m == m'
  | group d is, group d' is' => d == d' && sameItems is is'
  | comment t, comment t' => t == t'
  | _, _ => false
termination_by structural t => t

/-- `same` for two fragments. -/
def sameFragment : Fragment → Fragment → Bool
  | [], [] => true
  | t :: ts, t' :: ts' => same t t' && sameFragment ts ts'
  | _, _ => false
termination_by structural ts => ts

/-- `same` for the items of two groups. -/
def sameItems : List Fragment → List Fragment → Bool
  | [], [] => true
  | f :: fs, f' :: fs' => sameFragment f f' && sameItems fs fs'
  | _, _ => false
termination_by structural fs => fs

end

mutual

/-- **The comparison decides equality.** -/
theorem same_iff : ∀ t t' : Token, same t t' = true ↔ t = t'
  | ident _, t' => by cases t' <;> simp [same]
  | keyword _, t' => by cases t' <;> simp [same]
  | qualified _ _, t' => by cases t' <;> simp [same]
  | punct _, t' => by cases t' <;> simp [same]
  | group _ is, t' => by cases t' <;> simp [same, sameItems_iff is]
  | comment _, t' => by cases t' <;> simp [same]

theorem sameFragment_iff : ∀ ts ts' : Fragment, sameFragment ts ts' = true ↔ ts = ts'
  | [], ts' => by cases ts' <;> simp [sameFragment]
  | t :: ts, ts' => by cases ts' <;> simp [sameFragment, same_iff t, sameFragment_iff ts]

theorem sameItems_iff : ∀ fs fs' : List Fragment, sameItems fs fs' = true ↔ fs = fs'
  | [], fs' => by cases fs' <;> simp [sameItems]
  | f :: fs, fs' => by cases fs' <;> simp [sameItems, sameFragment_iff f, sameItems_iff fs]

end

instance : DecidableEq Token := fun t t' => decidable_of_iff _ (same_iff t t')

end Token

end GoDecl
