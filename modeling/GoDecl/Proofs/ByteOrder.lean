import Mathlib

/-!
# Strings in the order of their bytes

Strings are compared character by character, by code points.  Their UTF-8 encodings, compared
byte by byte, stand in the same order: of two characters the one with the smaller code point has
the smaller byte at the first place where their encodings differ, and no encoding is the beginning
of another.

## Main definitions

* `Precedes`: a list of bytes that is smaller than another at a place that both have
* `utf8Bytes`: the UTF-8 encoding of a string

## Main results

* `lt_iff_utf8Bytes_lt`: strings stand in the order of their bytes
-/

namespace GoDecl

/-- A list of bytes that is smaller than another at the first place where they differ, which both
of them have. -/
inductive Precedes : List UInt8 → List UInt8 → Prop
  | head {x y : UInt8} (h : x < y) (r r' : List UInt8) : Precedes (x :: r) (y :: r')
  | tail (x : UInt8) {r r' : List UInt8} (h : Precedes r r') : Precedes (x :: r) (x :: r')

namespace Precedes

/-- What follows two lists does not change their order. -/
theorem append_lt {a b : List UInt8} (h : Precedes a b) (u v : List UInt8) : a ++ u < b ++ v := by
  induction h with
  | head h r r' => exact List.cons_lt_cons_iff.mpr (.inl h)
  | tail x h ih => exact List.cons_lt_cons_iff.mpr (.inr ⟨rfl, ih⟩)

theorem of_lt {x y : Nat} (hxy : x < y) (hy : y < 256) (r r' : List UInt8) :
    Precedes (.ofNat x :: r) (.ofNat y :: r') :=
  head ((UInt8.ofNat_lt_iff_lt (hxy.trans hy) hy).mpr hxy) r r'

/-- The first bytes decide if they differ; otherwise the others do. -/
theorem of_le {x y : Nat} {r r' : List UInt8} (hxy : x ≤ y) (hy : y < 256)
    (h : x = y → Precedes r r') : Precedes (.ofNat x :: r) (.ofNat y :: r') := by
  rcases Nat.lt_or_eq_of_le hxy with hlt | rfl
  · exact of_lt hlt hy r r'
  · exact tail _ (h rfl)

/-- **Encodings of characters stand in the order of the characters:** where one of them is longer,
its first byte is greater. -/
theorem utf8EncodeChar {c d : Char} (h : c < d) :
    Precedes (String.utf8EncodeChar c) (String.utf8EncodeChar d) := by
  have hcd : c.val.toNat < d.val.toNat := h
  have hd : d.val.toNat < 0x110000 := by
    rcases d.valid with hd | hd <;> omega
  unfold String.utf8EncodeChar
  generalize c.val.toNat = v at hcd ⊢
  generalize d.val.toNat = w at hcd hd ⊢
  dsimp only
  split
  · split
    · exact of_lt hcd (by omega) _ _
    · split
      · exact of_lt (by omega) (by omega) _ _
      · split <;> exact of_lt (by omega) (by omega) _ _
  · rw [if_neg (by omega : ¬ w ≤ 127)]
    split
    · split
      · refine of_le (by omega) (by omega) fun h₁ => ?_
        exact of_lt (by omega) (by omega) _ _
      · split <;> exact of_lt (by omega) (by omega) _ _
    · rw [if_neg (by omega : ¬ w ≤ 2047)]
      split
      · split
        · refine of_le (by omega) (by omega) fun h₁ => of_le (by omega) (by omega) fun h₂ => ?_
          exact of_lt (by omega) (by omega) _ _
        · exact of_lt (by omega) (by omega) _ _
      · rw [if_neg (by omega : ¬ w ≤ 65535)]
        refine of_le (by omega) (by omega) fun h₁ => of_le (by omega) (by omega) fun h₂ =>
          of_le (by omega) (by omega) fun h₃ => ?_
        exact of_lt (by omega) (by omega) _ _

end Precedes

/-- The UTF-8 encoding of a string. -/
def utf8Bytes (s : String) : List UInt8 := s.toUTF8.data.toList

theorem utf8Bytes_eq_flatMap (s : String) :
    utf8Bytes s = s.toList.flatMap String.utf8EncodeChar := by
  conv_lhs => rw [← String.ofList_toList (s := s)]
  rw [utf8Bytes, String.toUTF8_eq_toByteArray, String.toByteArray_ofList, List.utf8Encode,
    List.data_toByteArray]

theorem flatMap_utf8EncodeChar_lt {l l' : List Char} (h : l < l') :
    l.flatMap String.utf8EncodeChar < l'.flatMap String.utf8EncodeChar := by
  induction l generalizing l' with
  | nil =>
    cases l' with
    | nil => exact absurd h (List.lt_irrefl _)
    | cons d ds =>
      obtain ⟨x, xs, hx⟩ : ∃ x xs, String.utf8EncodeChar d = x :: xs := by
        apply List.exists_cons_of_length_pos
        rw [String.length_utf8EncodeChar]
        exact d.utf8Size_pos
      rw [List.flatMap_nil, List.flatMap_cons, hx]
      exact List.nil_lt_cons _ _
  | cons c cs ih =>
    cases l' with
    | nil => exact absurd h (List.not_lt_nil _)
    | cons d ds =>
      rw [List.flatMap_cons, List.flatMap_cons]
      rcases List.cons_lt_cons_iff.mp h with hcd | ⟨rfl, hrest⟩
      · exact (Precedes.utf8EncodeChar hcd).append_lt _ _
      · exact List.append_left_lt (ih hrest)

/-- **Strings stand in the order of their bytes.** -/
theorem lt_iff_utf8Bytes_lt {s t : String} : s < t ↔ utf8Bytes s < utf8Bytes t := by
  have hlt : ∀ {s t : String}, s < t → utf8Bytes s < utf8Bytes t := by
    intro s t h
    rw [utf8Bytes_eq_flatMap, utf8Bytes_eq_flatMap]
    exact flatMap_utf8EncodeChar_lt (String.lt_iff.mp h)
  refine ⟨hlt, fun h => ?_⟩
  rcases lt_trichotomy s t with hst | rfl | hts
  · exact hst
  · exact absurd h (List.lt_irrefl _)
  · exact absurd h (List.lt_asymm (hlt hts))

end GoDecl
