import Mathlib.Data.Char
import Mathlib.Data.String.Basic

/-! The order of texts is the order of their bytes in UTF-8. -/

set_option autoImplicit false

namespace FlowTree.Text

def bytes (text : String) : List UInt8 := text.toUTF8.data.toList

theorem bytes_eq_flatMap (text : String) : bytes text = text.toList.flatMap String.utf8EncodeChar := by
  conv_lhs => rw [← String.ofList_toList (s := text)]
  rw [bytes, String.toUTF8_eq_toByteArray, String.toByteArray_ofList, List.utf8Encode, List.data_toByteArray]

theorem encode_lt {c d : Char} (below : c < d) (left right : List UInt8) :
    String.utf8EncodeChar c ++ left < String.utf8EncodeChar d ++ right := by
  have values : c.val.toNat < d.val.toNat := below
  have bound : d.val.toNat < 0x110000 := by
    rcases d.valid with low | high
    · exact low.trans (by decide)
    · exact high.2
  simp only [String.utf8EncodeChar]
  generalize c.val.toNat = m at *
  generalize d.val.toNat = n at *
  split_ifs <;>
    simp (disch := omega) only [List.cons_append, List.nil_append, List.cons_lt_cons_iff,
      UInt8.lt_iff_toNat_lt, ← UInt8.toNat_inj, UInt8.toNat_ofNat', Nat.mod_eq_of_lt] <;>
    omega

theorem encode_list_lt {left right : List Char} (below : left < right) :
    left.flatMap String.utf8EncodeChar < right.flatMap String.utf8EncodeChar := by
  induction left generalizing right with
  | nil =>
    cases right with
    | nil => exact absurd below (List.lt_irrefl _)
    | cons d right =>
      rw [List.flatMap_nil, List.flatMap_cons]
      cases bytes : String.utf8EncodeChar d with
      | nil => exact absurd bytes String.utf8EncodeChar_ne_nil
      | cons first rest => exact List.nil_lt_cons _ _
  | cons c left ih =>
    cases right with
    | nil => exact absurd below (List.not_lt_nil _)
    | cons d right =>
      rw [List.flatMap_cons, List.flatMap_cons]
      rcases List.cons_lt_cons_iff.1 below with first | ⟨rfl, rest⟩
      · exact encode_lt first _ _
      · exact List.append_left_lt (ih rest)

theorem lt_iff_bytes_lt (left right : String) : left < right ↔ bytes left < bytes right := by
  have keeps {left right : String} (below : left < right) : bytes left < bytes right := by
    rw [bytes_eq_flatMap, bytes_eq_flatMap]
    exact encode_list_lt (String.lt_iff_toList_lt.1 below)
  constructor
  · exact keeps
  · intro below
    rcases Std.lt_trichotomy left right with less | rfl | more
    · exact less
    · exact absurd below (List.lt_irrefl _)
    · exact absurd (keeps more) (List.lt_asymm below)

end FlowTree.Text
