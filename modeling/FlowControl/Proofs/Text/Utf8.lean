import Mathlib.Data.String.Basic

/-!
# The order of texts in bytes

Texts are compared by the code points of their characters. Their bytes in UTF-8, compared one
after the other, stand in the same order.
-/

namespace FlowControl.Text

/-- The bytes of a text in UTF-8. -/
def utf8 (text : String) : List UInt8 := text.toUTF8.data.toList

/-- The bytes of a text are those of its characters, one after the other. -/
theorem utf8_eq (text : String) : utf8 text = text.toList.flatMap String.utf8EncodeChar := by
  have hbytes : text.toUTF8 = text.toList.utf8Encode := by
    conv_lhs => rw [← String.ofList_toList (s := text)]
    rfl
  rw [utf8, hbytes, List.utf8Encode, List.data_toByteArray]

section Bytes

variable {a b : ℕ} {s t : List UInt8}

/-- A smaller byte decides, whatever follows. -/
theorem cons_ofNat_lt_of_lt (hb : b < 256) (hlt : a < b) :
    UInt8.ofNat a :: s < UInt8.ofNat b :: t := by
  rw [List.cons_lt_cons_iff]
  left
  rw [UInt8.lt_iff_toNat_lt, UInt8.toNat_ofNat', UInt8.toNat_ofNat']
  omega

/-- After equal bytes the rest decides. -/
theorem cons_ofNat_lt_of_le (hb : b < 256) (hle : a ≤ b) (htail : a = b → s < t) :
    UInt8.ofNat a :: s < UInt8.ofNat b :: t := by
  rcases hle.lt_or_eq with hlt | rfl
  · exact cons_ofNat_lt_of_lt hb hlt
  · exact List.cons_lt_cons_iff.mpr (Or.inr ⟨rfl, htail rfl⟩)

end Bytes

/-- A smaller character has smaller bytes, whatever follows them. The first byte tells how many
there are, and of equally many each is a digit of the code point, from the highest one on. -/
theorem utf8EncodeChar_append_lt {c d : Char} (h : c < d) (s t : List UInt8) :
    String.utf8EncodeChar c ++ s < String.utf8EncodeChar d ++ t := by
  have hlt : c.val.toNat < d.val.toNat := h
  have hd : d.val.toNat < 0x110000 := by
    rcases d.valid with h | h <;> omega
  unfold String.utf8EncodeChar
  generalize c.val.toNat = v at hlt
  generalize d.val.toNat = w at hlt hd
  dsimp only
  split_ifs <;> simp only [List.cons_append, List.nil_append] <;> try omega
  -- one byte, then two, three and four, each against as many bytes or more
  · exact cons_ofNat_lt_of_lt (by omega) hlt
  · exact cons_ofNat_lt_of_lt (by omega) (by omega)
  · exact cons_ofNat_lt_of_lt (by omega) (by omega)
  · exact cons_ofNat_lt_of_lt (by omega) (by omega)
  · apply cons_ofNat_lt_of_le (by omega) (by omega)
    intro hfirst
    exact cons_ofNat_lt_of_lt (by omega) (by omega)
  · exact cons_ofNat_lt_of_lt (by omega) (by omega)
  · exact cons_ofNat_lt_of_lt (by omega) (by omega)
  · apply cons_ofNat_lt_of_le (by omega) (by omega)
    intro hfirst
    apply cons_ofNat_lt_of_le (by omega) (by omega)
    intro hsecond
    exact cons_ofNat_lt_of_lt (by omega) (by omega)
  · exact cons_ofNat_lt_of_lt (by omega) (by omega)
  · apply cons_ofNat_lt_of_le (by omega) (by omega)
    intro hfirst
    apply cons_ofNat_lt_of_le (by omega) (by omega)
    intro hsecond
    apply cons_ofNat_lt_of_le (by omega) (by omega)
    intro hthird
    exact cons_ofNat_lt_of_lt (by omega) (by omega)

/-- The bytes of characters stand in the order of the characters. -/
theorem flatMap_utf8EncodeChar_lt {cs ds : List Char} (h : cs < ds) :
    cs.flatMap String.utf8EncodeChar < ds.flatMap String.utf8EncodeChar := by
  induction h with
  | nil =>
    rename_i d ds
    obtain ⟨byte, rest, hd⟩ := List.exists_cons_of_ne_nil (String.utf8EncodeChar_ne_nil (c := d))
    rw [List.flatMap_nil, List.flatMap_cons, hd, List.cons_append]
    exact List.nil_lt_cons _ _
  | rel h =>
    rw [List.flatMap_cons, List.flatMap_cons]
    exact utf8EncodeChar_append_lt h _ _
  | cons _ ih =>
    rw [List.flatMap_cons, List.flatMap_cons]
    exact List.append_left_lt ih

/-- Texts stand in the order of their bytes. -/
theorem utf8_lt_iff {a b : String} : utf8 a < utf8 b ↔ a < b := by
  have hmono {a b : String} (h : a < b) : utf8 a < utf8 b := by
    rw [utf8_eq, utf8_eq]
    exact flatMap_utf8EncodeChar_lt (String.lt_iff_toList_lt.mp h)
  refine ⟨fun h => ?_, hmono⟩
  rcases lt_trichotomy a b with hlt | rfl | hgt
  · exact hlt
  · exact absurd h (List.lt_irrefl _)
  · exact absurd h (List.lt_asymm (hmono hgt))

end FlowControl.Text
