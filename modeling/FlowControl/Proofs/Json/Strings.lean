import FlowControl.Json.Reader
import Mathlib.Tactic.SplitIfs

/-!
# Strings that are written and read

A string between its quotes is read character by character, each of them as it was written or as
the escape that stands for it.
-/

namespace FlowControl.Json.Text

/-- A digit of an escape is read as its value. -/
theorem hexValue?_hexDigit {n : Nat} (h : n < 16) : hexValue? (hexDigit n) = some n := by
  have hall : ∀ i : Fin 16, hexValue? (hexDigit i) = some i.val := by decide
  exact hall ⟨n, h⟩

/-- Four characters take four bytes at least. -/
theorem hasFourBytes_cons (c₁ c₂ c₃ c₄ : Char) (rest : List Char) :
    hasFourBytes (c₁ :: c₂ :: c₃ :: c₄ :: rest) = true := by
  have h₁ := c₁.utf8Size_pos
  have h₂ := c₂.utf8Size_pos
  have h₃ := c₃.utf8Size_pos
  have h₄ := c₄.utf8Size_pos
  rw [hasFourBytes, decide_eq_true_eq]
  simp only [List.take_succ_cons, List.take_zero, List.foldl_cons, List.foldl_nil]
  omega

/-- A control character is read from its code unit. -/
theorem read_unit {c : Char} (hc : c.toNat < 0x20) (rest : List Char) :
    read .escaped
        ('u' :: '0' :: '0' :: hexDigit (c.toNat / 16) :: hexDigit (c.toNat % 16) :: rest) =
      (read .plain rest).map fun (cs, after) => (c :: cs, after) := by
  have hhigh := hexValue?_hexDigit (n := c.toNat / 16) (by omega)
  have hlow := hexValue?_hexDigit (n := c.toNat % 16) (by omega)
  have hzero : hexValue? '0' = some 0 := by decide
  have hvalue : 16 * (16 * (16 * (16 * 0 + 0) + 0) + c.toNat / 16) + c.toNat % 16 = c.toNat := by
    omega
  have hclose : closeUnit none c.toNat = .char c := by
    have hnotLow : isLowSurrogate c.toNat = false := by
      simp [isLowSurrogate]
      omega
    have hnotHigh : isHighSurrogate c.toNat = false := by
      simp [isHighSurrogate]
      omega
    simp [closeUnit, hnotLow, hnotHigh, Char.ofNat_toNat]
  rw [read, if_pos rfl, if_pos (hasFourBytes_cons ..)]
  simp only [read, hzero, hhigh, hlow, hvalue, hclose]
  simp

/-- A character is read from what stands for it between quotes. -/
theorem read_escape_append (c : Char) (rest : List Char) :
    read .plain (escape c ++ rest) =
      (read .plain rest).map fun (cs, after) => (c :: cs, after) := by
  unfold escape
  split_ifs with hquote hbackslash h₁ h₂ h₃ h₄ h₅ hcontrol
  · rw [hquote]; rfl
  · rw [hbackslash]; rfl
  · rw [h₁]; rfl
  · rw [h₂]; rfl
  · rw [h₃]; rfl
  · rw [h₄]; rfl
  · rw [h₅]; rfl
  · exact read_unit hcontrol rest
  · rw [List.singleton_append, read, if_neg hquote, if_neg hbackslash, if_neg hcontrol]

/-- **The inside of a string is read back**, whatever follows its closing quote. -/
theorem read_flatMap_escape (cs rest : List Char) :
    read .plain (cs.flatMap escape ++ '"' :: rest) = .ok (cs, rest) := by
  induction cs with
  | nil => rfl
  | cons c cs ih =>
    rw [List.flatMap_cons, List.append_assoc, read_escape_append, ih]
    rfl

/-- A string with its quotes, and what follows it. -/
theorem quote_append (cs rest : List Char) :
    quote cs ++ rest = '"' :: (cs.flatMap escape ++ '"' :: rest) := by
  simp [quote]

end FlowControl.Json.Text

namespace FlowControl.Json

/-- A string is the start of the value that it is. -/
theorem Head.read_quote (text : String) (rest : List Char) :
    Head.read (Text.quote text.toList ++ rest) = .ok (.text text, rest) := by
  have hread := Text.read_flatMap_escape text.toList rest
  have hstart : Head.read ('"' :: (text.toList.flatMap Text.escape ++ '"' :: rest)) =
      (Text.read .plain (text.toList.flatMap Text.escape ++ '"' :: rest)).map
        fun (inside, after) => (.text (String.ofList inside), after) := rfl
  rw [Text.quote_append, hstart, hread]
  simp [Except.map]

end FlowControl.Json
