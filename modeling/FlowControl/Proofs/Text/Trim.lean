import FlowControl.Decimal.Numeral
import FlowControl.Text.Blank
import Mathlib.Data.List.TakeWhile
import Mathlib.Data.String.Basic

/-!
# Blanks around a number

Nothing that is read as a number holds a blank, so to set the blanks around a text aside changes no
number: the texts that are numbers then are the numbers with blanks put around them.
-/

namespace FlowControl

namespace Text

/-- A text without blanks has none at its ends. -/
theorem trim_eq_self {cs : List Char} (h : ∀ c ∈ cs, isBlank c = false) : trim cs = cs := by
  have hkeep (cs : List Char) (h : ∀ c ∈ cs, isBlank c = false) : cs.dropWhile isBlank = cs := by
    cases cs with
    | nil => rfl
    | cons c cs => exact List.dropWhile_cons_of_neg (by simp [h c])
  rw [trim, hkeep cs h, hkeep cs.reverse (by simpa using h), List.reverse_reverse]

/-- Blanks put around a text are set aside. -/
theorem trim_append {before cs after : List Char} (hbefore : ∀ c ∈ before, isBlank c = true)
    (hafter : ∀ c ∈ after, isBlank c = true) : trim (before ++ cs ++ after) = trim cs := by
  have hreverse : ∀ c ∈ after.reverse, isBlank c = true := by simpa using hafter
  rw [trim, trim, List.append_assoc, List.dropWhile_append_of_pos hbefore, List.dropWhile_append]
  split_ifs with hempty
  · rw [List.isEmpty_iff.mp hempty, List.dropWhile_eq_nil_iff.mpr hafter]
  · rw [List.reverse_append, List.dropWhile_append_of_pos hreverse]

/-- What is set aside are blanks around the rest. -/
theorem exists_trim (cs : List Char) :
    ∃ before after, cs = before ++ trim cs ++ after ∧ (∀ c ∈ before, isBlank c = true) ∧
      ∀ c ∈ after, isBlank c = true := by
  have hblank (cs : List Char) : ∀ c ∈ cs.takeWhile isBlank, isBlank c = true :=
    List.all_eq_true.mp List.all_takeWhile
  let rest := cs.dropWhile isBlank
  refine ⟨cs.takeWhile isBlank, (rest.reverse.takeWhile isBlank).reverse, ?_, hblank cs,
    fun c hc => hblank rest.reverse c (List.mem_reverse.mp hc)⟩
  have hrest : rest = trim cs ++ (rest.reverse.takeWhile isBlank).reverse := by
    rw [trim, ← List.reverse_append, List.takeWhile_append_dropWhile, List.reverse_reverse]
  rw [List.append_assoc, ← hrest, List.takeWhile_append_dropWhile]

variable {c : Char}

/-- Digits and letters are no blanks. -/
theorem isBlank_eq_false (h : 0x30 ≤ c.toNat ∧ c.toNat ≤ 0x7A) : isBlank c = false := by
  simp only [isBlank, blankRanges, List.any_eq_false, List.forall_mem_cons, Bool.and_eq_true,
    decide_eq_true_iff]
  refine ⟨?_, ?_, ?_, ?_, ?_, ?_, ?_, ?_, ?_, ?_, by simp⟩ <;> omega

/-- A digit is no blank. -/
theorem isBlank_of_isDigit (h : c.isDigit = true) : isBlank c = false := by
  simp only [Char.isDigit, Bool.and_eq_true, decide_eq_true_iff, ge_iff_le,
    UInt32.le_iff_toNat_le] at h
  exact isBlank_eq_false ⟨h.1, h.2.trans (by decide)⟩

/-- A character that is a small letter in lower case is no blank. -/
theorem isBlank_of_toLower (h : isBlank c.toLower = false) : isBlank c = false := by
  unfold Char.toLower at h
  split_ifs at h with hupper
  · simp only [ge_iff_le, UInt32.le_iff_toNat_le] at hupper
    exact isBlank_eq_false ⟨le_trans (by decide) hupper.1, hupper.2.trans (by decide)⟩
  · exact h

end Text

namespace Numeral

open Text

variable {cs : List Char}

/-- The blanks of a text are those after its sign. -/
theorem not_isBlank_of_splitSign (h : ∀ c ∈ (splitSign cs).2, isBlank c = false) :
    ∀ c ∈ cs, isBlank c = false := by
  unfold splitSign at h
  split at h
  · exact List.forall_mem_cons.mpr ⟨by decide, h⟩
  · exact List.forall_mem_cons.mpr ⟨by decide, h⟩
  · exact h

/-- The blanks of a text are those after its first digits. -/
theorem not_isBlank_of_spanDigits (h : ∀ c ∈ (spanDigits cs).2, isBlank c = false) :
    ∀ c ∈ cs, isBlank c = false := by
  rw [← List.takeWhile_append_dropWhile (p := Char.isDigit) (l := cs)]
  exact List.forall_mem_append.mpr
    ⟨fun c hc => isBlank_of_isDigit ((List.all_eq_true.mp List.all_takeWhile) c hc), h⟩

/-- An exponent ends with its digits. -/
theorem not_isBlank_of_exponent? {e : ℤ} (h : exponent? cs = some e) :
    ∀ c ∈ cs, isBlank c = false := by
  cases cs with
  | nil => simp
  | cons c cs =>
    simp only [exponent?] at h
    split_ifs at h with hletter hempty
    all_goals
      have hrest : (spanDigits (splitSign cs).2).2 = [] := by simp_all
      have hbody : ∀ c ∈ (splitSign cs).2, isBlank c = false :=
        not_isBlank_of_spanDigits (by simp [hrest])
      refine List.forall_mem_cons.mpr ⟨?_, not_isBlank_of_splitSign hbody⟩
      rcases hletter with rfl | rfl <;> decide

/-- If no blank is left after the digits of a fraction, then there was none. -/
theorem not_isBlank_of_spanFraction (h : ∀ c ∈ (spanFraction cs).2, isBlank c = false) :
    ∀ c ∈ cs, isBlank c = false := by
  unfold spanFraction at h
  split at h
  · exact List.forall_mem_cons.mpr ⟨by decide, not_isBlank_of_spanDigits h⟩
  · exact h

/-- There is no blank in an unsigned decimal. -/
theorem not_isBlank_of_decimal? {d : Decimal} (h : decimal? cs = some d) :
    ∀ c ∈ cs, isBlank c = false := by
  simp only [decimal?] at h
  split_ifs at h with hempty
  obtain ⟨e, he, -⟩ := Option.map_eq_some_iff.mp h
  exact not_isBlank_of_spanDigits (not_isBlank_of_spanFraction (not_isBlank_of_exponent? he))

/-- The names of numbers are made of letters. -/
theorem not_isBlank_of_named? {x : Float} (h : named? cs = some x) :
    ∀ c ∈ cs, isBlank c = false := by
  have hletters : (cs.map Char.toLower).all (fun c => !isBlank c) = true := by
    simp only [named?] at h
    split_ifs at h with hinfinite hnan
    · rcases hinfinite with hname | hname <;> rw [hname] <;> decide
    · rw [hnan]
      decide
  intro c hc
  have hletter := List.all_eq_true.mp hletters _ (List.mem_map_of_mem hc)
  exact isBlank_of_toLower (by simpa using hletter)

/-- **There are no blanks in a number.** -/
theorem not_isBlank_of_real? {x : Float} (h : real? cs = some x) :
    ∀ c ∈ cs, isBlank c = false := by
  apply not_isBlank_of_splitSign
  unfold real? at h
  dsimp only at h
  split at h
  · next d hd => exact not_isBlank_of_decimal? hd
  · obtain ⟨y, hy, -⟩ := Option.map_eq_some_iff.mp h
    exact not_isBlank_of_named? hy

/-- A text is a finite number with blanks around it. -/
def Denotes (text : String) (x : Float) : Prop :=
  ∃ before body after : List Char, text.toList = before ++ body ++ after ∧
    (∀ c ∈ before, isBlank c = true) ∧ (∀ c ∈ after, isBlank c = true) ∧
    real? body = some x ∧ x.isFinite = true

variable {text : String} {x y : Float}

/-- Which number it is, shows once the blanks are set aside. -/
theorem denotes_iff :
    Denotes text x ↔ real? (trim text.toList) = some x ∧ x.isFinite = true := by
  constructor
  · rintro ⟨before, body, after, htext, hbefore, hafter, hreal, hfinite⟩
    rw [htext, trim_append hbefore hafter, trim_eq_self (not_isBlank_of_real? hreal)]
    exact ⟨hreal, hfinite⟩
  · rintro ⟨hreal, hfinite⟩
    obtain ⟨before, after, htext, hbefore, hafter⟩ := exists_trim text.toList
    exact ⟨before, _, after, htext, hbefore, hafter, hreal, hfinite⟩

/-- A text is one number at most. -/
theorem Denotes.unique (hx : Denotes text x) (hy : Denotes text y) : x = y := by
  have heq := (denotes_iff.mp hx).1.symm.trans (denotes_iff.mp hy).1
  exact Option.some_inj.mp heq

end Numeral

end FlowControl
