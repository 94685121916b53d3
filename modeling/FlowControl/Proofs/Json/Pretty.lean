import FlowControl.Proofs.Json.Values

/-!
# What a pretty text tells

The text of a value shows where the value ends, whatever is written after it on the same line or the
next one: a string at its closing quote, a list or record at its closing bracket, and any other
value before the comma or the end of the line. So two values that are written alike are the same,
except that numbers without digits are written as nothing is.
-/

namespace FlowControl.Json

open FlowControl.Numeral (IsDigits isDigits_toDigits real? real?_chars)

/-! ### The value that is written -/

mutual

/-- A value with nothing in the place of each number that has no digits. -/
def canonical : Json → Json
  | .null => .null
  | .flag value => .flag value
  | .word value => .word value
  | .real value => if value.isFinite then .real value else .null
  | .text value => .text value
  | .list items => .list (canonicalItems items)
  | .record fields => .record (canonicalFields fields)

@[inherit_doc canonical]
def canonicalItems : List Json → List Json
  | [] => []
  | item :: items => item.canonical :: canonicalItems items

@[inherit_doc canonical]
def canonicalFields : List (String × Json) → List (String × Json)
  | [] => []
  | (name, value) :: fields => (name, value.canonical) :: canonicalFields fields

end

/-- Two values are the same, but for the numbers that have no digits. -/
def Alike (v w : Json) : Prop := v.canonical = w.canonical

/-- Two named values have one name and are the same, but for the numbers that have no digits. -/
def AlikeField (f g : String × Json) : Prop := f.1 = g.1 ∧ f.2.Alike g.2

variable {v w : Json} {depth : ℕ}

/-- The items of a list are changed one by one. -/
theorem canonicalItems_eq_map (items : List Json) :
    canonicalItems items = items.map canonical := by
  induction items with
  | nil => rfl
  | cons item items ih => rw [canonicalItems, ih, List.map_cons]

/-- The values of a record are changed one by one, and their names stay. -/
theorem canonicalFields_eq_map (fields : List (String × Json)) :
    canonicalFields fields = fields.map (Prod.map id canonical) := by
  induction fields with
  | nil => rfl
  | cons field fields ih => rw [canonicalFields, ih, List.map_cons, Prod.map, id]

/-- Two lists are alike exactly if they have alike items, one by one. -/
theorem alike_list_iff {items items' : List Json} :
    (Json.list items).Alike (.list items') ↔ List.Forall₂ Alike items items' := by
  rw [Alike, canonical, canonical, Json.list.injEq, canonicalItems_eq_map, canonicalItems_eq_map,
    ← List.forall₂_eq_eq_eq, List.forall₂_map_left_iff, List.forall₂_map_right_iff]
  rfl

/-- Two records are alike exactly if they have the same names and alike values, one by one. -/
theorem alike_record_iff {fields fields' : List (String × Json)} :
    (Json.record fields).Alike (.record fields') ↔ List.Forall₂ AlikeField fields fields' := by
  have hfield (f g : String × Json) :
      Prod.map id canonical f = Prod.map id canonical g ↔ AlikeField f g := Prod.ext_iff
  rw [Alike, canonical, canonical, Json.record.injEq, canonicalFields_eq_map,
    canonicalFields_eq_map, ← List.forall₂_eq_eq_eq, List.forall₂_map_left_iff,
    List.forall₂_map_right_iff]
  simp only [hfield]

/-- A number without digits is written as nothing is. -/
theorem chars_of_not_isFinite {x : Float} (hx : x.isFinite = false) :
    NumberStyle.json.chars x = nullChars := by
  have hfinite : (Binary64.unpacked x).isFinite = false := hx
  have hshape : FloatShape.ofFloat x = .ofUnpacked (Binary64.unpacked x) := rfl
  rw [NumberStyle.chars, hshape]
  cases hu : Binary64.unpacked x with
  | notANumber => rfl
  | infinity sign => rfl
  | zero sign => simp [hu, Float.Model.UnpackedFloat.isFinite] at hfinite
  | finite sign m e hm => simp [hu, Float.Model.UnpackedFloat.isFinite] at hfinite

mutual

/-- What stands in the place of a number without digits is written in the same way. -/
theorem pretty_canonical : (v : Json) → (depth : ℕ) → v.canonical.pretty depth = v.pretty depth
  | .null, _ => rfl
  | .flag _, _ => rfl
  | .word _, _ => rfl
  | .real x, _ => by
    rw [canonical]
    split_ifs with hx
    · rfl
    · exact (chars_of_not_isFinite (eq_false_of_ne_true hx)).symm
  | .text _, _ => rfl
  | .list items, depth => by rw [canonical, pretty, pretty, prettyItems_canonicalItems]
  | .record fields, depth => by rw [canonical, pretty, pretty, prettyFields_canonicalFields]

/-- The items of a list are written as before, with nothing in the place of a number without
digits. -/
theorem prettyItems_canonicalItems : (items : List Json) → (depth : ℕ) →
    prettyItems depth (canonicalItems items) = prettyItems depth items
  | [], _ => rfl
  | item :: items, depth => by
    rw [canonicalItems, prettyItems, prettyItems, pretty_canonical item,
      prettyItems_canonicalItems items]

/-- The fields of a record are written as before, with nothing in the place of a number without
digits. -/
theorem prettyFields_canonicalFields : (fields : List (String × Json)) → (depth : ℕ) →
    prettyFields depth (canonicalFields fields) = prettyFields depth fields
  | [], _ => rfl
  | (name, value) :: fields, depth => by
    rw [canonicalFields, prettyFields, prettyFields, pretty_canonical value,
      prettyFields_canonicalFields fields]

end

/-! ### Where values end -/

variable {α : Type} {write : α → List Char} {same : α → α → Prop} {r s : List Char}

/-- What follows a value on its line and the next ones: a comma, the end of the line, or nothing. -/
def IsLineEnd (rest : List Char) : Prop := ∀ c ∈ rest.head?, c = ',' ∨ c = '\n'

/-- A value may be the last thing in a text. -/
theorem IsLineEnd.nil : IsLineEnd [] := fun _ hc => absurd hc (Option.not_mem_none _)

/-- What is written tells what it is written for, and where it ends, whatever follows it. -/
def Delimits (write : α → List Char) (same : α → α → Prop) (a : α) : Prop :=
  ∀ (b : α) (r s : List Char), IsLineEnd r → IsLineEnd s → write a ++ r = write b ++ s →
    same a b ∧ r = s

/-! ### Values without parts -/

/-- Whether a character separates values or starts one that is a string or has parts. -/
def isMark (c : Char) : Bool :=
  c = ',' || c = '\n' || c = '"' || c = '[' || c = '\x7b'

/-- There are no marks in a text. -/
def Unmarked (cs : List Char) : Prop := ∀ c ∈ cs, isMark c = false

/-- There is no mark in the word for nothing. -/
theorem unmarked_nullChars : Unmarked nullChars := by simp [Unmarked, nullChars, isMark]

/-- There is no mark in the words for flags. -/
theorem unmarked_flagChars (b : Bool) : Unmarked (flagChars b) := by
  cases b <;> simp [Unmarked, flagChars, isMark]

/-- Two texts without marks make one without marks. -/
theorem Unmarked.append {cs cs' : List Char} (h : Unmarked cs) (h' : Unmarked cs') :
    Unmarked (cs ++ cs') :=
  List.forall_mem_append.mpr ⟨h, h'⟩

/-- A character that is no mark before a text without marks makes another one. -/
theorem Unmarked.cons {c : Char} {cs : List Char} (hc : isMark c = false) (h : Unmarked cs) :
    Unmarked (c :: cs) :=
  List.forall_mem_cons.mpr ⟨hc, h⟩

/-- There is no mark among digits. -/
theorem unmarked_digits {digits : List Char} (h : IsDigits digits) : Unmarked digits := by
  intro c hc
  have hdigit := h.isDigit c hc
  have hne : ∀ mark : Char, mark.isDigit = false → c ≠ mark := by
    rintro _ hmark rfl
    exact Bool.false_ne_true (hmark.symm.trans hdigit)
  simp [isMark, hne ',' rfl, hne '\n' rfl, hne '"' rfl, hne '[' rfl, hne '\x7b' rfl]

/-- A finite number is written with digits, signs, a point and the letter of the exponent. -/
theorem unmarked_chars {x : Float} (hx : x.isFinite = true) :
    Unmarked (NumberStyle.json.chars x) := by
  obtain ⟨negative, d, p, -, hreads, hchars⟩ := exists_readsFrom hx
  obtain ⟨numeral, -, hwrites⟩ := Numeral.exists_writes negative hreads.coefficient_lt
    hreads.least_le hreads.le_most hreads.zero
  obtain ⟨hwhole, -, hfraction, hexponent⟩ := hwrites.wellFormed
  rw [hchars, ← hwrites.chars_eq]
  refine .append ?_ (.append (unmarked_digits hwhole) (.append ?_ ?_))
  · cases negative
    · exact List.forall_mem_nil _
    · exact List.forall_mem_singleton.mpr rfl
  · cases hdigits : numeral.fraction with
    | none => exact List.forall_mem_nil _
    | some digits => exact .cons rfl (unmarked_digits (hfraction digits hdigits))
  · cases hwritten : numeral.exponent with
    | none => exact List.forall_mem_nil _
    | some written =>
      obtain ⟨negative, digits⟩ := written
      refine .cons rfl (.cons ?_ (unmarked_digits (hexponent _ hwritten)))
      cases negative <;> rfl

/-- Texts without marks end before the first mark. -/
theorem unmarked_append_inj {cs cs' : List Char} (h : Unmarked cs) (h' : Unmarked cs')
    (hr : IsLineEnd r) (hs : IsLineEnd s) (heq : cs ++ r = cs' ++ s) : cs = cs' ∧ r = s := by
  have htake {cs rest : List Char} (h : Unmarked cs) (hrest : IsLineEnd rest) :
      (cs ++ rest).takeWhile (fun c => !isMark c) = cs := by
    have hnone : rest.takeWhile (fun c => !isMark c) = [] := by
      cases rest with
      | nil => rfl
      | cons c rest =>
        refine List.takeWhile_cons_of_neg ?_
        rcases hrest c rfl with rfl | rfl <;> decide
    rw [List.takeWhile_append_of_pos fun c hc => by simp [h c hc], hnone, List.append_nil]
  have hcs : cs = cs' := by rw [← htake h hr, heq, htake h' hs]
  subst hcs
  exact ⟨rfl, List.append_cancel_left heq⟩

/-- The mark with which a value starts, if it is a string or has parts. -/
def opener? : Json → Option Char
  | .text _ => some '"'
  | .list _ => some '['
  | .record _ => some '\x7b'
  | _ => none

/-- The mark with which a text starts. -/
def firstMark? (cs : List Char) : Option Char :=
  cs.head?.filter fun c => c = '"' || c = '[' || c = '\x7b'

/-- A value without parts has no marks in its text. -/
theorem unmarked_pretty (hv : v.opener? = none) (depth : ℕ) : Unmarked (v.pretty depth) := by
  cases v with
  | null => exact unmarked_nullChars
  | flag b => exact unmarked_flagChars b
  | word n => exact unmarked_digits (isDigits_toDigits n.toNat)
  | real x =>
    cases hx : x.isFinite with
    | true => exact unmarked_chars hx
    | false =>
      rw [pretty, chars_of_not_isFinite hx]
      exact unmarked_nullChars
  | text _ => cases hv
  | list _ => cases hv
  | record _ => cases hv

/-- A list or record starts with its opening bracket, whether it has entries or not. -/
theorem bracketed_eq_cons (opening closing : Char) (depth : ℕ) (entries : List (List Char)) :
    ∃ rest, bracketed opening closing depth entries = opening :: rest := by
  unfold bracketed
  split_ifs
  · exact ⟨_, rfl⟩
  · exact ⟨_, rfl⟩

/-- The text of a value starts with its mark, and without one if the value has none. -/
theorem firstMark?_pretty (v : Json) (depth : ℕ) (hr : IsLineEnd r) :
    firstMark? (v.pretty depth ++ r) = v.opener? := by
  cases hv : v.opener? with
  | none =>
    have hmarks := unmarked_pretty hv depth
    cases hchars : v.pretty depth ++ r with
    | nil => rfl
    | cons c rest =>
      have hc : (decide (c = '"') || decide (c = '[') || decide (c = '\x7b')) = false := by
        cases hpretty : v.pretty depth with
        | nil =>
          rw [hpretty, List.nil_append] at hchars
          rcases hr c (by rw [hchars]; rfl) with rfl | rfl <;> decide
        | cons first others =>
          rw [hpretty, List.cons_append, List.cons.injEq] at hchars
          have hmark := hmarks first (by rw [hpretty]; exact List.mem_cons_self)
          rw [hchars.1] at hmark
          simp only [isMark, Bool.or_eq_false_iff] at hmark ⊢
          exact ⟨⟨hmark.1.1.2, hmark.1.2⟩, hmark.2⟩
      rw [firstMark?, List.head?_cons, Option.filter_some, hc]
      rfl
  | some c =>
    cases v with
    | text value => exact hv
    | list items =>
      obtain ⟨rest, hrest⟩ := bracketed_eq_cons '[' ']' depth (prettyItems (depth + 1) items)
      rw [pretty, hrest]
      exact hv
    | record fields =>
      obtain ⟨rest, hrest⟩ :=
        bracketed_eq_cons '\x7b' '\x7d' depth (prettyFields (depth + 1) fields)
      rw [pretty, hrest]
      exact hv
    | _ => cases hv

/-- Values that are written alike start with the same mark. -/
theorem opener?_eq (hr : IsLineEnd r) (hs : IsLineEnd s)
    (heq : v.pretty depth ++ r = w.pretty depth ++ s) : w.opener? = v.opener? := by
  rw [← firstMark?_pretty w depth hs, ← heq, firstMark?_pretty v depth hr]

/-- The value without parts that a text is: the reader tells its kind, and a number with a point or
an exponent is the nearest one. -/
def ofPlain? (cs : List Char) : Option Json :=
  match Head.read cs with
  | .ok (.null, _) => some .null
  | .ok (.flag value, _) => some (.flag value)
  | .ok (.number (.word value), _) => some (.word value)
  | .ok (.number (.real _), _) => (real? cs).map .real
  | _ => none

/-- The text of a value without parts is that of the value with nothing in the place of a number
without digits, and of no other one. -/
theorem ofPlain?_pretty (hv : v.opener? = none) (depth : ℕ) :
    ofPlain? (v.pretty depth) = some v.canonical := by
  cases v with
  | null => rfl
  | flag b => cases b <;> rfl
  | word n =>
    have hread := Head.read_toDigits n .nil
    rw [List.append_nil] at hread
    rw [pretty, ofPlain?, hread]
    rfl
  | real x =>
    rw [pretty, canonical]
    cases hx : x.isFinite with
    | true =>
      obtain ⟨y, -, hread⟩ := Head.exists_read_chars hx
      have hread := hread [] .nil
      rw [List.append_nil] at hread
      rw [ofPlain?, hread]
      dsimp only
      rw [real?_chars Head.bareSuffix_json hx]
      rfl
    | false =>
      rw [chars_of_not_isFinite hx]
      rfl
  | text _ => cases hv
  | list _ => cases hv
  | record _ => cases hv

/-- A value without parts is told by its text, which ends before the first mark. -/
theorem delimits_plain (hv : v.opener? = none) : Delimits (pretty depth) Alike v := by
  intro w r s hr hs heq
  have hw : w.opener? = none := (opener?_eq hr hs heq).trans hv
  obtain ⟨hchars, hrest⟩ :=
    unmarked_append_inj (unmarked_pretty hv depth) (unmarked_pretty hw depth) hr hs heq
  refine ⟨?_, hrest⟩
  rw [Alike, ← Option.some_inj, ← ofPlain?_pretty hv depth, hchars, ofPlain?_pretty hw depth]

/-! ### Strings -/

/-- A string ends at its closing quote. -/
theorem quote_append_inj {cs cs' : List Char} (heq : Text.quote cs ++ r = Text.quote cs' ++ s) :
    cs = cs' ∧ r = s := by
  rw [Text.quote_append, Text.quote_append, List.cons.injEq] at heq
  have hread := Text.read_flatMap_escape cs r
  rw [heq.2, Text.read_flatMap_escape, Except.ok.injEq, Prod.mk.injEq] at hread
  exact ⟨hread.1.symm, hread.2.symm⟩

/-- A string is told by its text, which ends at the closing quote. -/
theorem delimits_text (value : String) : Delimits (pretty depth) Alike (.text value) := by
  intro w r s hr hs heq
  have hw : w.opener? = some '"' := opener?_eq hr hs heq
  cases w with
  | text value' =>
    obtain ⟨hvalue, hrest⟩ := quote_append_inj heq
    rw [String.toList_inj.mp hvalue]
    exact ⟨rfl, hrest⟩
  | _ => simp [opener?] at hw

/-! ### Lists and records -/

/-- Entries after the first one, each after a comma and on a line of its own, and the bracket that
closes. -/
def closed (closing : Char) (depth : ℕ) (entries : List (List Char)) : List Char :=
  entries.flatMap (fun entry => ',' :: newLine (depth + 1) ++ entry) ++ (newLine depth ++ [closing])

/-- Entries after the first one start with a comma, and the next entry is on a line of its own. -/
theorem closed_cons (closing : Char) (depth : ℕ) (first : List Char) (entries : List (List Char)) :
    closed closing depth (first :: entries) =
      ',' :: (newLine (depth + 1) ++ (first ++ closed closing depth entries)) := by
  simp [closed]

/-- With entries, a list or record is its opening bracket, the first entry on a line of its own, and
what closes it. -/
theorem bracketed_cons (opening closing : Char) (depth : ℕ) (first : List Char)
    (entries : List (List Char)) :
    bracketed opening closing depth (first :: entries) =
      opening :: (newLine (depth + 1) ++ (first ++ closed closing depth entries)) := by
  rw [bracketed, List.isEmpty_cons, if_neg Bool.false_ne_true, joined_cons_eq_flatMap]
  simp [closed]

/-- What closes a list or record starts with a comma or a new line, and so ends the entry before
it. -/
theorem isLineEnd_closed (closing : Char) (depth : ℕ) (entries : List (List Char))
    (rest : List Char) : IsLineEnd (closed closing depth entries ++ rest) := by
  intro c hc
  cases entries with
  | nil => exact Or.inr (Option.some_inj.mp hc).symm
  | cons first entries =>
    rw [closed_cons] at hc
    exact Or.inl (Option.some_inj.mp hc).symm

/-- An entry that tells where it ends comes before others that do. -/
theorem entry_append_inj {closing c : Char} {entry entry' : α} {entries entries' : List α}
    (hentry : Delimits write same entry)
    (hentries : ∀ r s, closed closing depth (entries.map write) ++ r =
      closed closing depth (entries'.map write) ++ s → List.Forall₂ same entries entries' ∧ r = s)
    (heq : c :: (newLine (depth + 1) ++ (write entry ++ closed closing depth (entries.map write)))
        ++ r =
      c :: (newLine (depth + 1) ++ (write entry' ++ closed closing depth (entries'.map write)))
        ++ s) :
    List.Forall₂ same (entry :: entries) (entry' :: entries') ∧ r = s := by
  rw [List.cons_append, List.cons_append, List.cons.injEq, List.append_assoc, List.append_assoc,
    List.append_assoc, List.append_assoc] at heq
  obtain ⟨hfirst, hothers⟩ := hentry entry' _ _ (isLineEnd_closed _ _ _ _)
    (isLineEnd_closed _ _ _ _) (List.append_cancel_left heq.2)
  obtain ⟨hall, hrest⟩ := hentries r s hothers
  exact ⟨.cons hfirst hall, hrest⟩

/-- Entries that tell where they end tell where the list of them ends, by induction on the first
list. -/
theorem closed_append_inj {closing : Char} {entries entries' : List α}
    (h : ∀ entry ∈ entries, Delimits write same entry)
    (heq : closed closing depth (entries.map write) ++ r =
      closed closing depth (entries'.map write) ++ s) :
    List.Forall₂ same entries entries' ∧ r = s := by
  induction entries generalizing entries' r s with
  | nil =>
    cases entries' with
    | nil => exact ⟨.nil, List.append_cancel_left heq⟩
    | cons _ _ =>
      rw [List.map_cons, closed_cons] at heq
      cases (List.cons.inj heq).1
  | cons entry entries ih =>
    obtain ⟨hentry, hentries⟩ := List.forall_mem_cons.mp h
    cases entries' with
    | nil =>
      rw [List.map_cons, closed_cons] at heq
      cases (List.cons.inj heq).1
    | cons entry' entries' =>
      rw [List.map_cons, List.map_cons, closed_cons, closed_cons] at heq
      exact entry_append_inj hentry (fun _ _ => ih hentries) heq

/-- Brackets tell the entries between them, and whether there are any. -/
theorem bracketed_append_inj {opening closing : Char} (hclosing : closing ≠ '\n')
    {entries entries' : List α} (h : ∀ entry ∈ entries, Delimits write same entry)
    (heq : bracketed opening closing depth (entries.map write) ++ r =
      bracketed opening closing depth (entries'.map write) ++ s) :
    List.Forall₂ same entries entries' ∧ r = s := by
  have hempty : bracketed opening closing depth [] = [opening, closing] := rfl
  cases entries with
  | nil =>
    cases entries' with
    | nil => exact ⟨.nil, List.append_cancel_left heq⟩
    | cons _ _ =>
      rw [List.map_nil, List.map_cons, hempty, bracketed_cons] at heq
      exact absurd (List.cons.inj (List.cons.inj heq).2).1 hclosing
  | cons entry entries =>
    cases entries' with
    | nil =>
      rw [List.map_nil, List.map_cons, hempty, bracketed_cons] at heq
      exact absurd (List.cons.inj (List.cons.inj heq).2).1.symm hclosing
    | cons entry' entries' =>
      obtain ⟨hentry, hentries⟩ := List.forall_mem_cons.mp h
      rw [List.map_cons, List.map_cons, bracketed_cons, bracketed_cons] at heq
      exact entry_append_inj hentry (fun _ _ => closed_append_inj hentries) heq

/-- The items of a list are written one by one. -/
theorem prettyItems_eq_map (depth : ℕ) (items : List Json) :
    prettyItems depth items = items.map (pretty depth) := by
  induction items with
  | nil => rfl
  | cons item items ih => rw [prettyItems, ih, List.map_cons]

/-- A named value on a line. -/
def fieldChars (depth : ℕ) (field : String × Json) : List Char :=
  Text.quote field.1.toList ++ ':' :: ' ' :: field.2.pretty depth

/-- The fields of a record are written one by one. -/
theorem prettyFields_eq_map (depth : ℕ) (fields : List (String × Json)) :
    prettyFields depth fields = fields.map (fieldChars depth) := by
  induction fields with
  | nil => rfl
  | cons field fields ih => rw [prettyFields, ih, List.map_cons, fieldChars]

/-- A named value is told by its text if the value is: the name ends at its closing quote. -/
theorem delimits_field {field : String × Json} (h : Delimits (pretty depth) Alike field.2) :
    Delimits (fieldChars depth) AlikeField field := by
  intro field' r s hr hs heq
  rw [fieldChars, fieldChars, List.append_assoc, List.append_assoc] at heq
  obtain ⟨hname, hvalue⟩ := quote_append_inj heq
  obtain ⟨halike, hrest⟩ :=
    h field'.2 r s hr hs (List.cons.inj (List.cons.inj hvalue).2).2
  exact ⟨⟨String.toList_inj.mp hname, halike⟩, hrest⟩

/-- A list is told by its text if its items are. -/
theorem delimits_list {items : List Json}
    (h : ∀ item ∈ items, Delimits (pretty (depth + 1)) Alike item) :
    Delimits (pretty depth) Alike (.list items) := by
  intro w r s hr hs heq
  have hw : w.opener? = some '[' := opener?_eq hr hs heq
  cases w with
  | list items' =>
    rw [pretty, pretty, prettyItems_eq_map, prettyItems_eq_map] at heq
    obtain ⟨hall, hrest⟩ := bracketed_append_inj (by decide) h heq
    exact ⟨alike_list_iff.mpr hall, hrest⟩
  | _ => simp [opener?] at hw

/-- A record is told by its text if its values are. -/
theorem delimits_record {fields : List (String × Json)}
    (h : ∀ field ∈ fields, Delimits (pretty (depth + 1)) Alike field.2) :
    Delimits (pretty depth) Alike (.record fields) := by
  intro w r s hr hs heq
  have hw : w.opener? = some '\x7b' := opener?_eq hr hs heq
  cases w with
  | record fields' =>
    rw [pretty, pretty, prettyFields_eq_map, prettyFields_eq_map] at heq
    obtain ⟨hall, hrest⟩ := bracketed_append_inj (by decide)
      (fun field hfield => delimits_field (h field hfield)) heq
    exact ⟨alike_record_iff.mpr hall, hrest⟩
  | _ => simp [opener?] at hw

/-! ### Values of any form -/

mutual

/-- **The text of a value tells the value and where it ends**, by induction on its parts. -/
theorem delimits_pretty : (v : Json) → (depth : ℕ) → Delimits (pretty depth) Alike v
  | .null, _ => delimits_plain rfl
  | .flag _, _ => delimits_plain rfl
  | .word _, _ => delimits_plain rfl
  | .real _, _ => delimits_plain rfl
  | .text value, _ => delimits_text value
  | .list items, depth => delimits_list (delimits_items items (depth + 1))
  | .record fields, depth => delimits_record (delimits_fields fields (depth + 1))

/-- The text of an item of a list tells the item and where it ends, by induction on the items. -/
theorem delimits_items : (items : List Json) → (depth : ℕ) →
    ∀ item ∈ items, Delimits (pretty depth) Alike item
  | [], _ => List.forall_mem_nil _
  | item :: items, depth =>
    List.forall_mem_cons.mpr ⟨delimits_pretty item depth, delimits_items items depth⟩

/-- The text of a value of a record tells the value and where it ends, by induction on the
fields. -/
theorem delimits_fields : (fields : List (String × Json)) → (depth : ℕ) →
    ∀ field ∈ fields, Delimits (pretty depth) Alike field.2
  | [], _ => List.forall_mem_nil _
  | (_, value) :: fields, depth =>
    List.forall_mem_cons.mpr ⟨delimits_pretty value depth, delimits_fields fields depth⟩

end

/-- **Values that are alike are written alike, and no others.** -/
theorem toPretty_eq_iff : v.toPretty = w.toPretty ↔ v.Alike w := by
  constructor
  · intro heq
    have hchars : v.pretty 0 ++ [] = w.pretty 0 ++ [] := by
      rw [List.append_nil, List.append_nil]
      exact String.ofList_injective heq
    exact (delimits_pretty v 0 w [] [] .nil .nil hchars).1
  · intro halike
    rw [toPretty, toPretty, ← pretty_canonical v, halike, pretty_canonical w]

end FlowControl.Json
