import FlowControl.Proofs.Json.Reals
import FlowControl.Proofs.Json.Strings
import FlowControl.Proofs.Time.ReadBack

/-!
# Values that are written and read

A value of any kind that is written in a record is read from there, whatever follows it. It is the
same value, but for its real numbers, of which each is near the one that was written.
-/

namespace FlowControl.Json

/-! ### Between entries -/

/-- Entries after the first one, each after a comma. -/
def following (entries : List (List Char)) : List Char := entries.flatMap (',' :: ·)

/-- Entries after the first one start with a comma and the next entry. -/
theorem following_cons (first : List Char) (entries : List (List Char)) :
    following (first :: entries) = ',' :: (first ++ following entries) :=
  List.flatMap_cons

/-- Texts with a separator between them are the first one and then, for each of the others, the
separator and the text. -/
theorem joined_cons_eq_flatMap (separator first : List Char) (entries : List (List Char)) :
    joined separator (first :: entries) = first ++ entries.flatMap (separator ++ ·) := by
  induction entries generalizing first with
  | nil => simp [joined]
  | cons second entries ih =>
    rw [joined, ih, List.flatMap_cons]
    · simp
    · simp

/-- Entries with commas between them are the first one and those that follow it. -/
theorem joined_cons (first : List Char) (entries : List (List Char)) :
    joined [','] (first :: entries) = first ++ following entries :=
  joined_cons_eq_flatMap [','] first entries

/-- There are no more entries than characters in what is written of them, so a text bounds how many
there are to read. -/
theorem length_le_following (entries : List (List Char)) :
    entries.length ≤ (following entries).length := by
  induction entries with
  | nil => rfl
  | cons first entries ih =>
    rw [following_cons, List.length_cons, List.length_cons, List.length_append]
    omega

/-- There are not many more entries than characters between the brackets. -/
theorem length_le_joined (entries : List (List Char)) :
    entries.length ≤ (joined [','] entries).length + 1 := by
  cases entries with
  | nil => simp
  | cons first entries =>
    have := length_le_following entries
    rw [joined_cons, List.length_append, List.length_cons]
    omega

/-- A comma ends a value, and so does a bracket that closes. -/
theorem isEnd_cons {c : Char} (hc : c = ',' ∨ c = ']' ∨ c = '\x7d') (rest : List Char) :
    IsEnd (c :: rest) := by
  intro c' hc'
  obtain rfl : c = c' := by simpa using hc'
  exact hc

/-- What follows an entry ends it. -/
theorem isEnd_following (entries : List (List Char)) {rest : List Char} (hrest : IsEnd rest) :
    IsEnd (following entries ++ rest) := by
  cases entries with
  | nil => exact hrest
  | cons first entries =>
    exact isEnd_cons (Or.inl rfl) _

/-- Blanks before a value are skipped once, so it makes no difference if they have been skipped
before. -/
theorem Head.read_skipBlanks (cs : List Char) : Head.read (skipBlanks cs) = Head.read cs :=
  congrArg Head.readTight (List.dropWhile_idempotent _ cs)

/-- A value stands where an entry of a list is expected. -/
theorem nextItem_of_read {cs : List Char} {result : Head × List Char}
    (h : Head.read cs = .ok result) :
    nextItem true cs = .ok (.entry (skipBlanks cs)) ∧
      nextItem false (',' :: cs) = .ok (.entry (skipBlanks cs)) := by
  have hcomma : skipBlanks (',' :: cs) = ',' :: cs := rfl
  rw [Head.read] at h
  rw [nextItem, nextItem, hcomma]
  cases hcs : skipBlanks cs with
  | nil =>
    rw [hcs] at h
    cases h
  | cons c rest =>
    have hclosing : c ≠ ']' := by
      rintro rfl
      rw [hcs] at h
      cases h
    simp [hcs, hclosing]

namespace Kind

variable {rest : List Char}

/-! ### Lists -/

/-- A number where an entry of a list is expected, and the rest of the list. -/
theorem readReals_of_nextItem {first : Bool} {cs tight after : List Char} {y : Float}
    {ys : List Float} {fuel : ℕ} (hnext : nextItem first cs = .ok (.entry tight))
    (hhead : Head.read tight = .ok (.number (.real y), after))
    (hrest : readReals fuel false after = .ok (ys, rest)) :
    readReals (fuel + 1) first cs = .ok (y :: ys, rest) := by
  rw [readReals, hnext]
  dsimp only [bind, Except.bind, Except.mapError]
  rw [readHead, hhead]
  dsimp only [Except.mapError, ofHead, Number.toFloat]
  rw [hrest]
  rfl

/-- A list of numbers is read back, number by number, from its start and from after an entry. -/
theorem exists_readReals {xs : List Float} (hfinite : ∀ x ∈ xs, x.isFinite = true) :
    ∃ ys, List.Forall₂ Reread xs ys ∧ ∀ fuel rest, xs.length < fuel →
      readReals fuel true (joined [','] (xs.map NumberStyle.json.chars) ++ ']' :: rest) =
          .ok (ys, rest) ∧
        readReals fuel false (following (xs.map NumberStyle.json.chars) ++ ']' :: rest) =
          .ok (ys, rest) := by
  induction xs with
  | nil =>
    refine ⟨[], .nil, fun fuel rest hfuel => ?_⟩
    obtain ⟨fuel, rfl⟩ := Nat.exists_eq_succ_of_ne_zero (Nat.ne_zero_of_lt hfuel)
    exact ⟨rfl, rfl⟩
  | cons x xs ih =>
    obtain ⟨hx, hxs⟩ := List.forall_mem_cons.mp hfinite
    obtain ⟨y, hy, hread⟩ := Head.exists_read_chars hx
    obtain ⟨ys, hys, hreads⟩ := ih hxs
    refine ⟨y :: ys, .cons hy hys, fun fuel rest hfuel => ?_⟩
    obtain ⟨fuel, rfl⟩ := Nat.exists_eq_succ_of_ne_zero (Nat.ne_zero_of_lt hfuel)
    rw [List.map_cons, joined_cons, following_cons, List.append_assoc, List.cons_append,
      List.append_assoc]
    have hhead := hread _
      (isEnd_following (xs.map NumberStyle.json.chars) (isEnd_cons (c := ']') (by simp) rest))
    have hrest := (hreads fuel rest (Nat.lt_of_succ_lt_succ hfuel)).2
    obtain ⟨hstart, hnext⟩ := nextItem_of_read hhead
    rw [← Head.read_skipBlanks] at hhead
    exact ⟨readReals_of_nextItem hstart hhead hrest, readReals_of_nextItem hnext hhead hrest⟩

/-! ### Values of any kind -/

/-- A value that is read where another one was written: the same value, but for its real numbers. -/
def Reread : (kind : Kind) → kind.Carrier → kind.Carrier → Prop
  | real, x, y => Json.Reread x y
  | optionalReal, x, y => Option.Rel Json.Reread x y
  | reals, xs, ys => List.Forall₂ Json.Reread xs ys
  | word _, x, y => y = x
  | flag, x, y => y = x
  | text, x, y => y = x
  | stamp, x, y => y = x

/-- The numbers of a list are written one by one in the style of JSON. -/
theorem compactItems_map_real (xs : List Float) :
    compactItems (xs.map .real) = xs.map NumberStyle.json.chars := by
  induction xs with
  | nil => rfl
  | cons x xs ih => rw [List.map_cons, compactItems, ih, compact, List.map_cons]

/-- A value that its start tells is read from there. -/
theorem read_of_head {kind : Kind} {head : Head} {value : kind.Carrier} {cs : List Char}
    (hkind : kind ≠ .reals) (hhead : Head.read cs = .ok (head, rest))
    (hvalue : kind.ofHead head = .ok value) : kind.read cs = .ok (value, rest) := by
  rw [read_of_ne hkind, readHead, hhead]
  dsimp only [bind, Except.bind, Except.mapError]
  rw [hvalue]
  rfl

/-- Nothing is read where it is written, whatever follows. -/
theorem read_null (rest : List Char) : Head.read (nullChars ++ rest) = .ok (.null, rest) := rfl

/-- A flag is read where it is written, whatever follows. -/
theorem read_flagChars (b : Bool) (rest : List Char) :
    Head.read (flagChars b ++ rest) = .ok (.flag b, rest) := by
  cases b <;> rfl

/-- **A value that is written is read**, whatever follows it. -/
theorem exists_read (kind : Kind) {value : kind.Carrier} (hfinite : kind.IsFinite value) :
    ∃ value', kind.Reread value value' ∧ ∀ rest, IsEnd rest →
      kind.read ((kind.toJson value).compact ++ rest) = .ok (value', rest) := by
  cases kind with
  | real =>
    obtain ⟨y, hy, hread⟩ := Head.exists_read_chars hfinite
    exact ⟨y, hy, fun rest hrest => read_of_head (by simp) (hread rest hrest) rfl⟩
  | word type =>
    exact ⟨value, rfl, fun rest hrest =>
      read_of_head (by simp) (Head.read_toDigits value hrest) rfl⟩
  | flag =>
    exact ⟨value, rfl, fun rest _ => read_of_head (by simp) (read_flagChars value rest) rfl⟩
  | text =>
    exact ⟨value, rfl, fun rest _ => read_of_head (by simp) (Head.read_quote value rest) rfl⟩
  | optionalReal =>
    cases value with
    | none => exact ⟨none, .none, fun rest _ => read_of_head (by simp) (read_null rest) rfl⟩
    | some x =>
      obtain ⟨y, hy, hread⟩ := Head.exists_read_chars (hfinite x rfl)
      exact ⟨some y, .some hy, fun rest hrest => read_of_head (by simp) (hread rest hrest) rfl⟩
  | reals =>
    obtain ⟨ys, hys, hreads⟩ := exists_readReals hfinite
    refine ⟨ys, hys, fun rest _ => ?_⟩
    have hlength := length_le_joined (value.map NumberStyle.json.chars)
    rw [List.length_map] at hlength
    have hhead : ∀ cs, Head.read ('[' :: cs) = .ok (.list, cs) := fun _ => rfl
    rw [toJson, compact, compactItems_map_real, List.cons_append, List.append_assoc,
      List.singleton_append, read, readHead, hhead]
    dsimp only [bind, Except.bind, Except.mapError]
    refine (hreads _ rest ?_).1
    rw [List.length_append, List.length_cons]
    omega
  | stamp =>
    refine ⟨value, rfl, fun rest _ => read_of_head (by simp) (Head.read_quote value.render rest) ?_⟩
    rw [ofHead, Timestamp.parse_render]
    rfl

end Kind

end FlowControl.Json
