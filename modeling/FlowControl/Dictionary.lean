/-!
# Dictionaries

A dictionary holds one value for each of its keys. Its entries stand in ascending order of
the keys, which are compared by code points, so two dictionaries with the same contents are
equal and listing one is already sorted.
-/

namespace FlowControl

/-- Entries in ascending order of their keys, each key once. -/
structure Dictionary (α : Type) where
  entries : List (String × α)
  ascending : (entries.map Prod.fst).Pairwise (· < ·)

namespace Dictionary

variable {α : Type}

/-- Entries with a value put under a key: at the key's place, or instead of the value there. -/
def putEntry (key : String) (value : α) : List (String × α) → List (String × α)
  | [] => [(key, value)]
  | entry :: rest =>
    if key < entry.1 then (key, value) :: entry :: rest
    else if key = entry.1 then (key, value) :: rest
    else entry :: putEntry key value rest

/-- The keys after a put are the key put and the keys before. -/
theorem mem_keys_putEntry {key k : String} {value : α} {entries : List (String × α)} :
    k ∈ (putEntry key value entries).map Prod.fst ↔ k = key ∨ k ∈ entries.map Prod.fst := by
  induction entries with
  | nil => simp [putEntry]
  | cons entry rest ih =>
    unfold putEntry
    split
    · simp
    · split
      · next h => simp [h]
      · rw [List.map_cons, List.mem_cons, ih, List.map_cons, List.mem_cons]
        constructor
        · rintro (h | h | h) <;> simp [h]
        · rintro (h | h | h) <;> simp [h]

/-- Of two different keys one is below the other. -/
theorem key_lt_of_not_lt {a b : String} (h : ¬ a < b) (hne : a ≠ b) : b < a :=
  Decidable.byContradiction fun h' => hne (String.le_antisymm h' h)

/-- Putting an entry keeps the keys ascending. -/
theorem ascending_putEntry {key : String} {value : α} {entries : List (String × α)}
    (h : (entries.map Prod.fst).Pairwise (· < ·)) :
    ((putEntry key value entries).map Prod.fst).Pairwise (· < ·) := by
  induction entries with
  | nil => simp [putEntry]
  | cons entry rest ih =>
    rw [List.map_cons, List.pairwise_cons] at h
    unfold putEntry
    split
    · next hlt =>
      simp only [List.map_cons, List.pairwise_cons, List.mem_cons]
      refine ⟨?_, h⟩
      rintro k (rfl | hk)
      · exact hlt
      · exact String.lt_trans hlt (h.1 k hk)
    · next hlt =>
      split
      · next heq =>
        subst heq
        simpa only [List.map_cons, List.pairwise_cons] using h
      · next hne =>
        rw [List.map_cons, List.pairwise_cons]
        refine ⟨fun k hk => ?_, ih h.2⟩
        rcases mem_keys_putEntry.mp hk with rfl | hk
        · exact key_lt_of_not_lt hlt hne
        · exact h.1 k hk

/-- The dictionary without entries. -/
def empty : Dictionary α := ⟨[], List.Pairwise.nil⟩

/-- The dictionary with a value put under a key. -/
def insert (d : Dictionary α) (key : String) (value : α) : Dictionary α :=
  ⟨putEntry key value d.entries, ascending_putEntry d.ascending⟩

/-- The value under a key, if there is one. -/
def get? (d : Dictionary α) (key : String) : Option α :=
  (d.entries.find? fun entry => entry.1 = key).map Prod.snd

/-- The number of entries. -/
def size (d : Dictionary α) : Nat := d.entries.length

/-- The dictionary of a list of entries, where a later one replaces an earlier one of the
same key. -/
def ofList (entries : List (String × α)) : Dictionary α :=
  entries.foldl (fun d entry => d.insert entry.1 entry.2) empty

/-- What is found after a put: under the key put its value, under another key what was there. -/
theorem find?_putEntry {key k : String} {value : α} {entries : List (String × α)} :
    ((putEntry key value entries).find? fun entry => entry.1 = k).map Prod.snd =
      if k = key then some value else (entries.find? fun entry => entry.1 = k).map Prod.snd := by
  induction entries with
  | nil =>
    by_cases h : k = key
    · simp [putEntry, h]
    · simp [putEntry, h, Ne.symm h]
  | cons entry rest ih =>
    unfold putEntry
    split
    · by_cases h : k = key
      · simp [h]
      · simp [h, Ne.symm h]
    · split
      · next heq =>
        by_cases h : k = key
        · simp [h]
        · simp [h, Ne.symm h, ← heq]
      · next hne =>
        by_cases hentry : entry.1 = k
        · simp [hentry, show k ≠ key from hentry ▸ Ne.symm hne]
        · simpa [hentry] using ih

/-- A value put under a key is found there, and nothing else changes. -/
theorem get?_insert (d : Dictionary α) (key k : String) (value : α) :
    (d.insert key value).get? k = if k = key then some value else d.get? k :=
  find?_putEntry

/-- The entries are what is found under the keys. -/
theorem mem_entries_iff (d : Dictionary α) {key : String} {value : α} :
    (key, value) ∈ d.entries ↔ d.get? key = some value := by
  obtain ⟨entries, hascending⟩ := d
  unfold get?
  induction entries with
  | nil => simp
  | cons entry rest ih =>
    rw [List.map_cons, List.pairwise_cons] at hascending
    by_cases h : entry.1 = key
    · have hrest : (key, value) ∉ rest := by
        intro hmem
        have hlt := hascending.1 key (List.mem_map.mpr ⟨_, hmem, rfl⟩)
        exact String.lt_irrefl _ (h ▸ hlt)
      obtain ⟨first, last⟩ := entry
      obtain rfl : first = key := h
      simp only [List.mem_cons, hrest, or_false, Prod.mk.injEq, true_and, List.find?_cons,
        decide_true, Option.map_some, Option.some_inj]
      exact eq_comm
    · have hne : (key, value) ≠ entry := by
        rintro rfl
        exact h rfl
      simpa [h, hne] using ih hascending.2

end Dictionary

end FlowControl
