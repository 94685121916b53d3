import FlowControl.Proofs.Json.Values
import FlowControl.Records

/-!
# Records that are written and read

The entries of a record are read one after another, each into the slot of its field. So the compact
text of a record is read as a record with the same values, but for its real numbers, of which each
is near the one that was written.
-/

namespace FlowControl

open Json (Reread)

namespace Json

/-- A record that is read where another one was written. -/
def Row.Reread : (fields : List Field) → Row fields → Row fields → Prop
  | [], (), () => True
  | field :: fields, (x, row), (y, row') => field.kind.Reread x y ∧ Reread fields row row'

/-- An entry of a record without blanks. -/
def entryChars (entry : String × Json) : List Char :=
  Text.quote entry.1.toList ++ ':' :: entry.2.compact

/-- The fields of a record are written one by one. -/
theorem compactFields_eq_map (entries : List (String × Json)) :
    compactFields entries = entries.map entryChars := by
  induction entries with
  | nil => rfl
  | cons entry entries ih => rw [compactFields, ih, List.map_cons, entryChars]

namespace Slots

variable {field : Field} {fields : List Field} {slots slots' filled : Slots fields}
  {entry : String × Json} {entries : List (String × Json)}

/-- Every field has its value. -/
def full : (fields : List Field) → Row fields → Slots fields
  | [], () => ()
  | _ :: fields, (value, row) => (some value, full fields row)

/-- A record of which every slot has its value is read as this row. -/
theorem toRow_full (row : Row fields) : toRow fields (full fields row) = .ok row := by
  induction fields with
  | nil => rfl
  | cons field fields ih =>
    obtain ⟨value, row⟩ := row
    rw [full, toRow, Option.some_or, ih row]
    rfl

/-! ### Entries -/

/-- An entry that is read into a slot, whatever follows it. -/
def Fills (fields : List Field) (slots : Slots fields) (entry : String × Json)
    (filled : Slots fields) : Prop :=
  ∀ rest, IsEnd rest →
    readInto entry.1 fields slots (':' :: (entry.2.compact ++ rest)) = .ok (filled, rest)

/-- Entries that are read into slots, one after another. -/
inductive FillsAll (fields : List Field) : Slots fields → List (String × Json) → Slots fields → Prop
  /-- Nothing is left to read. -/
  | nil (slots : Slots fields) : FillsAll fields slots [] slots
  /-- An entry and the entries after it. -/
  | cons {slots slots' filled : Slots fields} {entry : String × Json}
    {entries : List (String × Json)} (first : Fills fields slots entry slots')
    (others : FillsAll fields slots' entries filled) :
    FillsAll fields slots (entry :: entries) filled

/-- The slot of a field is filled with the value that was written for it. -/
theorem exists_fills (fields : List Field) {value : field.kind.Carrier} (hfinite : field.kind.IsFinite value) :
    ∃ value', field.kind.Reread value value' ∧
      ∀ slots : Slots fields, Fills (field :: fields) (none, slots)
        (field.name, field.kind.toJson value) (some value', slots) := by
  obtain ⟨value', hreread, hread⟩ := field.kind.exists_read hfinite
  refine ⟨value', hreread, fun slots rest hrest => ?_⟩
  have hcolon : readColon (':' :: ((field.kind.toJson value).compact ++ rest)) =
      .ok ((field.kind.toJson value).compact ++ rest) := rfl
  rw [readInto, if_pos rfl]
  dsimp only
  rw [hcolon]
  dsimp only [bind, Except.bind, Except.mapError]
  rw [hread rest hrest]
  rfl

/-- An entry of another field leaves a slot as it is. -/
theorem Fills.frame (h : Fills fields slots entry filled) (hne : entry.1 ≠ field.name)
    (slot : Option field.kind.Carrier) :
    Fills (field :: fields) (slot, slots) entry (slot, filled) := by
  intro rest hrest
  unfold readInto
  rw [if_neg hne, h rest hrest]
  rfl

/-- Entries with other names leave the slot of a field as it is. -/
theorem FillsAll.frame (h : FillsAll fields slots entries filled)
    (hne : ∀ entry ∈ entries, entry.1 ≠ field.name) (slot : Option field.kind.Carrier) :
    FillsAll (field :: fields) (slot, slots) entries (slot, filled) := by
  induction h with
  | nil slots => exact .nil _
  | cons hfirst _ ih =>
    obtain ⟨hentry, hentries⟩ := List.forall_mem_cons.mp hne
    exact .cons (hfirst.frame hentry slot) (ih hentries)

/-- The entries of a row have the names of the fields, in their order. -/
theorem map_fst_rowFields (row : Row fields) :
    (Schema.rowFields fields row).map Prod.fst = fields.map Field.name := by
  induction fields with
  | nil => rfl
  | cons field fields ih =>
    obtain ⟨value, row⟩ := row
    rw [Schema.rowFields, List.map_cons, List.map_cons, ih row]

/-- The entries of a record fill the slots of all fields, if no two fields have one name. -/
theorem exists_fillsAll {row : Row fields} (hfinite : Row.IsFinite fields row)
    (hnames : (fields.map Field.name).Nodup) :
    ∃ row', Row.Reread fields row row' ∧
      FillsAll fields (empty fields) (Schema.rowFields fields row) (full fields row') := by
  induction fields with
  | nil => exact ⟨(), trivial, .nil _⟩
  | cons field fields ih =>
    obtain ⟨value, row⟩ := row
    rw [List.map_cons, List.nodup_cons] at hnames
    obtain ⟨value', hvalue, hfills⟩ := exists_fills fields hfinite.1
    obtain ⟨row', hrow, hothers⟩ := ih hfinite.2 hnames.2
    have hne : ∀ entry ∈ Schema.rowFields fields row, entry.1 ≠ field.name := by
      intro entry hentry heq
      have hmem := List.mem_map_of_mem (f := Prod.fst) hentry
      rw [map_fst_rowFields, heq] at hmem
      exact hnames.1 hmem
    exact ⟨(value', row'), ⟨hvalue, hrow⟩, .cons (hfills _) (hothers.frame hne _)⟩

/-- An entry where the key of one is expected, and the rest of the record. -/
theorem readEntries_of_nextKey {first : Bool} {fuel : ℕ} {cs rest after : List Char}
    (hnext : nextKey first cs = .ok (.entry (entry.1.toList.flatMap Text.escape ++
      '"' :: ':' :: (entry.2.compact ++ after))))
    (hfirst : Fills fields slots entry slots') (hend : IsEnd after)
    (hrest : readEntries fields fuel false slots' after = .ok (filled, rest)) :
    readEntries fields (fuel + 1) first slots cs = .ok (filled, rest) := by
  rw [readEntries, hnext]
  dsimp only [bind, Except.bind, Except.mapError]
  rw [Text.read_flatMap_escape]
  dsimp only
  rw [String.ofList_toList, hfirst after hend]
  exact hrest

/-- Entries that fill slots are read from the start of a record and from after an entry. -/
theorem FillsAll.readEntries_eq (h : FillsAll fields slots entries filled) (fuel : ℕ)
    (hfuel : entries.length < fuel) (rest : List Char) :
    readEntries fields fuel true slots
        (joined [','] (entries.map entryChars) ++ '\x7d' :: rest) = .ok (filled, rest) ∧
      readEntries fields fuel false slots
        (following (entries.map entryChars) ++ '\x7d' :: rest) = .ok (filled, rest) := by
  induction h generalizing fuel with
  | nil slots =>
    obtain ⟨fuel, rfl⟩ := Nat.exists_eq_succ_of_ne_zero (Nat.ne_zero_of_lt hfuel)
    exact ⟨rfl, rfl⟩
  | @cons _ _ _ entry entries hfirst _ ih =>
    obtain ⟨fuel, rfl⟩ := Nat.exists_eq_succ_of_ne_zero (Nat.ne_zero_of_lt hfuel)
    have hend := isEnd_following (entries.map entryChars) (isEnd_cons (c := '\x7d') (by simp) rest)
    have hrest := (ih fuel (Nat.lt_of_succ_lt_succ hfuel)).2
    have hentry : ∀ after, entryChars entry ++ after = '"' :: (entry.1.toList.flatMap Text.escape ++
        '"' :: ':' :: (entry.2.compact ++ after)) := by
      simp [entryChars, Text.quote]
    rw [List.map_cons, joined_cons, following_cons, List.append_assoc, List.cons_append,
      List.append_assoc, hentry]
    exact ⟨readEntries_of_nextKey rfl hfirst hend hrest,
      readEntries_of_nextKey rfl hfirst hend hrest⟩

end Slots

namespace Schema

/-- **A record that is written is read**, if no two of its fields have one name and its numbers are
finite. -/
theorem exists_decode (schema : Schema) (hnames : (schema.fields.map Field.name).Nodup)
    (row : Row schema.fields) (hfinite : Row.IsFinite schema.fields row) :
    ∃ row', Row.Reread schema.fields row row' ∧
      schema.decode (schema.toJson row).toCompact = .ok row' := by
  obtain ⟨row', hreread, hfills⟩ := Slots.exists_fillsAll hfinite hnames
  refine ⟨row', hreread, ?_⟩
  have hlength := length_le_joined ((rowFields schema.fields row).map entryChars)
  rw [List.length_map] at hlength
  have hhead : ∀ cs, Head.read ('\x7b' :: cs) = .ok (.record, cs) := fun _ => rfl
  have hentries := (hfills.readEntries_eq ((joined [',']
    ((rowFields schema.fields row).map entryChars) ++ ['\x7d']).length + 1) (by
      rw [List.length_append, List.length_singleton]
      omega) []).1
  rw [decode, toCompact, String.toList_ofList, toJson, compact, compactFields_eq_map, Schema.read,
    Kind.readHead, hhead]
  dsimp only [bind, Except.bind, Except.mapError]
  rw [hentries]
  dsimp only
  rw [Slots.toRow_full]
  rfl

end Schema

/-- A text that is written is read as the same text. -/
theorem decodeText_toCompact (text : String) :
    decodeText (Json.text text).toCompact = .ok text := by
  have hread : Kind.text.read (Text.quote text.toList ++ []) = .ok (text, []) :=
    Kind.read_of_head (by simp) (Head.read_quote text []) rfl
  rw [List.append_nil] at hread
  rw [decodeText, toCompact, String.toList_ofList, compact, hread]
  rfl

end Json

/-! ### The records of the library -/

/-- A tuning with finite numbers is read as one whose numbers are near them. -/
theorem Tuning.exists_decode (tuning : Tuning) (hhigh : tuning.highRatio.isFinite = true)
    (hlow : tuning.lowRatio.isFinite = true) (hfactor : tuning.factor.isFinite = true) :
    ∃ high low factor, Reread tuning.highRatio high ∧ Reread tuning.lowRatio low ∧
      Reread tuning.factor factor ∧
      Tuning.decode tuning.toJson.toCompact = .ok ⟨high, low, factor⟩ := by
  obtain ⟨⟨high, low, factor, ⟨⟩⟩, ⟨hhigh', hlow', hfactor', -⟩, hdecode⟩ :=
    schema.exists_decode (by decide) tuning.toRow ⟨hhigh, hlow, hfactor, trivial⟩
  exact ⟨high, low, factor, hhigh', hlow', hfactor', by rw [decode, toJson, hdecode]; rfl⟩

/-- Policy settings with finite numbers are read as settings whose numbers are near them, with the
same window. -/
theorem PolicySettings.exists_decode (settings : PolicySettings)
    (hhigh : settings.highRatio.isFinite = true) (hlow : settings.lowRatio.isFinite = true)
    (hfactor : settings.factor.isFinite = true) :
    ∃ high low factor, Reread settings.highRatio high ∧ Reread settings.lowRatio low ∧
      Reread settings.factor factor ∧
      PolicySettings.decode settings.toJson.toCompact =
        .ok ⟨high, low, factor, settings.windowMs⟩ := by
  obtain ⟨⟨high, low, factor, window, ⟨⟩⟩, ⟨hhigh', hlow', hfactor', hwindow, -⟩, hdecode⟩ :=
    schema.exists_decode (by decide) settings.toRow
      ⟨hhigh, hlow, hfactor, trivial, trivial⟩
  obtain rfl : window = settings.windowMs := hwindow
  exact ⟨high, low, factor, hhigh', hlow', hfactor', by rw [decode, toJson, hdecode]; rfl⟩

/-- Load settings with finite numbers are read as settings whose numbers are near them, with the
same depth and duration. -/
theorem LoadSettings.exists_decode (settings : LoadSettings)
    (hoffered : settings.offeredRate.isFinite = true)
    (hcapacities : ∀ capacity ∈ settings.capacities, capacity.isFinite = true) :
    ∃ offered capacities, Reread settings.offeredRate offered ∧
      List.Forall₂ Reread settings.capacities capacities ∧
      LoadSettings.decode settings.toJson.toCompact =
        .ok ⟨offered, capacities, settings.queueDepth, settings.durationSecs⟩ := by
  obtain ⟨⟨offered, capacities, depth, duration, ⟨⟩⟩,
    ⟨hoffered', hcapacities', hdepth, hduration, -⟩, hdecode⟩ :=
    schema.exists_decode (by decide) settings.toRow
      ⟨hoffered, hcapacities, trivial, trivial, trivial⟩
  obtain rfl : depth = settings.queueDepth := hdepth
  obtain rfl : duration = settings.durationSecs := hduration
  exact ⟨offered, capacities, hoffered', hcapacities', by rw [decode, toJson, hdecode]; rfl⟩

/-- A snapshot whose rate is finite, if there is one, is read as the same snapshot but for a rate
near it. -/
theorem Snapshot.exists_decode (snapshot : Snapshot)
    (hrate : ∀ rate ∈ snapshot.rate, rate.isFinite = true) :
    ∃ rate, Option.Rel Reread snapshot.rate rate ∧
      Snapshot.decode snapshot.toJson.toCompact = .ok { snapshot with rate := rate } := by
  obtain ⟨peer, written, overloaded, last, windows, incoming, outgoing, stamp⟩ := snapshot
  obtain ⟨⟨peer', rate, overloaded', last', windows', incoming', outgoing', stamp', ⟨⟩⟩,
    ⟨hpeer, hrate', hoverloaded, hlast, hwindows, hincoming, houtgoing, hstamp, -⟩, hdecode⟩ :=
    schema.exists_decode (by decide)
      (toRow ⟨peer, written, overloaded, last, windows, incoming, outgoing, stamp⟩)
      ⟨trivial, hrate, trivial, trivial, trivial, trivial, trivial, trivial, trivial⟩
  obtain ⟨rfl, rfl, rfl, rfl, rfl, rfl, rfl⟩ :
      peer' = peer ∧ overloaded' = overloaded ∧ last' = last ∧ windows' = windows ∧
        incoming' = incoming ∧ outgoing' = outgoing ∧ stamp' = stamp :=
    ⟨hpeer, hoverloaded, hlast, hwindows, hincoming, houtgoing, hstamp⟩
  exact ⟨rate, hrate', by rw [decode, toJson, hdecode]; rfl⟩

/-- **What the library writes in JSON is read as what was written, but for the last places of its
numbers.** Words, truth values, strings, time stamps and the lengths of lists are the same, and so
is whether there is a rate. Each number is finite, has the same sign and is two places away at most;
how far it may be off is told by the digits that are written. -/
theorem decode_toCompact :
    (∀ tuning : Tuning, tuning.highRatio.isFinite = true → tuning.lowRatio.isFinite = true →
      tuning.factor.isFinite = true →
        ∃ high low factor, Reread tuning.highRatio high ∧ Reread tuning.lowRatio low ∧
          Reread tuning.factor factor ∧
          Tuning.decode tuning.toJson.toCompact = .ok ⟨high, low, factor⟩) ∧
    (∀ settings : PolicySettings, settings.highRatio.isFinite = true →
      settings.lowRatio.isFinite = true → settings.factor.isFinite = true →
        ∃ high low factor, Reread settings.highRatio high ∧ Reread settings.lowRatio low ∧
          Reread settings.factor factor ∧
          PolicySettings.decode settings.toJson.toCompact =
            .ok ⟨high, low, factor, settings.windowMs⟩) ∧
    (∀ settings : LoadSettings, settings.offeredRate.isFinite = true →
      (∀ capacity ∈ settings.capacities, capacity.isFinite = true) →
        ∃ offered capacities, Reread settings.offeredRate offered ∧
          List.Forall₂ Reread settings.capacities capacities ∧
          LoadSettings.decode settings.toJson.toCompact =
            .ok ⟨offered, capacities, settings.queueDepth, settings.durationSecs⟩) ∧
    (∀ snapshot : Snapshot, (∀ rate ∈ snapshot.rate, rate.isFinite = true) →
      ∃ rate, Option.Rel Reread snapshot.rate rate ∧
        Snapshot.decode snapshot.toJson.toCompact = .ok { snapshot with rate := rate }) ∧
    ∀ peer : Peer, Json.decodeText (Json.text peer).toCompact = .ok peer :=
  ⟨Tuning.exists_decode, PolicySettings.exists_decode, LoadSettings.exists_decode,
    Snapshot.exists_decode, Json.decodeText_toCompact⟩

/-- What is used when nothing is chosen, a tuning of it, and a view of a flow with a limit. -/
theorem decode_toCompact_standard :
    (∃ high low factor, Reread 0.9 high ∧ Reread 0.1 low ∧ Reread 5 factor ∧
      Tuning.decode (Tuning.mk 0.9 0.1 5).toJson.toCompact = .ok ⟨high, low, factor⟩) ∧
    (∃ high low factor, Reread 0.9 high ∧ Reread 0.1 low ∧ Reread 5 factor ∧
      PolicySettings.decode PolicySettings.standard.toJson.toCompact =
        .ok ⟨high, low, factor, 2000⟩) ∧
    (∃ offered capacities, Reread 200 offered ∧ List.Forall₂ Reread [50, 150] capacities ∧
      LoadSettings.decode LoadSettings.standard.toJson.toCompact =
        .ok ⟨offered, capacities, 64, 30⟩) ∧
    ∃ rate, Option.Rel Reread (some 7.5) rate ∧
      Snapshot.decode (Snapshot.mk "p" (some 7.5) true 1 2 3 4 .epoch).toJson.toCompact =
        .ok ⟨"p", rate, true, 1, 2, 3, 4, .epoch⟩ := by
  obtain ⟨htuning, hpolicy, hload, hsnapshot, -⟩ := decode_toCompact
  refine ⟨htuning ⟨0.9, 0.1, 5⟩ ?_ ?_ ?_, hpolicy .standard ?_ ?_ ?_, hload .standard ?_ ?_,
    hsnapshot ⟨"p", some 7.5, true, 1, 2, 3, 4, .epoch⟩ ?_⟩
  all_goals decide +kernel

/-- A ratio of sixteen digits is read as the number one place below it. -/
theorem decode_toCompact_ne :
    Tuning.decode (Tuning.mk 0.9227657019509269 0.1 5).toJson.toCompact =
        .ok ⟨0.9227657019509268, 0.1, 5⟩ ∧
      (0.9227657019509268 : Float) ≠ 0.9227657019509269 := by
  obtain ⟨high, low, factor, -, -, -, hdecode⟩ :=
    Tuning.exists_decode ⟨0.9227657019509269, 0.1, 5⟩ (by decide +kernel)
      (by decide +kernel) (by decide +kernel)
  have hvalues : (match Tuning.decode (Tuning.mk 0.9227657019509269 0.1 5).toJson.toCompact with
      | .ok tuning => decide (tuning.highRatio = 0.9227657019509268 ∧ tuning.lowRatio = 0.1 ∧
        tuning.factor = 5)
      | .error _ => false) = true := by decide +kernel
  rw [hdecode] at hvalues
  obtain ⟨rfl, rfl, rfl⟩ := of_decide_eq_true hvalues
  exact ⟨hdecode, by decide +kernel⟩

end FlowControl
