import FlowControl.Dictionary
import Mathlib.Data.List.Nodup
import Mathlib.Data.List.Perm.Basic

/-!
# Dictionaries by what is found in them

The keys of a dictionary ascend, so there is one dictionary for each way to find values under keys:
two in which the same is found are equal, and two that hold the same keys hold them in the same
order.
-/

namespace FlowControl.Dictionary

variable {α β : Type} {d : Dictionary α}

/-- The keys of a dictionary. -/
def keys (d : Dictionary α) : List String := d.entries.map Prod.fst

/-- No key of a dictionary occurs twice. -/
theorem nodup_keys (d : Dictionary α) : d.keys.Nodup := by
  apply d.ascending.imp
  rintro a _ hlt rfl
  exact String.lt_irrefl a hlt

/-- A dictionary has as many keys as entries. -/
theorem length_keys (d : Dictionary α) : d.keys.length = d.size := List.length_map _

/-- The keys are those under which something is found. -/
theorem mem_keys_iff {key : String} : key ∈ d.keys ↔ d.get? key ≠ none := by
  rw [Option.ne_none_iff_exists', keys, List.mem_map]
  constructor
  · rintro ⟨⟨key, value⟩, hmem, rfl⟩
    exact ⟨value, d.mem_entries_iff.mp hmem⟩
  · rintro ⟨value, hget⟩
    exact ⟨(key, value), d.mem_entries_iff.mpr hget, rfl⟩

/-- A dictionary that holds something under each of some keys has no other ones exactly if they are
as many as its entries. -/
theorem size_eq_length_iff {keys : List String} (hnodup : keys.Nodup)
    (hget : ∀ key ∈ keys, d.get? key ≠ none) :
    d.size = keys.length ↔ ∀ key, d.get? key ≠ none → key ∈ keys := by
  have hsubperm : keys.Subperm d.keys :=
    List.subperm_of_subset hnodup fun key hkey => mem_keys_iff.mpr (hget key hkey)
  rw [← length_keys]
  constructor
  · intro hlength key hkey
    have hperm : keys.Perm d.keys := hsubperm.perm_of_length_le (Nat.le_of_eq hlength)
    exact hperm.mem_iff.mpr (mem_keys_iff.mpr hkey)
  · intro hkeys
    have hsubset : d.keys ⊆ keys := fun key hkey => hkeys key (mem_keys_iff.mp hkey)
    exact Nat.le_antisymm (List.subperm_of_subset d.nodup_keys hsubset).length_le hsubperm.length_le

/-- Dictionaries that hold something under the same keys have equally many entries. -/
theorem size_eq_of_forall {d' : Dictionary β}
    (h : ∀ key, d.get? key = none ↔ d'.get? key = none) : d.size = d'.size := by
  rw [← length_keys, ← length_keys]
  apply List.Perm.length_eq
  rw [List.perm_ext_iff_of_nodup d.nodup_keys d'.nodup_keys]
  intro key
  rw [mem_keys_iff, mem_keys_iff, ne_eq, ne_eq, h]

/-- Dictionaries in which the same is found are equal. -/
theorem ext_get? {d d' : Dictionary α} (h : ∀ key, d.get? key = d'.get? key) : d = d' := by
  have hascending (d : Dictionary α) : d.entries.Pairwise fun a b => a.1 < b.1 :=
    List.pairwise_map.mp d.ascending
  have hnodup (d : Dictionary α) : d.entries.Nodup := List.Nodup.of_map Prod.fst d.nodup_keys
  have hperm : d.entries.Perm d'.entries := by
    rw [List.perm_ext_iff_of_nodup (hnodup d) (hnodup d')]
    rintro ⟨key, value⟩
    rw [mem_entries_iff, mem_entries_iff, h]
  have hentries : d.entries = d'.entries := by
    refine hperm.eq_of_pairwise ?_ (hascending d) (hascending d')
    intro a b _ _ hab hba
    exact absurd (String.lt_trans hab hba) (String.lt_irrefl _)
  obtain ⟨_, _⟩ := d
  obtain ⟨_, _⟩ := d'
  cases hentries
  rfl

end FlowControl.Dictionary
