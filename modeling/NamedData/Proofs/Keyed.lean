import Mathlib

/-!
# Lists of keyed entries

Looking up a key among entries whose keys are distinct, also after some of the entries are gone.
-/

namespace NamedData

/-- No two entries have the same key. -/
abbrev DistinctKeys {κ α : Type} (entries : List (κ × α)) : Prop :=
  (entries.map (·.1)).Nodup

namespace Keyed

variable {κ α : Type} {entries kept : List (κ × α)} {k : κ} {a : α}

theorem distinctKeys_of_sublist (h : kept.Sublist entries) (hd : DistinctKeys entries) :
    DistinctKeys kept :=
  List.Nodup.sublist (h.map _) hd

variable [DecidableEq κ]

theorem mem_of_lookup (h : entries.lookup k = some a) : (k, a) ∈ entries := by
  obtain ⟨before, after, heq, _⟩ := List.lookup_eq_some_iff.mp h
  rw [heq]
  exact List.mem_append_right before List.mem_cons_self

theorem not_mem_keys_of_lookup (h : entries.lookup k = none) : k ∉ entries.map (·.1) := by
  intro hk
  obtain ⟨e, he, rfl⟩ := List.mem_map.mp hk
  have := List.lookup_eq_none_iff.mp h e he
  simp at this

theorem lookup_of_not_mem_keys (h : k ∉ entries.map (·.1)) : entries.lookup k = none := by
  refine List.lookup_eq_none_iff.mpr fun e he => ?_
  simpa using fun heq : k = e.1 => h (heq ▸ List.mem_map_of_mem he)

theorem lookup_of_mem (hd : DistinctKeys entries) (h : (k, a) ∈ entries) :
    entries.lookup k = some a := by
  induction entries with
  | nil => cases h
  | cons e rest ih =>
      obtain ⟨k', a'⟩ := e
      have hd' : k' ∉ rest.map (·.1) ∧ DistinctKeys rest := List.nodup_cons.mp hd
      rcases List.mem_cons.mp h with heq | hrest
      · cases heq; simp
      · have hne : k ≠ k' := by
          rintro rfl
          exact hd'.1 (List.mem_map.mpr ⟨(k, a), hrest, rfl⟩)
        rw [List.lookup_cons, beq_false_of_ne hne]
        exact ih hd'.2 hrest

theorem lookup_eq_some_iff (hd : DistinctKeys entries) :
    entries.lookup k = some a ↔ (k, a) ∈ entries :=
  ⟨mem_of_lookup, lookup_of_mem hd⟩

/-- What is found among the entries that are kept was found before, and is kept. -/
theorem lookup_filter (hd : DistinctKeys entries) (keep : κ × α → Bool) :
    (entries.filter keep).lookup k = (entries.lookup k).filter fun a => keep (k, a) := by
  apply Option.ext
  intro a
  have hd' : DistinctKeys (entries.filter keep) :=
    distinctKeys_of_sublist List.filter_sublist hd
  rw [lookup_eq_some_iff hd', List.mem_filter, Option.filter_eq_some_iff, lookup_eq_some_iff hd]

end Keyed

end NamedData
