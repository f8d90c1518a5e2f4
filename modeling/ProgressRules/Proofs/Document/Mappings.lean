import Mathlib.Data.List.Nodup
import ProgressRules.Document.Data

/-! Mappings of a document. An entry that is set again keeps its place and gets the later value, so
a mapping that is made by setting entries has distinct keys. -/

namespace ProgressRules

namespace Data

/-- The keys of each mapping are different, also inside lists and other mappings. -/
inductive HasDistinctKeys : Data → Prop
  | null : HasDistinctKeys .null
  | bool (value : Bool) : HasDistinctKeys (.bool value)
  | integer (value : Int) : HasDistinctKeys (.integer value)
  | real (value : Binary64) : HasDistinctKeys (.real value)
  | text (text : Text) : HasDistinctKeys (.text text)
  | date (text item : Text) : HasDistinctKeys (.date text item)
  | list {items : List Data} : (∀ item ∈ items, HasDistinctKeys item) →
      HasDistinctKeys (.list items)
  | mapping {entries : List (Key × Data)} : (entries.map Prod.fst).Nodup →
      (∀ e ∈ entries, HasDistinctKeys e.2) → HasDistinctKeys (.mapping entries)

theorem HasDistinctKeys.nodup {entries : List (Key × Data)}
    (h : (Data.mapping entries).HasDistinctKeys) : (entries.map Prod.fst).Nodup := by
  cases h with
  | mapping once _ => exact once

theorem HasDistinctKeys.of_mem {entries : List (Key × Data)}
    (h : (Data.mapping entries).HasDistinctKeys) : ∀ e ∈ entries, e.2.HasDistinctKeys := by
  cases h with
  | mapping _ each => exact each

theorem mem_of_mem_setEntry {entries : List (Key × Data)} {key : Key} {value : Data}
    {e : Key × Data} (inside : e ∈ setEntry entries key value) :
    e ∈ entries ∨ e = (key, value) := by
  induction entries with
  | nil => exact .inr (List.mem_singleton.1 inside)
  | cons first entries ih =>
    rw [setEntry] at inside
    split at inside
    · rename_i same
      rcases List.mem_cons.1 inside with rfl | inside
      · exact .inr (by rw [same])
      · exact .inl (List.mem_cons_of_mem _ inside)
    · rcases List.mem_cons.1 inside with rfl | inside
      · exact .inl List.mem_cons_self
      · rcases ih inside with earlier | new
        · exact .inl (List.mem_cons_of_mem _ earlier)
        · exact .inr new

theorem nodup_setEntry {entries : List (Key × Data)} (once : (entries.map Prod.fst).Nodup)
    (key : Key) (value : Data) : ((setEntry entries key value).map Prod.fst).Nodup := by
  induction entries with
  | nil => exact List.nodup_singleton key
  | cons first entries ih =>
    obtain ⟨new, others⟩ := List.nodup_cons.1 once
    rw [setEntry]
    split
    · exact once
    · rename_i other
      apply List.nodup_cons.2
      refine ⟨?_, ih others⟩
      intro inside
      obtain ⟨e, member, same⟩ := List.mem_map.1 inside
      rcases mem_of_mem_setEntry member with earlier | rfl
      · exact new (same ▸ List.mem_map_of_mem earlier)
      · exact other same.symm

theorem mem_of_mem_setEntries {entries more : List (Key × Data)} {e : Key × Data}
    (inside : e ∈ setEntries entries more) : e ∈ entries ∨ e ∈ more := by
  induction more generalizing entries with
  | nil => exact .inl inside
  | cons first more ih =>
    rcases ih inside with earlier | later
    · rcases mem_of_mem_setEntry earlier with earlier | rfl
      · exact .inl earlier
      · exact .inr List.mem_cons_self
    · exact .inr (List.mem_cons_of_mem _ later)

theorem nodup_setEntries {entries : List (Key × Data)} (once : (entries.map Prod.fst).Nodup)
    (more : List (Key × Data)) : ((setEntries entries more).map Prod.fst).Nodup := by
  induction more generalizing entries with
  | nil => exact once
  | cons first more ih => exact ih (nodup_setEntry once first.1 first.2)

theorem hasDistinctKeys_ofEntries {entries : List (Key × Data)}
    (each : ∀ e ∈ entries, e.2.HasDistinctKeys) : (ofEntries entries).HasDistinctKeys := by
  apply HasDistinctKeys.mapping (@nodup_setEntries [] List.nodup_nil entries)
  intro e inside
  exact each e ((mem_of_mem_setEntries inside).resolve_left List.not_mem_nil)

theorem setEntry_of_not_mem {entries : List (Key × Data)} {key : Key}
    (new : key ∉ entries.map Prod.fst) (value : Data) :
    setEntry entries key value = entries ++ [(key, value)] := by
  induction entries with
  | nil => rfl
  | cons e entries ih =>
    rw [List.map_cons, List.mem_cons, not_or] at new
    rw [setEntry, if_neg (Ne.symm new.1), ih new.2, List.cons_append]

theorem setEntries_of_nodup {entries more : List (Key × Data)}
    (once : ((entries ++ more).map Prod.fst).Nodup) :
    setEntries entries more = entries ++ more := by
  induction more generalizing entries with
  | nil => exact (List.append_nil entries).symm
  | cons e more ih =>
    have new : e.1 ∉ entries.map Prod.fst := by
      rw [List.map_append, List.nodup_append] at once
      intro inside
      exact once.2.2 e.1 inside e.1 (by simp) rfl
    rw [setEntries, List.foldl_cons, ← setEntries, setEntry_of_not_mem new,
      ih (by simpa using once), List.append_assoc]
    rfl

theorem ofEntries_of_nodup {entries : List (Key × Data)} (once : (entries.map Prod.fst).Nodup) :
    ofEntries entries = .mapping entries :=
  congrArg Data.mapping (setEntries_of_nodup once)

/-! ### Entries of a key -/

theorem mem_of_entry?_eq_some {entries : List (Key × Data)} {name : Text} {value : Data}
    (found : entry? entries name = some value) : (.text name, value) ∈ entries := by
  obtain ⟨earlier, later, rfl, -⟩ := List.lookup_eq_some_iff.1 found
  exact List.mem_append_right earlier List.mem_cons_self

theorem not_mem_of_entry?_eq_none {entries : List (Key × Data)} {name : Text}
    (none : entry? entries name = none) (value : Data) : (.text name, value) ∉ entries := by
  intro inside
  have other := List.lookup_eq_none_iff.1 none _ inside
  simp at other

theorem entry?_of_mem {entries : List (Key × Data)} (once : (entries.map Prod.fst).Nodup)
    {name : Text} {value : Data} (inside : (.text name, value) ∈ entries) :
    entry? entries name = some value := by
  cases found : entry? entries name with
  | none => exact absurd inside (not_mem_of_entry?_eq_none found value)
  | some other =>
    have same := List.inj_on_of_nodup_map once (mem_of_entry?_eq_some found) inside rfl
    rw [(Prod.mk.inj same).2]

theorem entry_cons (key : Key) (value : Data) (entries : List (Key × Data)) (name : Text) :
    entry? ((key, value) :: entries) name =
      if key = .text name then some value else entry? entries name := by
  unfold entry?
  rw [List.lookup_cons]
  by_cases same : key = .text name
  · rw [same, beq_self_eq_true, if_pos rfl]
  · rw [if_neg same, beq_eq_false_iff_ne.2 (Ne.symm same)]

theorem entry_setEntry (entries : List (Key × Data)) (key : Key) (value : Data) (name : Text) :
    entry? (setEntry entries key value) name =
      if key = .text name then some value else entry? entries name := by
  induction entries with
  | nil => exact entry_cons key value [] name
  | cons first entries ih =>
    rw [setEntry]
    split
    · rename_i same
      rw [entry_cons, entry_cons, same]
      split <;> rfl
    · rename_i other
      rw [entry_cons, entry_cons, ih]
      split
      · rename_i found
        rw [if_neg (found ▸ Ne.symm other)]
      · rfl

theorem entry_setEntries {more : List (Key × Data)} (once : (more.map Prod.fst).Nodup)
    (entries : List (Key × Data)) (name : Text) :
    entry? (setEntries entries more) name =
      (Data.entry? more name).or (Data.entry? entries name) := by
  induction more generalizing entries with
  | nil => rfl
  | cons first more ih =>
    obtain ⟨new, others⟩ := List.nodup_cons.1 once
    have rest := ih others (setEntry entries first.1 first.2)
    rw [setEntries, List.foldl_cons, ← setEntries, rest, entry_setEntry, entry_cons]
    split
    · rename_i same
      have absent : entry? more name = none := by
        cases found : entry? more name with
        | none => rfl
        | some value =>
          exact absurd (same ▸ List.mem_map_of_mem (mem_of_entry?_eq_some found)) new
      rw [absent]
      rfl
    · rfl

end Data

end ProgressRules
