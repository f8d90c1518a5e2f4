import Mathlib.Data.List.Induction
import ProgressRules.Normalization
import ProgressRules.Proofs.Diagnostics.Scanning

/-! Catalogs made of lists of variables. A catalog keeps the first variable of each path and logs
one warning for each of the others. It has the roots of all of them, so marking does not depend
on whether it is given the catalog or the list. -/

namespace ProgressRules

/-! ### Choices in the light of earlier items -/

section

variable {α β : Type} [BEq β]

/-- The items that are chosen for what comes before them, in order. -/
def chosen (choose : (earlier : List α) → α → Bool) (items : List α) : List α :=
  (items.zipIdx.filter fun e => choose (items.take e.2) e.1).map Prod.fst

def isRepeated (key : α → β) (earlier : List α) (item : α) : Bool :=
  (earlier.map key).contains (key item)

def firsts (key : α → β) (items : List α) : List α :=
  chosen (fun earlier item => !isRepeated key earlier item) items

def repeats (key : α → β) (items : List α) : List α := chosen (isRepeated key) items

theorem chosen_concat (choose : List α → α → Bool) (items : List α) (item : α) :
    chosen choose (items ++ [item]) =
      chosen choose items ++ if choose items item then [item] else [] := by
  have earlier : items.zipIdx.filter (fun e => choose ((items ++ [item]).take e.2) e.1) =
      items.zipIdx.filter fun e => choose (items.take e.2) e.1 := by
    apply List.filter_congr
    intro e inside
    have place : e.2 ≤ items.length := Nat.le_of_lt (List.snd_lt_of_mem_zipIdx inside)
    rw [List.take_append_of_le_length place]
  have last : (items ++ [item]).take items.length = items := List.take_left
  simp only [chosen, List.zipIdx_append, List.zipIdx_singleton, List.filter_append,
    List.map_append, earlier, Nat.zero_add, List.filter_singleton, last]
  cases choose items item <;> rfl

theorem length_chosen_add (choose : List α → α → Bool) (items : List α) :
    (chosen (fun earlier item => !choose earlier item) items).length +
      (chosen choose items).length = items.length := by
  induction items using List.reverseRecOn with
  | nil => rfl
  | append_singleton items item ih =>
    simp only [chosen_concat, List.length_append, List.length_singleton]
    cases choose items item <;> simp <;> omega

end

namespace Catalog

/-! ### One variable more -/

theorem toList_insertIfNew (catalog : Catalog) (v : Variable) :
    (catalog.insertIfNew v).toList =
      catalog.toList ++ if v.path ∈ catalog.paths then [] else [v] := by
  unfold insertIfNew
  by_cases taken : v.path ∈ catalog.toList.map Variable.path
  · have inside : v.path ∈ catalog.paths := taken
    rw [dif_pos taken, if_pos inside, List.append_nil]
  · have outside : v.path ∉ catalog.paths := taken
    rw [dif_neg taken, if_neg outside]

theorem rootsOf_concat (vars : List Variable) (v : Variable) :
    rootsOf (vars ++ [v]) = rootsOf vars ++ if v.root ∈ rootsOf vars then [] else [v.root] := by
  simp [rootsOf, eraseDups_concat, List.mem_eraseDups]

/-- A path that is taken has its root among the roots, so only its variable is left out. -/
theorem roots_insertIfNew (catalog : Catalog) (v : Variable) :
    (catalog.insertIfNew v).roots =
      catalog.roots ++ if v.root ∈ catalog.roots then [] else [v.root] := by
  by_cases taken : v.path ∈ catalog.paths
  · have known : v.root ∈ catalog.roots := by
      obtain ⟨w, inside, same⟩ := List.mem_map.1 taken
      apply List.mem_eraseDups.2
      apply List.mem_map.2
      exact ⟨w, inside, congrArg Variable.rootOf same⟩
    rw [if_pos known, roots, toList_insertIfNew, if_pos taken, List.append_nil, List.append_nil,
      roots]
  · rw [roots, toList_insertIfNew, if_neg taken, rootsOf_concat]
    rfl

theorem duplicates_concat (seen : List Text) (vars : List Variable) (v : Variable) :
    duplicates seen (vars ++ [v]) = duplicates seen vars ++
      if v.path ∈ seen ∨ v.path ∈ vars.map Variable.path then [v] else [] := by
  induction vars generalizing seen with
  | nil => simp [duplicates]
  | cons w vars ih =>
    by_cases taken : w.path ∈ seen
    · have same : v.path ∈ seen ∨ v.path ∈ (w :: vars).map Variable.path ↔
          v.path ∈ seen ∨ v.path ∈ vars.map Variable.path := by
        grind
      simp only [List.cons_append, duplicates, if_pos taken, ih, same]
    · have same : v.path ∈ seen ∨ v.path ∈ (w :: vars).map Variable.path ↔
          v.path ∈ w.path :: seen ∨ v.path ∈ vars.map Variable.path := by
        grind
      simp only [List.cons_append, duplicates, if_neg taken, ih, same]

/-! ### A whole list -/

theorem ofList_concat (vars : List Variable) (v : Variable) :
    ofList (vars ++ [v]) = (ofList vars).insertIfNew v :=
  List.foldl_concat ..

theorem mem_paths_ofList {vars : List Variable} {path : Text} :
    path ∈ (ofList vars).paths ↔ path ∈ vars.map Variable.path := by
  induction vars using List.reverseRecOn with
  | nil => rfl
  | append_singleton vars v ih =>
    rw [ofList_concat, paths, toList_insertIfNew, List.map_append, List.mem_append, List.map_append,
      List.mem_append, ← ih]
    by_cases taken : v.path ∈ (ofList vars).paths
    · rw [if_pos taken]
      constructor
      · rintro (h | h)
        · exact .inl h
        · cases h
      · rintro (h | h)
        · exact .inl h
        · exact .inl (List.mem_singleton.1 h ▸ taken)
    · rw [if_neg taken]
      rfl

theorem toList_ofList (vars : List Variable) :
    (ofList vars).toList = firsts Variable.path vars := by
  induction vars using List.reverseRecOn with
  | nil => rfl
  | append_singleton vars v ih =>
    rw [ofList_concat, toList_insertIfNew, ih, firsts, firsts, chosen_concat]
    by_cases taken : v.path ∈ (ofList vars).paths
    · have repeated : isRepeated Variable.path vars v = true :=
        List.contains_iff_mem.2 (mem_paths_ofList.1 taken)
      rw [if_pos taken, repeated]
      rfl
    · have fresh : isRepeated Variable.path vars v = false := by
        rw [← Bool.not_eq_true]
        intro repeated
        exact taken (mem_paths_ofList.2 (List.contains_iff_mem.1 repeated))
      rw [if_neg taken, fresh]
      rfl

theorem roots_ofList (vars : List Variable) : (ofList vars).roots = rootsOf vars := by
  induction vars using List.reverseRecOn with
  | nil => rfl
  | append_singleton vars v ih => rw [ofList_concat, roots_insertIfNew, ih, rootsOf_concat]

theorem duplicates_eq_repeats (vars : List Variable) :
    duplicates [] vars = repeats Variable.path vars := by
  induction vars using List.reverseRecOn with
  | nil => rfl
  | append_singleton vars v ih =>
    rw [duplicates_concat, ih, repeats, repeats, chosen_concat]
    simp [isRepeated]

def duplicateWarning (v : Variable) : Log.Entry :=
  ⟨.warning, .catalog,
    "Catalog integrity: duplicate variable path '".toList ++ v.path ++ [Text.apostrophe]⟩

open Normalization in
/-- The catalog of a list holds the first variable of each path in the order of the list, and there
is one warning for each of the others. Its roots are those of the list in the order of their first
appearance, each once. So a text is marked and normalized alike with the catalog and with the list,
or refused alike. -/
theorem ofList_exact (vars : List Variable) :
    (ofList vars).toList = firsts Variable.path vars ∧
    integrityLog vars = (repeats Variable.path vars).map duplicateWarning ∧
    (ofList vars).toList.length + (integrityLog vars).length = vars.length ∧
    FirstAppearances (fun _ => True) (vars.map Variable.root) (ofList vars).roots ∧
    (∀ path, (ofList vars).contains path = true ↔
      ∃ v ∈ (ofList vars).toList, v.path = path) ∧
    (∀ path, (ofList vars).contains path = true ↔ ∃ v ∈ vars, v.path = path) ∧
    (∀ root, (ofList vars).hasRoot root = true ↔ ∃ v ∈ vars, v.root = root) ∧
    ∀ text, markRoots (ofList vars).roots text = markVariables vars text ∧
      markVariables (ofList vars).toList text = markVariables vars text ∧
      normalize (ofList vars).toList text = normalize vars text := by
  have log : integrityLog vars = (repeats Variable.path vars).map duplicateWarning := by
    rw [integrityLog, duplicates_eq_repeats]
    rfl
  have marked : ∀ text, markVariables (ofList vars).toList text = markVariables vars text := by
    intro text
    exact congrArg (markRoots · text) (roots_ofList vars)
  refine ⟨toList_ofList vars, log, ?_, ?_, ?_, ?_, ?_, ?_⟩
  · rw [toList_ofList, log, List.length_map]
    exact length_chosen_add (isRepeated Variable.path) vars
  · have appear := firstAppearances_eraseDups (fun _ => true) (vars.map Variable.root)
    rw [List.filter_true] at appear
    rw [roots_ofList, rootsOf]
    refine ⟨appear.ordered, ?_⟩
    intro root
    rw [appear.mem_iff]
    simp
  · intro path
    rw [contains, List.contains_iff_mem, paths, List.mem_map]
  · intro path
    rw [contains, List.contains_iff_mem, mem_paths_ofList, List.mem_map]
  · intro root
    rw [hasRoot, List.contains_iff_mem, roots_ofList, rootsOf, List.mem_eraseDups, List.mem_map]
  · intro text
    refine ⟨marked text, marked text, ?_⟩
    unfold normalize
    rw [marked]

end Catalog

end ProgressRules
