import Mathlib.Data.List.Basic
import ProgressRules.Proofs.Normalization.SinglePass
import ProgressRules.Proofs.Text.Editing

/-! Marking inserts marks and changes nothing else, if each root stands for itself when it is read
as a template. A root without a backslash does so. A template that cannot be read makes marking
fail for every text, and one that stands for something else changes the texts with its root. -/

namespace ProgressRules

namespace Normalization

open Text (Edit Keeps isWordAt)

def unmarked (text : Text) : Text := text.filter (· != '#')

/-- What is written for the root is the root with marks inserted. -/
def StandsForItself (root : Text) : Prop :=
  ∃ pieces, Template.read ('#' :: root) = .ok pieces ∧
    unmarked (Template.expand pieces root) = unmarked root

theorem standsForItself_of_plain {root : Text} (plain : Text.backslash ∉ root) :
    StandsForItself root := by
  refine ⟨_, read_of_plain plain, ?_⟩
  rw [expand_literals]
  rfl

/-! ### One root -/

theorem markEdit_keeps {root : Text} {pieces : List Template.Piece}
    (same : unmarked (Template.expand pieces root) = unmarked root) :
    Keeps (· != '#') (markEdit root pieces) := by
  intro before text edit found
  unfold markEdit at found
  split at found
  · cases found
  · obtain ⟨rest, dropped, rfl⟩ := Option.map_eq_some_iff.1 found
    rw [Text.dropDelimited_eq_some dropped]
    exact Text.filter_upTo same

theorem unmarked_markBoundaries (before : Option Char) (text : Text) :
    unmarked (markBoundaries before text) = unmarked text := by
  unfold unmarked
  induction text generalizing before with
  | nil =>
    rw [markBoundaries]
    split <;> rfl
  | cons c text ih =>
    rw [markBoundaries]
    split
    · rw [List.filter_cons_of_neg (by decide), List.filter_cons, ih, List.filter_cons]
    · rw [List.filter_cons, ih, List.filter_cons]

theorem markRoot_eq {root : Text} {pieces : List Template.Piece}
    (read : Template.read ('#' :: root) = .ok pieces) (text : Text) :
    markRoot root text = .ok (if root.isEmpty then markBoundaries none text
      else Text.editAll (markEdit root pieces) text) := by
  rw [markRoot, read]
  rfl

theorem markRoot_unmarked {root : Text} (h : StandsForItself root) (text : Text) :
    ∃ marked, markRoot root text = .ok marked ∧ unmarked marked = unmarked text := by
  obtain ⟨pieces, read, same⟩ := h
  refine ⟨_, markRoot_eq read text, ?_⟩
  split
  · exact unmarked_markBoundaries none text
  · exact (markEdit_keeps same).filter_editAll text

/-! ### All roots -/

theorem markRoots_cons (root : Text) (roots : List Text) (text : Text) :
    markRoots (root :: roots) text = (markRoot root text).bind (markRoots roots) :=
  List.foldlM_cons

theorem markRoots_unmarked {roots : List Text} (h : ∀ root ∈ roots, StandsForItself root)
    (text : Text) : ∃ marked, markRoots roots text = .ok marked ∧ unmarked marked = unmarked text := by
  induction roots generalizing text with
  | nil => exact ⟨text, rfl, rfl⟩
  | cons root roots ih =>
    obtain ⟨first, others⟩ := List.forall_mem_cons.1 h
    obtain ⟨marked, found, same⟩ := markRoot_unmarked first text
    obtain ⟨marked', found', same'⟩ := ih others marked
    refine ⟨marked', ?_, same'.trans same⟩
    rw [markRoots_cons, found]
    exact found'

/-- Whether marking fails does not depend on the text. -/
theorem exists_markRoots_iff (roots : List Text) (text : Text) :
    (∃ marked, markRoots roots text = .ok marked) ↔
      ∀ root ∈ roots, ∃ pieces, Template.read ('#' :: root) = .ok pieces := by
  induction roots generalizing text with
  | nil => exact ⟨fun _ _ => nofun, fun _ => ⟨text, rfl⟩⟩
  | cons root roots ih =>
    rw [markRoots_cons, List.forall_mem_cons]
    cases read : Template.read ('#' :: root) with
    | error e =>
      have failed : markRoot root text = .error e := by
        rw [markRoot, read]
        rfl
      rw [failed]
      simp [Except.bind]
    | ok pieces =>
      rw [markRoot_eq read]
      simp only [Except.bind]
      rw [ih]
      simp

/-! ### A free occurrence -/

/-- A letter where the neighbour is no word character, so that there is a boundary between. -/
def besides (neighbour : Option Char) : Text := if isWordAt neighbour then [] else ['a']

theorem boundary_besides (neighbour : Option Char) :
    Text.boundary (besides neighbour).getLast? neighbour = true ∧
      Text.boundary neighbour (besides neighbour).head? = true := by
  unfold besides Text.boundary
  cases h : isWordAt neighbour with
  | true => simp [isWordAt]
  | false => exact ⟨by simp; decide, by simp; decide⟩

theorem blocksMark_besides (neighbour : Option Char) :
    blocksMark (besides neighbour).getLast? = false := by
  unfold besides
  split <;> decide

variable {root : Text} {pieces : List Template.Piece}

theorem markEdit_eq_none {text : Text} (h : ∀ rest, text ≠ root ++ rest) (before : Option Char) :
    markEdit root pieces before text = none := by
  rw [markEdit, Text.dropDelimited?, Text.dropLiteral_eq_none h, Option.map_none, ite_self]

theorem markEdit_besides :
    markEdit root pieces (besides root.head?).getLast? (root ++ besides root.getLast?) =
      some (.upTo (root ++ besides root.getLast?) (besides root.getLast?)
        (Template.expand pieces root)) := by
  have found : Text.dropDelimited? root (besides root.head?).getLast?
      (root ++ besides root.getLast?) = some (besides root.getLast?) := by
    rw [Text.dropDelimited?, Text.dropLiteral_append]
    simp only [boundary_besides, Bool.and_self, if_true]
  rw [markEdit, blocksMark_besides, found]
  rfl

/-- The root is edited between its neighbours, which are left alone. -/
theorem editAll_besides (some_root : root ≠ []) :
    Text.editAll (markEdit root pieces)
        (besides root.head? ++ (root ++ besides root.getLast?)) =
      besides root.head? ++ (Template.expand pieces root ++ besides root.getLast?) := by
  have before : ∀ rest, Text.editFrom (markEdit root pieces) none 0 (besides root.head? ++ rest) =
      besides root.head? ++
        Text.editFrom (markEdit root pieces) (besides root.head?).getLast? 0 rest := by
    intro rest
    unfold besides
    split
    · rfl
    · rename_i bare
      refine Text.editFrom_cons (markEdit_eq_none (fun after same => bare ?_) none)
      cases root with
      | nil => exact absurd rfl some_root
      | cons c root =>
        obtain ⟨rfl, -⟩ := List.cons.inj same
        exact (by decide : isWordAt (some 'a') = true)
  have behind : Text.editFrom (markEdit root pieces) root.getLast? 0 (besides root.getLast?) =
      besides root.getLast? := by
    unfold besides
    split
    · rfl
    · rename_i bare
      refine Text.editFrom_cons (markEdit_eq_none (fun after same => bare ?_) _)
      have single : root = ['a'] := by
        cases root with
        | nil => exact absurd rfl some_root
        | cons c root =>
          obtain ⟨rfl, empty⟩ := List.cons.inj same
          rw [(List.append_eq_nil_iff.1 empty.symm).1]
      rw [single]
      decide
  rw [Text.editAll, before, Text.editFrom_upTo some_root markEdit_besides, behind]

theorem standsForItself_of_forall
    (h : ∀ text, ∃ marked, markRoot root text = .ok marked ∧ unmarked marked = unmarked text) :
    StandsForItself root := by
  by_cases some_root : root = []
  · subst some_root
    exact standsForItself_of_plain List.not_mem_nil
  · obtain ⟨marked, found, same⟩ := h (besides root.head? ++ (root ++ besides root.getLast?))
    cases read : Template.read ('#' :: root) with
    | error e =>
      rw [markRoot, read] at found
      cases found
    | ok pieces =>
      have nonempty : root.isEmpty = false := by simpa using some_root
      rw [markRoot_eq read, nonempty] at found
      obtain rfl := Except.ok.inj found
      refine ⟨pieces, read, ?_⟩
      rw [if_neg Bool.false_ne_true, editAll_besides some_root] at same
      simp only [unmarked, List.filter_append] at same ⊢
      exact List.append_cancel_right (List.append_cancel_left same)

/-! ### Catalogs -/

theorem mem_of_mem_rootOf {path : Text} {c : Char} (member : c ∈ Variable.rootOf path) :
    c ∈ path := by
  unfold Variable.rootOf at member
  split at member
  · rename_i word rest found
    have front : c ∈ Variable.withoutMark (Text.trimStart path) := by
      rw [(Text.run_eq_some found).2.1]
      exact List.mem_append_left rest member
    have behind : c ∈ Text.trimStart path := by
      unfold Variable.withoutMark at front
      split at front
      · rename_i same
        rw [same]
        exact List.mem_cons_of_mem _ front
      · exact front
    exact (List.dropWhile_suffix _).subset behind
  · exact (Text.isInfix_trim path).subset member

theorem markVariables_single (v : Variable) (text : Text) :
    markVariables [v] text = markRoot v.root text := by
  have roots : rootsOf [v] = [v.root] := rfl
  rw [markVariables, roots, markRoots_cons]
  cases markRoot v.root text <;> rfl

/-- Whether marking fails does not depend on the text, and it does not fail where each root stands
for itself. Then the marked text differs from the text in its marks only. For a single variable
this is the only case in which no text is changed otherwise. -/
theorem markVariables_exact (vars : List Variable) :
    (∀ text, (∃ marked, markVariables vars text = .ok marked) ↔
      ∀ v ∈ vars, ∃ pieces, Template.read ('#' :: v.root) = .ok pieces) ∧
    ((∀ v ∈ vars, StandsForItself v.root) →
      ∀ text, ∃ marked, markVariables vars text = .ok marked ∧ unmarked marked = unmarked text) ∧
    (∀ v ∈ vars, (Text.backslash ∉ v.path → StandsForItself v.root) ∧
      ((∀ text, ∃ marked, markVariables [v] text = .ok marked ∧
        unmarked marked = unmarked text) → StandsForItself v.root)) := by
  have each : ∀ P : Text → Prop, (∀ root ∈ rootsOf vars, P root) ↔ ∀ v ∈ vars, P v.root := by
    intro P
    simp only [rootsOf, List.mem_eraseDups, List.mem_map, forall_exists_index, and_imp,
      forall_apply_eq_imp_iff₂]
  refine ⟨fun text => ?_, fun h text => ?_, fun v member => ⟨fun plain => ?_, fun h => ?_⟩⟩
  · rw [markVariables, exists_markRoots_iff]
    exact each fun root => ∃ pieces, Template.read ('#' :: root) = .ok pieces
  · exact markRoots_unmarked ((each StandsForItself).2 h) text
  · exact standsForItself_of_plain fun inside => plain (mem_of_mem_rootOf inside)
  · apply standsForItself_of_forall
    simpa only [markVariables_single] using h

theorem markVariables_bracket :
    ∃ marked, markVariables [.ofPath "#stats['commits']".toList] "stats.commits >= 5".toList =
        .ok marked ∧ unmarked marked = "stats.commits >= 5".toList := by
  have exact := markVariables_exact [.ofPath "#stats['commits']".toList]
  have plain := (exact.2.2 _ List.mem_cons_self).1 (by decide)
  exact exact.2.1 (List.forall_mem_singleton.2 plain) _

def escapedLetter : Text := [Text.backslash, 'd']

def twoBackslashes : Text := [Text.backslash, Text.backslash]

/-- An escape without a meaning is refused, and of two backslashes one is lost. -/
theorem markVariables_backslash :
    markVariables [.ofPath escapedLetter] "x >= 1".toList =
      .error (.fault ("bad escape ".toList ++ escapedLetter) 1 none) ∧
    markVariables [.ofPath twoBackslashes] ('a' :: twoBackslashes ++ ['b']) =
      .ok ['a', '#', Text.backslash, 'b'] := by
  constructor <;> decide +kernel

end Normalization

end ProgressRules
