import ProgressRules.Proofs.Text.Reading

/-! One pass of edits over a text that is given as a front and the rest. -/

namespace ProgressRules.Text

variable {rule : EditRule}

theorem editFrom_skip (front rest : Text) (before : Option Char) :
    editFrom rule before front.length (front ++ rest) =
      editFrom rule (front.getLast?.or before) 0 rest := by
  induction front generalizing before with
  | nil => rfl
  | cons c front ih =>
    simp only [List.length_cons, List.cons_append, editFrom, ih]
    congr 1
    cases front with
    | nil => rfl
    | cons d front => simp [List.getLast?_cons]

theorem editFrom_upTo {before : Option Char} {front rest written : Text} (nonempty : front ≠ [])
    (h : rule before (front ++ rest) = some (.upTo (front ++ rest) rest written)) :
    editFrom rule before 0 (front ++ rest) = written ++ editFrom rule front.getLast? 0 rest := by
  cases front with
  | nil => exact absurd rfl nonempty
  | cons c front =>
    have size : (c :: (front ++ rest)).length - rest.length = front.length + 1 := by
      simp only [List.length_cons, List.length_append]
      omega
    simp only [List.cons_append] at h ⊢
    simp only [editFrom, h, Edit.upTo, size, editFrom_skip]
    congr 2
    cases front with
    | nil => rfl
    | cons d front => simp [List.getLast?_cons]

theorem editFrom_cons {before : Option Char} {c : Char} {rest : Text}
    (h : rule before (c :: rest) = none) :
    editFrom rule before 0 (c :: rest) = c :: editFrom rule (some c) 0 rest := by
  simp [editFrom, h]

/-- A front at none of whose places something is edited. -/
theorem editFrom_inert {before : Option Char} {front rest : Text}
    (h : ∀ a c b, front = a ++ c :: b → rule (a.getLast?.or before) (c :: (b ++ rest)) = none) :
    editFrom rule before 0 (front ++ rest) =
      front ++ editFrom rule (front.getLast?.or before) 0 rest := by
  induction front generalizing before with
  | nil => rfl
  | cons c front ih =>
    have here : rule before (c :: (front ++ rest)) = none := h [] c front rfl
    have later : ∀ a d b, front = a ++ d :: b →
        rule (a.getLast?.or (some c)) (d :: (b ++ rest)) = none := by
      intro a d b same
      have there := h (c :: a) d b (by rw [same]; rfl)
      rw [← there]
      cases a <;> simp [List.getLast?_cons]
    rw [List.cons_append, editFrom_cons here, ih later]
    cases front <;> simp [List.getLast?_cons]

/-- The same for a rule that can only begin at characters that the front does not hold. -/
theorem editFrom_inert_of_initial {p : Char → Prop} {before : Option Char} {front rest : Text}
    (initial : ∀ before c rest, p c → rule before (c :: rest) = none) (h : ∀ c ∈ front, p c) :
    editFrom rule before 0 (front ++ rest) =
      front ++ editFrom rule (front.getLast?.or before) 0 rest := by
  refine editFrom_inert fun a c b same => initial _ c _ (h c ?_)
  simp [same]

theorem editFrom_inert_of_not_mem {s : Char} {before : Option Char} {front rest : Text}
    (initial : ∀ before c rest, c ≠ s → rule before (c :: rest) = none) (outside : s ∉ front) :
    editFrom rule before 0 (front ++ rest) =
      front ++ editFrom rule (front.getLast?.or before) 0 rest := by
  refine editFrom_inert_of_initial initial ?_
  rintro c inside rfl
  exact outside inside

/-! ### What is kept through a pass -/

/-- In each part that the rule edits it writes the same characters of a class as it takes. -/
def Keeps (p : Char → Bool) (rule : EditRule) : Prop :=
  ∀ before text edit, rule before text = some edit →
    edit.written.filter p = (text.take edit.size).filter p

theorem Keeps.filter_editFrom {p : Char → Bool} (keeps : Keeps p rule) (before : Option Char)
    (skip : Nat) (text : Text) :
    (editFrom rule before skip text).filter p = (text.drop skip).filter p := by
  induction text generalizing before skip with
  | nil => simp [editFrom]
  | cons c text ih =>
    cases skip with
    | succ skip => exact ih (some c) skip
    | zero =>
      rw [editFrom, List.drop_zero]
      split
      · rename_i size written edit
        have taken := keeps before (c :: text) _ edit
        rw [List.filter_append, ih, taken, List.take_succ_cons, ← List.filter_append,
          List.cons_append, List.take_append_drop]
      · rw [List.filter_cons, List.filter_cons, ih, List.drop_zero]

theorem Keeps.filter_editAll {p : Char → Bool} (keeps : Keeps p rule) (text : Text) :
    (editAll rule text).filter p = text.filter p :=
  keeps.filter_editFrom none 0 text

theorem filter_upTo {p : Char → Bool} {front rest written : Text}
    (same : written.filter p = front.filter p) :
    (Edit.upTo (front ++ rest) rest written).written.filter p =
      ((front ++ rest).take (Edit.upTo (front ++ rest) rest written).size).filter p := by
  simp only [Edit.upTo, take_front, same]

def KeepsCount (s : Char) (rule : EditRule) : Prop :=
  ∀ before text edit, rule before text = some edit →
    edit.written.count s = (text.take edit.size).count s

variable {s : Char}

theorem KeepsCount.keeps (h : KeepsCount s rule) : Keeps (· == s) rule := by
  intro before text edit found
  rw [List.filter_beq, List.filter_beq, h before text edit found]

theorem KeepsCount.count_editAll (keeps : KeepsCount s rule) (text : Text) :
    (editAll rule text).count s = text.count s := by
  have same := keeps.keeps.filter_editAll text
  rw [List.filter_beq, List.filter_beq] at same
  simpa using congrArg List.length same

theorem count_upTo {front rest written : Text} (same : written.count s = front.count s) :
    (Edit.upTo (front ++ rest) rest written).written.count s =
      ((front ++ rest).take (Edit.upTo (front ++ rest) rest written).size).count s := by
  simp only [Edit.upTo, take_front, same]

theorem dropDelimited_eq_some {word text rest : Text} {before : Option Char}
    (h : dropDelimited? word before text = some rest) : text = word ++ rest := by
  unfold dropDelimited? at h
  split at h
  · rename_i rest' found
    split at h
    · cases h
      exact dropLiteral_eq_some found
    · cases h
  · cases h

theorem count_replaceWord {word written : Text} (same : written.count s = word.count s)
    (text : Text) : (replaceWord word written text).count s = text.count s := by
  refine KeepsCount.count_editAll (fun before text edit found => ?_) text
  obtain ⟨rest, dropped, rfl⟩ := Option.map_eq_some_iff.1 found
  rw [dropDelimited_eq_some dropped]
  exact count_upTo same

end ProgressRules.Text
