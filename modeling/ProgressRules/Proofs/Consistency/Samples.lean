import Mathlib.Data.Rat.Cast.Order
import Mathlib.Data.Real.Basic
import Mathlib.Tactic.Linarith
import ProgressRules.Consistency.Box

/-! The samples of some values tell all real numbers apart that comparisons with the values
tell apart: on either side of a value, between two values and on a value there is a sample. -/

namespace ProgressRules

/-- The real number and the sample lie on the same side of the value, or both on it. -/
def SameSide (x : ℝ) (sample value : Rat) : Prop :=
  (x < value ↔ sample < value) ∧ ((value : ℝ) < x ↔ value < sample)

theorem SameSide.refl (sample value : Rat) : SameSide sample sample value :=
  ⟨Rat.cast_lt, Rat.cast_lt⟩

theorem SameSide.of_lt {x : ℝ} {sample value : Rat} (h : x < value) (h' : sample < value) :
    SameSide x sample value :=
  ⟨⟨fun _ => h', fun _ => h⟩, ⟨fun h'' => absurd h'' h.asymm, fun h'' => absurd h'' h'.asymm⟩⟩

theorem SameSide.of_gt {x : ℝ} {sample value : Rat} (h : (value : ℝ) < x) (h' : value < sample) :
    SameSide x sample value :=
  ⟨⟨fun h'' => absurd h'' h.asymm, fun h'' => absurd h'' h'.asymm⟩, ⟨fun _ => h', fun _ => h⟩⟩

theorem SameSide.le_iff {x : ℝ} {sample value : Rat} (h : SameSide x sample value) :
    x ≤ value ↔ sample ≤ value := by
  rw [← not_lt, h.2, not_lt]

theorem SameSide.ge_iff {x : ℝ} {sample value : Rat} (h : SameSide x sample value) :
    (value : ℝ) ≤ x ↔ value ≤ sample := by
  rw [← not_lt, h.1, not_lt]

theorem SameSide.eq_iff {x : ℝ} {sample value : Rat} (h : SameSide x sample value) :
    x = value ↔ sample = value := by
  rw [le_antisymm_iff, le_antisymm_iff, h.le_iff, h.ge_iff]

/-- What lies on the same side of a value lies on the same side of everything before it, if it
does not lie before the value. -/
theorem SameSide.mono {x : ℝ} {sample value smaller : Rat} (h : SameSide x sample value)
    (le : smaller ≤ value) (behind : (value : ℝ) ≤ x) : SameSide x sample smaller := by
  rcases le.eq_or_lt with rfl | lt
  · exact h
  · exact .of_gt ((Rat.cast_lt.2 lt).trans_le behind) (lt.trans_le (h.ge_iff.1 behind))

/-- Behind the first value each part of the line has a point among the values and those after
them. The induction goes from left to right through the values. -/
theorem exists_point_behind {first : Rat} {values : List Rat}
    (ascending : (first :: values).Pairwise (· ≤ ·)) {x : ℝ} (behind : (first : ℝ) ≤ x) :
    ∃ sample ∈ first :: values ++ pointsAfter (first :: values),
      ∀ value ∈ first :: values, SameSide x sample value := by
  induction values generalizing first with
  | nil =>
    rcases behind.eq_or_lt with rfl | after
    · exact ⟨first, by simp, fun value _ => .refl first value⟩
    · refine ⟨first + 1, by simp [pointsAfter], ?_⟩
      exact List.forall_mem_singleton.2 (.of_gt after (by linarith))
  | cons second values ih =>
    obtain ⟨least, ascending'⟩ := List.pairwise_cons.1 ascending
    rcases le_or_gt (second : ℝ) x with behind' | before
    · obtain ⟨sample, member, same⟩ := ih ascending' behind'
      refine ⟨sample, ?_, List.forall_mem_cons.2 ⟨?_, same⟩⟩
      · simp only [pointsAfter, List.mem_append, List.mem_cons] at member ⊢
        tauto
      · exact (same second (by simp)).mono (least second (by simp)) behind'
    · rcases behind.eq_or_lt with rfl | after
      · exact ⟨first, by simp, fun value _ => .refl first value⟩
      · have apart : first < second := Rat.cast_lt.1 (after.trans before)
        refine ⟨(first + second) / 2, by simp [pointsAfter], List.forall_mem_cons.2 ⟨?_, ?_⟩⟩
        · exact .of_gt after (by linarith)
        · intro value member
          have smaller : second ≤ value := by
            rcases List.mem_cons.1 member with rfl | member
            · exact le_refl _
            · exact (List.pairwise_cons.1 ascending').1 value member
          exact .of_lt (before.trans_le (Rat.cast_le.2 smaller)) (by linarith)

theorem exists_point {values : List Rat} (ascending : values.Pairwise (· ≤ ·)) (x : ℝ) :
    ∃ sample ∈ 0 :: ((values.head?.map (· - 1)).toList ++ values ++ pointsAfter values),
      ∀ value ∈ values, SameSide x sample value := by
  cases values with
  | nil => exact ⟨0, by simp, by simp⟩
  | cons first values =>
    rcases le_or_gt (first : ℝ) x with behind | before
    · obtain ⟨sample, member, same⟩ := exists_point_behind ascending behind
      refine ⟨sample, ?_, same⟩
      simp only [List.mem_append, List.mem_cons] at member ⊢
      tauto
    · refine ⟨first - 1, by simp, fun value member => ?_⟩
      have smaller : first ≤ value := by
        rcases List.mem_cons.1 member with rfl | member
        · exact le_refl _
        · exact (List.pairwise_cons.1 ascending).1 value member
      exact .of_lt (before.trans_le (Rat.cast_le.2 smaller)) (by linarith)

/-- Comparisons with the values cannot tell a real number from one of the samples. -/
theorem exists_sample (values : List Rat) (x : ℝ) :
    ∃ sample ∈ samples values, ∀ value ∈ values, SameSide x sample value := by
  have ascending : values.eraseDups.mergeSort.Pairwise (· ≤ ·) := by
    have sorted : (values.eraseDups.mergeSort fun a b => decide (a ≤ b)).Pairwise
        fun a b => decide (a ≤ b) = true :=
      List.pairwise_mergeSort
        (fun a b c h h' => decide_eq_true ((of_decide_eq_true h).trans (of_decide_eq_true h')))
        (fun a b => by simp [le_total]) values.eraseDups
    simpa using sorted
  obtain ⟨sample, member, same⟩ := exists_point ascending x
  refine ⟨sample, ?_, fun value inside => same value ?_⟩
  · rw [samples, List.mem_mergeSort]
    exact member
  · rw [List.mem_mergeSort, List.mem_eraseDups]
    exact inside

theorem Relation.holds_iff_of_sameSide {r : Relation} {x sample value : Rat}
    (h : SameSide x sample value) : r.Holds x value ↔ r.Holds sample value := by
  cases r with
  | ge => exact Rat.cast_le.symm.trans h.ge_iff
  | le => exact Rat.cast_le.symm.trans h.le_iff
  | gt => exact Rat.cast_lt.symm.trans h.2
  | lt => exact Rat.cast_lt.symm.trans h.1
  | eq => exact Rat.cast_inj.symm.trans h.eq_iff
  | ne => exact not_congr (Rat.cast_inj.symm.trans h.eq_iff)

end ProgressRules
