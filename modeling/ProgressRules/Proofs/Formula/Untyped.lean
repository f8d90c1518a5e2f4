import ProgressRules.Formula
import ProgressRules.Proofs.Binary64.PlainText

/-! The divisors of comparisons that were not typed. Such a comparison is divided by its threshold
as a plain text, which is read back as this threshold and as no other number. -/

namespace ProgressRules

namespace Formula

theorem textOf_progress (functionPrefix reference divisor : Text) :
    textOf functionPrefix (some (.progress reference divisor)) =
      functionPrefix ++ "min(#".toList ++ reference ++ " * 100 / ".toList ++ divisor ++
        ", 100)".toList := by
  have front : "min(#".toList = "min".toList ++ ['(', '#'] := by decide
  have back : ", 100)".toList = ", ".toList ++ ("100".toList ++ [')']) := by decide
  rw [front, back]
  change application (functionPrefix ++ "min".toList)
    ['#' :: reference ++ " * 100 / ".toList ++ divisor, "100".toList] = _
  simp only [application, Text.joinWith, List.intersperse, List.flatten_cons, List.flatten_nil,
    List.append_assoc, List.cons_append, List.nil_append, List.append_nil]

theorem ofComparison?_untyped {c : Comparison} (untyped : c.thresholdText = [])
    (positive : c.threshold.nonpositive = false) :
    ofComparison? c = some (.progress c.reference c.threshold.plainText) := by
  rw [ofComparison?, if_neg (by simp [positive]), divisorOf, untyped]
  rfl

/-- The text of every finite number is read back as this number, and an integer is written by its
decimal expansion, without a point and without an exponent. So the divisor of a comparison that was
not typed is read back as its threshold. -/
theorem untyped_reads_back {x : Binary64} {v : Rat} (finite : x.value? = some v) :
    ReadsBack x.plainText x ∧
    (∀ z : Int, v = z →
      x.plainText = Binary64.signed (z < 0) (Text.ofNat z.natAbs) ∧
      ∀ c ∈ x.plainText, c = '-' ∨ c.isDigit = true) ∧
    ∀ c : Comparison, c.threshold = x → c.thresholdText = [] → 0 < v →
      ofComparison? c = some (.progress c.reference x.plainText) ∧
      (∀ functionPrefix, textOf functionPrefix (ofComparison? c) =
        functionPrefix ++ "min(#".toList ++ c.reference ++ " * 100 / ".toList ++ x.plainText ++
          ", 100)".toList) ∧
      (∃ q, (∀ q', Denotes x.plainText q' ↔ q' = q) ∧
        ∀ y : Binary64, y.Rounds q ↔ y = c.threshold) ∧
      Binary64.read? x.plainText = some c.threshold := by
  obtain ⟨negative, m, rfl, -⟩ := Binary64.eq_finite_of_value? finite
  have back := Binary64.readsBack_plainText negative m
  refine ⟨back, ?_, ?_⟩
  · rintro z rfl
    have digits := Binary64.plainText_of_integer finite
    refine ⟨digits, fun c inside => ?_⟩
    rw [digits] at inside
    exact Binary64.mem_signed_ofNat inside
  · intro c threshold untyped positive
    have positive := (Binary64.value_pos_iff finite).1 positive
    have formula := ofComparison?_untyped untyped (threshold ▸ positive)
    rw [threshold] at formula ⊢
    obtain ⟨⟨q, value, rounded⟩, y, read, same⟩ := back
    have one (y : Binary64) : y.SameNumber (.finite negative m) ↔ y = .finite negative m :=
      ⟨Binary64.eq_of_sameNumber positive, by rintro rfl; exact ⟨rfl, .inr rfl⟩⟩
    refine ⟨formula, fun functionPrefix => ?_, ⟨q, value, fun y => (rounded y).trans (one y)⟩, ?_⟩
    · rw [formula, textOf_progress]
    · rw [read, (one y).1 same]

def tenToTwentyTwo : Binary64 :=
  .finite false ⟨10 ^ 22 * unitsPerOne, isExact_of_dvd_ten_pow (Nat.le_refl 22) (Nat.dvd_refl _)⟩

@[irreducible] def hundredThousandth : Binary64 := .ofRatio false 1 100000

/-- An integer of twenty-three digits is written without an exponent, and one hundred-thousandth with
one. -/
theorem untyped_reads_back_tenToTwentyTwo :
    textOf [] (ofComparison? ⟨"level".toList, .ge, tenToTwentyTwo, []⟩) =
      "min(#level * 100 / 10000000000000000000000, 100)".toList ∧
    Binary64.read? "10000000000000000000000".toList = some tenToTwentyTwo ∧
    textOf [] (ofComparison? ⟨"level".toList, .ge, hundredThousandth, []⟩) =
      "min(#level * 100 / 1e-05, 100)".toList ∧
    Binary64.read? "1e-05".toList = some hundredThousandth := by
  have value : tenToTwentyTwo.value? = some ((10 ^ 22 : Nat) : Int) :=
    congrArg some (Magnitude.value_eq_natCast_iff.2 rfl)
  obtain ⟨v, value'⟩ := Binary64.exists_value (x := hundredThousandth) (by decide +kernel)
  have positive' : hundredThousandth.nonpositive = false := by decide +kernel
  obtain ⟨-, integer, divisor⟩ := untyped_reads_back value
  obtain ⟨-, -, divisor'⟩ := untyped_reads_back value'
  have digits : tenToTwentyTwo.plainText = "10000000000000000000000".toList :=
    (integer _ rfl).1.trans (by decide +kernel)
  have digits' : hundredThousandth.plainText = "1e-05".toList := by decide +kernel
  obtain ⟨-, formula, -, read⟩ := divisor ⟨"level".toList, .ge, tenToTwentyTwo, []⟩ rfl rfl
    (by norm_num)
  obtain ⟨-, formula', -, read'⟩ := divisor' ⟨"level".toList, .ge, hundredThousandth, []⟩ rfl rfl
    ((Binary64.value_pos_iff value').2 positive')
  rw [digits] at formula read
  rw [digits'] at formula' read'
  exact ⟨(formula []).trans (by decide), read, (formula' []).trans (by decide), read'⟩

end Formula

end ProgressRules
