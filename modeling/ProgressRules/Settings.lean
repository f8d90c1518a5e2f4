import ProgressRules.Text.Classes

/-! The settings of a conversion. -/

namespace ProgressRules

structure Settings where
  /-- Written in front of `min` and `max`. -/
  functionPrefix : Text
  /-- Calls take two arguments, and longer ones are nested to the left. -/
  binaryCalls : Bool
  nested : Bool
  /-- The reference whose fractions stand for percentages in stored rules. -/
  progressField : Text
  separator : Text
  checkConsistency : Bool
deriving DecidableEq, Repr

def Settings.default : Settings :=
  ⟨[], false, false, "progressField".toList, ", ".toList, false⟩

end ProgressRules
