import ProgressRules.Numeral
import ProgressRules.Reference

/-! Threshold comparisons: a reference, an operator and a number. In a rule the reference
carries the mark `#`, and blanks may stand on both sides of the operator. -/

namespace ProgressRules

inductive Operator where
  | ge
  | le
  | gt
  | lt
  | eq
  | ne
  /-- A symbol without a meaning. -/
  | other (symbol : Text)
deriving DecidableEq, Repr

namespace Operator

def symbol : Operator → Text
  | .ge => ['>', '=']
  | .le => ['<', '=']
  | .gt => ['>']
  | .lt => ['<']
  | .eq => ['=', '=']
  | .ne => ['!', '=']
  | .other symbol => symbol

/-- Of two symbols that fit, the longer one is read. -/
def read : Text.Reader Operator
  | '>' :: '=' :: rest => some (.ge, rest)
  | '<' :: '=' :: rest => some (.le, rest)
  | '=' :: '=' :: rest => some (.eq, rest)
  | '!' :: '=' :: rest => some (.ne, rest)
  | '>' :: rest => some (.gt, rest)
  | '<' :: rest => some (.lt, rest)
  | _ => none

def ofSymbol (text : Text) : Operator :=
  match read text with
  | some (operator, []) => operator
  | _ => .other text

end Operator

/-- The threshold is the nearest binary64 number to what was typed. An empty threshold text
stands for a comparison that was not typed. -/
structure Comparison where
  reference : Text
  operator : Operator
  threshold : Binary64
  thresholdText : Text
deriving DecidableEq

namespace Comparison

def marked (c : Comparison) : Text := '#' :: c.reference

def read : Text.Reader Comparison := fun text => do
  let (reference, afterReference) ← Reference.read text
  let (operator, afterOperator) ← Operator.read (Text.trimStart afterReference)
  let (number, rest) ← Numeral.read (Text.trimStart afterOperator)
  return (⟨reference.text, operator, number.nearest, number.text⟩, rest)

def readMarked : Text.Reader Comparison
  | '#' :: rest => read rest
  | _ => none

def ofText? (text : Text) : Option Comparison :=
  match readMarked (Text.trim text) with
  | some (comparison, []) => some comparison
  | _ => none

end Comparison

end ProgressRules
