import ProgressRules.Binary64.Basic
import ProgressRules.Text.Scan

/-! Unsigned decimal numerals as they are typed: digits, and perhaps a point with digits
on both sides. A numeral keeps its text and has an exact value. -/

namespace ProgressRules

/-- An empty fraction stands for a numeral without a point. -/
structure Numeral where
  whole : Text
  fraction : Text
deriving DecidableEq, Repr

namespace Numeral

def text (n : Numeral) : Text :=
  if n.fraction.isEmpty then n.whole else n.whole ++ '.' :: n.fraction

def readFraction : Text.Reader Text
  | '.' :: rest => Text.run Text.isDigit rest
  | _ => none

/-- A point that no digit follows is left unread. -/
def read : Text.Reader Numeral := fun text =>
  (Text.run Text.isDigit text).map fun (whole, rest) =>
    match readFraction rest with
    | some (fraction, after) => (⟨whole, fraction⟩, after)
    | none => (⟨whole, []⟩, rest)

/-- The exact value is `numerator / denominator`. -/
def numerator (n : Numeral) : Nat := Text.natValue (n.whole ++ n.fraction)

def denominator (n : Numeral) : Nat := Nat.pow 10 n.fraction.length

def nearest (n : Numeral) : Binary64 := .ofRatio false n.numerator n.denominator

end Numeral

end ProgressRules
