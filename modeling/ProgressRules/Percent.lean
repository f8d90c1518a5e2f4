import ProgressRules.Binary64.Literal
import ProgressRules.Binary64.Written

/-! Fractions as percentages. A number with a point and a value of at most one is a
fraction; one hundred times its value is rounded to 28 significant digits, a half to the
even digit, and then to an integer, a half away from zero. -/

namespace ProgressRules

namespace Percent

inductive RescaleError where
  /-- The text is no decimal literal, or its percentage takes more than 28 digits. -/
  | invalid
  /-- The percentage takes more than a million digits. -/
  | overflow
deriving DecidableEq, Repr

/-- The literal `digits * 10 ^ exponent` with its sign. -/
structure Literal where
  negative : Bool
  digits : Nat
  exponent : Int
deriving DecidableEq, Repr

/-- The place of the first digit: the value is below `10 ^ place`. -/
def Literal.place (l : Literal) : Int := l.exponent + (Text.ofNat l.digits).length

def Literal.isExpressible (l : Literal) : Bool :=
  -1999999999999999997 ≤ l.exponent && l.place ≤ 1000000000000000000

/-- Reads sign, digits, point and exponent. Underscores are ignored wherever they stand. -/
def read? (text : Text) : Option Literal :=
  let (negative, body) := Binary64.readSign ((Text.trim text).filter (· != '_'))
  let whole := body.takeWhile Text.isDigit
  let afterWhole := body.dropWhile Text.isDigit
  let (fraction, afterFraction) :=
    match afterWhole with
    | '.' :: rest => (rest.takeWhile Text.isDigit, rest.dropWhile Text.isDigit)
    | rest => ([], rest)
  if whole.isEmpty && fraction.isEmpty then none
  else
    match Binary64.readExponent? afterFraction with
    | some exponent =>
      let l : Literal :=
        ⟨negative, Text.natValue (whole ++ fraction), exponent - fraction.length⟩
      if l.isExpressible then some l else none
    | none => none

/-- More than one. A value whose place is not one is told by its place alone. -/
def Literal.exceedsOne (l : Literal) : Bool :=
  !l.negative && l.digits != 0 &&
    (1 < l.place || (l.place == 1 && Nat.pow 10 (-l.exponent).toNat < l.digits))

/-- The digits beyond the twenty-eighth are rounded off, a half to the even digit. -/
def roundDigits (digits : Nat) (exponent : Int) : Nat × Int :=
  let surplus := (Text.ofNat digits).length - 28
  (nearestEven digits (Nat.pow 10 surplus), exponent + surplus)

def roundHalfUp (digits : Nat) (exponent : Int) : Nat :=
  let unit := Nat.pow 10 (-exponent).toNat
  (2 * (digits * Nat.pow 10 exponent.toNat) + unit) / (2 * unit)

/-- One hundred times the magnitude, as an integer. Powers are computed only where the result
has at most 28 digits before the point. -/
def Literal.hundredfold (l : Literal) : Except RescaleError Nat :=
  if l.digits = 0 || l.place < -5 then .ok 0
  else
    let (digits, exponent) := roundDigits l.digits (l.exponent + 2)
    if 1000000 < exponent + (Text.ofNat digits).length then .error .overflow
    else if 26 < l.place then .error .invalid
    else
      let rounded := roundHalfUp digits exponent
      if (Text.ofNat rounded).length ≤ 28 then .ok rounded else .error .invalid

/-- The percentage of a fraction. A text without a point and a value above one are left as
they are. -/
def rescale (text : Text) : Except RescaleError Text :=
  if !text.contains '.' then .ok text
  else
    match read? text with
    | none => .error .invalid
    | some l =>
      if l.exceedsOne then .ok text
      else
        l.hundredfold.map fun n => Binary64.signed l.negative (Text.ofNat n)

end Percent

end ProgressRules
