import ProgressRules.Binary64.Basic
import ProgressRules.Text.Scan

/-! Number literals with sign, point and exponent, and the names of the infinities and of
the NaN. Digits of every script count, and an underscore may stand between two digits. -/

namespace ProgressRules

namespace Text

def startsWithDigit : Text → Bool
  | c :: _ => isDigit c
  | [] => false

/-- The leading digits, without the underscores between them, and the text after them. -/
def digitRun (afterDigit : Bool) : Text → Text × Text
  | [] => ([], [])
  | c :: rest =>
    if isDigit c then (c :: (digitRun true rest).1, (digitRun true rest).2)
    else if afterDigit && c == '_' && startsWithDigit rest then digitRun false rest
    else ([], c :: rest)

end Text

namespace Binary64

def readSign : Text → Bool × Text
  | '-' :: rest => (true, rest)
  | '+' :: rest => (false, rest)
  | text => (false, text)

def readExponent? : Text → Option Int
  | [] => some 0
  | c :: rest =>
    if c == 'e' || c == 'E' then
      let (negative, digits) := readSign rest
      match Text.digitRun false digits with
      | (d :: ds, []) =>
        some (if negative then -(Text.natValue (d :: ds) : Int) else Text.natValue (d :: ds))
      | _ => none
    else none

def readUnsigned? (negative : Bool) (text : Text) : Option Binary64 :=
  let (whole, afterWhole) := Text.digitRun false text
  let (fraction, afterFraction) :=
    match afterWhole with
    | '.' :: rest => Text.digitRun false rest
    | rest => ([], rest)
  if whole.isEmpty && fraction.isEmpty then none
  else (readExponent? afterFraction).map fun exponent =>
    ofDecimal negative (Text.natValue (whole ++ fraction)) (exponent - fraction.length)

def read? (text : Text) : Option Binary64 :=
  let (negative, body) := readSign (Text.trimSpace text)
  let name := body.map Char.toLower
  if name == "inf".toList || name == "infinity".toList then some (.infinite negative)
  else if name == "nan".toList then some .nan
  else readUnsigned? negative body

end Binary64

end ProgressRules
