import ProgressRules.Comparison
import ProgressRules.Percent

/-! From stored rules back to the authoring language: marks are dropped, operators and
truth values become words, and fractions of the progress field become percentages. -/

namespace ProgressRules

namespace Restoration

def isAsciiName (c : Char) : Bool := c.isAlpha || c == '_'

/-- A mark is dropped in front of an ASCII letter or an underscore. -/
def dropMark : Text.EditRule := fun _ text =>
  match text with
  | '#' :: c :: _ => if isAsciiName c then some ⟨1, []⟩ else none
  | _ => none

/-- Writes a word with single blanks around it for the symbol and any blanks around that. -/
def operatorWord (symbol word : String) : Text.EditRule := fun _ text =>
  (Text.padded symbol.toList text).map fun rest => Text.Edit.upTo text rest word.toList

/-- A negation and the blanks after it; `!=` is an operator and stays. -/
def negationWord : Text.EditRule := fun _ text =>
  match text with
  | '!' :: '=' :: _ => none
  | '!' :: rest => some (.upTo text (Text.trimStart rest) "not ".toList)
  | _ => none

/-- In a stored rule a numeral may begin with its point. -/
def readThreshold : Text.Reader Text := fun text =>
  match Numeral.read text with
  | some (number, rest) => some (number.text, rest)
  | none => (Numeral.readFraction text).map fun (fraction, rest) => ('.' :: fraction, rest)

def readProgress (progressField : Text) : Text.Reader (Text × Text) := fun text => do
  let afterField ← Text.dropLiteral? progressField text
  let (_, afterOperator) ← Operator.read (Text.trimStart afterField)
  let thresholdStart := Text.trimStart afterOperator
  let (threshold, rest) ← readThreshold thresholdStart
  return ((text.take (text.length - thresholdStart.length), threshold), rest)

/-- After one of these the field is a part of another name or quoted. -/
def blocksField (before : Option Char) : Bool :=
  before.any fun c => Text.isWord c || c == '.' || c == Text.apostrophe

def percentEdit (progressField : Text) : Text.EditRule := fun before text =>
  if blocksField before then none
  else (readProgress progressField text).map fun ((left, threshold), rest) =>
    Text.Edit.upTo text rest (left ++ ((Percent.rescale threshold).toOption.getD threshold))

def rescaleProgress (progressField : Text) : Text → Text := Text.editAll (percentEdit progressField)

end Restoration

open Restoration in
def restore (progressField rule : Text) : Text :=
  if Text.blankOnly rule then []
  else
    rescaleProgress progressField <|
    Text.editAll negationWord <|
    Text.editAll (operatorWord "||" " or ") <|
    Text.editAll (operatorWord "&&" " and ") <|
    Text.replaceWord "false".toList "False".toList <|
    Text.replaceWord "true".toList "True".toList <|
    Text.editAll dropMark rule

end ProgressRules
