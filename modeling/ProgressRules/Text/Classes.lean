import ProgressRules.Text.LetterTable
import ProgressRules.Text.DigitTable
import ProgressRules.Text.UnprintableTable
import ProgressRules.Text.IdentifierTable

/-! Character classes of the rule languages: decimal digits, word characters, characters of
identifiers, blanks and printable characters. Inside ASCII they are decided directly, beyond
it by the tables. -/

namespace ProgressRules

/-- Texts are read and written one character at a time. -/
abbrev Text := List Char

namespace Text

def apostrophe : Char := Char.ofNat 39

def doubleQuote : Char := Char.ofNat 34

def backslash : Char := Char.ofNat 92

def newline : Char := Char.ofNat 10

def inRanges (ranges : List (Nat × Nat)) (n : Nat) : Bool :=
  ranges.any fun r => r.1 ≤ n && n ≤ r.2

def digitValue? (c : Char) : Option Nat :=
  if c.toNat < 128 then
    if c.isDigit then some (c.toNat - 48) else none
  else
    (scriptZeros.find? fun first => first ≤ c.toNat && c.toNat ≤ first + 9).map (c.toNat - ·)

def isDigit (c : Char) : Bool := (digitValue? c).isSome

/-- Letters, numerals of every kind and the underscore. -/
def isWord (c : Char) : Bool :=
  isDigit c || c == '_' ||
    if c.toNat < 128 then c.isAlpha else inRanges letterRanges c.toNat

/-- Letters and the underscore may begin an identifier. -/
def startsIdentifier (c : Char) : Bool :=
  if c.toNat < 128 then c.isAlpha || c == '_' else inRanges identifierStartRanges c.toNat

/-- Digits and marks may continue one. -/
def continuesIdentifier (c : Char) : Bool :=
  startsIdentifier c ||
    if c.toNat < 128 then c.isDigit else inRanges identifierPartRanges c.toNat

def isIdentifier : Text → Bool
  | [] => false
  | c :: rest => startsIdentifier c && rest.all continuesIdentifier

def isSpace (c : Char) : Bool :=
  let n := c.toNat
  (9 ≤ n && n ≤ 13) || n == 32 || n == 0x85 || n == 0xA0 || n == 0x1680 ||
    (0x2000 ≤ n && n ≤ 0x200A) || n == 0x2028 || n == 0x2029 || n == 0x202F || n == 0x205F ||
    n == 0x3000

/-- White space or one of the four information separators of ASCII. -/
def isBlank (c : Char) : Bool := isSpace c || (28 ≤ c.toNat && c.toNat ≤ 31)

def isPrintable (c : Char) : Bool :=
  if c.toNat < 128 then 32 ≤ c.toNat && c.toNat ≤ 126
  else !inRanges unprintableRanges c.toNat

theorem isWord_of_isDigit {c : Char} (h : isDigit c = true) : isWord c = true := by
  simp [isWord, h]

end Text

end ProgressRules
