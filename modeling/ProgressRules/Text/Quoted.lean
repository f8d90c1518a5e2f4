import ProgressRules.Text.Scan

/-! Texts shown inside messages. A quoted text stands between apostrophes, or between double
quotes if it holds an apostrophe and no double quote. The enclosing quote and the backslash
are escaped, and a character without a visible form is written by its code point. -/

namespace ProgressRules.Text

def hexDigit (n : Nat) : Char := if n < 10 then Char.ofNat (48 + n) else Char.ofNat (87 + n)

def hexDigits : (width n : Nat) → Text
  | 0, _ => []
  | width + 1, n => hexDigits width (n / 16) ++ [hexDigit (n % 16)]

def escapeCode (c : Char) : Text :=
  if c.toNat < 0x100 then backslash :: 'x' :: hexDigits 2 c.toNat
  else if c.toNat < 0x10000 then backslash :: 'u' :: hexDigits 4 c.toNat
  else backslash :: 'U' :: hexDigits 8 c.toNat

def escapeChar (mark c : Char) : Text :=
  if c = mark || c = backslash then [backslash, c]
  else if c.toNat = 10 then [backslash, 'n']
  else if c.toNat = 13 then [backslash, 'r']
  else if c.toNat = 9 then [backslash, 't']
  else if isPrintable c then [c]
  else escapeCode c

def quoteMark (text : Text) : Char :=
  if text.contains apostrophe && !text.contains doubleQuote then doubleQuote else apostrophe

def quoted (text : Text) : Text :=
  let mark := quoteMark text
  mark :: text.flatMap (escapeChar mark) ++ [mark]

end ProgressRules.Text
