import ProgressRules.Document.Data
import ProgressRules.Text.Quoted

/-! JSON documents. Reading takes the names `NaN`, `Infinity` and `-Infinity` for numbers;
printing indents by two blanks and writes every character but the controls as it is. -/

namespace ProgressRules

namespace Json

/-! Reading -/

def isSpace (c : Char) : Bool :=
  c == ' ' || c.toNat == 9 || c.toNat == 10 || c.toNat == 13

def skipSpace (text : Text) : Text := text.dropWhile isSpace

def hexValue? (c : Char) : Option Nat :=
  if c.isDigit then some (c.toNat - 48)
  else if 'a' ≤ c && c ≤ 'f' then some (c.toNat - 87)
  else if 'A' ≤ c && c ≤ 'F' then some (c.toNat - 55)
  else none

def readUnit : Text.Reader Nat
  | a :: b :: c :: d :: rest => do
    let a ← hexValue? a
    let b ← hexValue? b
    let c ← hexValue? c
    let d ← hexValue? d
    return (((a * 16 + b) * 16 + c) * 16 + d, rest)
  | _ => none

/-- One code point: a unit, or two units that form a pair. -/
def readCodePoint : Text.Reader Char := fun text => do
  let (first, rest) ← readUnit text
  if 0xD800 ≤ first && first < 0xDC00 then
    match rest with
    | b :: 'u' :: more =>
      if b = Text.backslash then
        match readUnit more with
        | some (second, after) =>
          if 0xDC00 ≤ second && second < 0xE000 then
            return (Char.ofNat (0x10000 + (first - 0xD800) * 0x400 + (second - 0xDC00)), after)
          else return (Char.ofNat 0xFFFD, rest)
        | none => none
      else return (Char.ofNat 0xFFFD, rest)
    | _ => return (Char.ofNat 0xFFFD, rest)
  else if 0xDC00 ≤ first && first < 0xE000 then return (Char.ofNat 0xFFFD, rest)
  else return (Char.ofNat first, rest)

def escapedChar? (c : Char) : Option Char :=
  if c = Text.doubleQuote || c = Text.backslash || c = '/' then some c
  else
    match c with
    | 'b' => some (Char.ofNat 8)
    | 'f' => some (Char.ofNat 12)
    | 'n' => some (Char.ofNat 10)
    | 'r' => some (Char.ofNat 13)
    | 't' => some (Char.ofNat 9)
    | _ => none

def readChar : Text.Reader Char
  | [] => none
  | c :: rest =>
    if c = Text.doubleQuote || c.toNat < 32 then none
    else if c = Text.backslash then
      match rest with
      | 'u' :: after => readCodePoint after
      | e :: after => (escapedChar? e).map fun d => (d, after)
      | [] => none
    else some (c, rest)

/-- What stands before the closing quote, and after it. A quote that follows a backslash does
not close a string. -/
def splitAtQuote : Text → Option (Text × Text)
  | [] => none
  | c :: rest =>
    if c = Text.doubleQuote then some ([], rest)
    else if c = Text.backslash then
      match rest with
      | d :: after => (splitAtQuote after).map fun (body, left) => (c :: d :: body, left)
      | [] => none
    else (splitAtQuote rest).map fun (body, left) => (c :: body, left)

def readString : Text.Reader Text := fun text => do
  let (body, rest) ← splitAtQuote text
  match Text.many readChar body with
  | (chars, []) => return (chars, rest)
  | _ => none

def isDecimal (c : Char) : Bool := c.isDigit

/-- The digits of an integer part: a zero, or digits that do not begin with one. -/
def readWhole : Text.Reader Text
  | '0' :: rest => some (['0'], rest)
  | text => Text.run isDecimal text

def readFraction : Text.Reader Text
  | '.' :: rest => Text.run isDecimal rest
  | text => some ([], text)

/-- A part that does not read as an exponent is left. -/
def readExponent : Text.Reader (Option Int) := fun text =>
  match text with
  | c :: rest =>
    if c == 'e' || c == 'E' then
      let (negative, digits) := match rest with
        | '-' :: more => (true, more)
        | '+' :: more => (false, more)
        | _ => (false, rest)
      match Text.run isDecimal digits with
      | some (ds, after) =>
        let n : Int := Text.natValue ds
        some (some (if negative then -n else n), after)
      | none => some (none, text)
    else some (none, text)
  | [] => some (none, [])

abbrev Reader (α : Type) := Text → Except ReadError (α × Text)

def orMalformed {α : Type} : Option α → Except ReadError α
  | some a => .ok a
  | none => .error .malformed

/-- A number without fraction and exponent is an integer. -/
def readNumber : Reader Data := fun text => do
  let (negative, unsigned) := match text with
    | '-' :: rest => (true, rest)
    | _ => (false, text)
  let (whole, afterWhole) ← orMalformed (readWhole unsigned)
  let (fraction, afterFraction) := (readFraction afterWhole).getD ([], afterWhole)
  let (exponent, rest) ← orMalformed (readExponent afterFraction)
  if fraction.isEmpty && exponent.isNone then
    if Text.digitLimit < whole.length then throw (.integerTooLong whole.length)
    let n : Int := Text.natValue whole
    return (.integer (if negative then -n else n), rest)
  else
    return (.real (.ofDecimal negative (Text.natValue (whole ++ fraction))
      (exponent.getD 0 - fraction.length)), rest)

def names : List (Text × Data) := [
  ("null".toList, .null),
  ("true".toList, .bool true),
  ("false".toList, .bool false),
  ("NaN".toList, .real .nan),
  ("Infinity".toList, .real (.infinite false)),
  ("-Infinity".toList, .real (.infinite true))]

def readName : Text.Reader Data := fun text =>
  names.findSome? fun (name, value) => (Text.dropLiteral? name text).map fun rest => (value, rest)

mutual

/-- Reads a value. Every call within another gives up one unit of `fuel`. -/
def readValue : (fuel : Nat) → Reader Data
  | 0, _ => .error .malformed
  | fuel + 1, text =>
    match text with
    | '[' :: rest =>
      match skipSpace rest with
      | ']' :: after => .ok (.list [], after)
      | items => do
        let (items, after) ← readItems fuel items
        return (.list items, after)
    | '{' :: rest =>
      match skipSpace rest with
      | '}' :: after => .ok (.mapping [], after)
      | members => do
        let (entries, after) ← readMembers fuel members
        return (Data.ofEntries entries, after)
    | c :: rest =>
      if c = Text.doubleQuote then do
        let (t, after) ← orMalformed (readString rest)
        return (.text t, after)
      else
        match readName text with
        | some named => .ok named
        | none => readNumber text
    | [] => .error .malformed

def readItems : (fuel : Nat) → Reader (List Data)
  | 0, _ => .error .malformed
  | fuel + 1, text => do
    let (item, rest) ← readValue fuel text
    match skipSpace rest with
    | ']' :: after => return ([item], after)
    | ',' :: more =>
      let (items, after) ← readItems fuel (skipSpace more)
      return (item :: items, after)
    | _ => throw .malformed

def readMembers : (fuel : Nat) → Reader (List (Key × Data))
  | 0, _ => .error .malformed
  | fuel + 1, text => do
    let (name, afterName) ← orMalformed (match text with
      | c :: rest => if c = Text.doubleQuote then readString rest else none
      | [] => none)
    let (value, rest) ← match skipSpace afterName with
      | ':' :: more => readValue fuel (skipSpace more)
      | _ => throw .malformed
    match skipSpace rest with
    | '}' :: after => return ([(.text name, value)], after)
    | ',' :: more =>
      let (entries, after) ← readMembers fuel (skipSpace more)
      return ((.text name, value) :: entries, after)
    | _ => throw .malformed

end

/-- The value of a whole document. The length bounds how often values can nest or follow. -/
def read (text : Text) : Except ReadError Data := do
  let (value, rest) ← readValue (2 * text.length + 2) (skipSpace text)
  if (skipSpace rest).isEmpty then return value else throw .malformed

/-! Printing -/

def escape (c : Char) : Text :=
  if c = Text.doubleQuote || c = Text.backslash then [Text.backslash, c]
  else if c.toNat = 8 then [Text.backslash, 'b']
  else if c.toNat = 9 then [Text.backslash, 't']
  else if c.toNat = 10 then [Text.backslash, 'n']
  else if c.toNat = 12 then [Text.backslash, 'f']
  else if c.toNat = 13 then [Text.backslash, 'r']
  else if c.toNat < 32 then Text.backslash :: 'u' :: Text.hexDigits 4 c.toNat
  else [c]

def stringText (text : Text) : Text :=
  Text.doubleQuote :: text.flatMap escape ++ [Text.doubleQuote]

def numberText : Binary64 → Text
  | .nan => "NaN".toList
  | .infinite negative => Binary64.signed negative "Infinity".toList
  | x => x.text

def keyText : Key → Text
  | .text t => t
  | .other t => t

def newLine (depth : Nat) : Text := Text.newline :: List.replicate (2 * depth) ' '

/-- Brackets with each part on a line of its own; without parts they stand together. -/
def block (left right : Char) (depth : Nat) (parts : List Text) : Text :=
  if parts.isEmpty then [left, right]
  else
    left :: Text.joinWith [','] (parts.map (newLine (depth + 1) ++ ·)) ++ newLine depth ++ [right]

mutual

def render (depth : Nat) : Data → Text
  | .null => "null".toList
  | .bool value => if value then "true".toList else "false".toList
  | .integer n => Data.integerText n
  | .real x => numberText x
  | .text t => stringText t
  -- the standard has no dates
  | .date t _ => stringText t
  | .list items => block '[' ']' depth (renderItems (depth + 1) items)
  | .mapping entries => block '{' '}' depth (renderEntries (depth + 1) entries)

def renderItems (depth : Nat) : List Data → List Text
  | [] => []
  | item :: items => render depth item :: renderItems depth items

def renderEntries (depth : Nat) : List (Key × Data) → List Text
  | [] => []
  | (key, value) :: entries =>
    (stringText (keyText key) ++ ':' :: ' ' :: render depth value) :: renderEntries depth entries

end

end Json

end ProgressRules
