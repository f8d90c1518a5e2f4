import ProgressRules.Binary64.Literal
import ProgressRules.Document.Json

/-! A small part of YAML: block mappings and block lists by indentation, flow collections on
one line or as a whole document, plain and quoted scalars on one line, and comments. What
lies outside this part is malformed, as are anchors, block scalars, merged mappings and dates. -/

namespace ProgressRules

namespace Yaml

/-! ### Scalars -/

def nullNames : List Text := ["".toList, "~".toList, "null".toList, "Null".toList, "NULL".toList]

def trueNames : List Text := [
  "true".toList, "True".toList, "TRUE".toList, "yes".toList, "Yes".toList, "YES".toList,
  "on".toList, "On".toList, "ON".toList]

def falseNames : List Text := [
  "false".toList, "False".toList, "FALSE".toList, "no".toList, "No".toList, "NO".toList,
  "off".toList, "Off".toList, "OFF".toList]

def isDigitOf (base : Nat) (c : Char) : Bool :=
  c == '_' || (Json.hexValue? c).any fun n => n < base

def isDecimal (c : Char) : Bool := isDigitOf 10 c

def baseValue (base : Nat) (digits : Text) : Nat :=
  (digits.filter (· != '_')).foldl (fun n c => base * n + (Json.hexValue? c).getD 0) 0

def inBase? (base : Nat) (digits : Text) : Option Nat :=
  if digits.all (isDigitOf base) && !digits.isEmpty then some (baseValue base digits) else none

/-- Minutes or seconds. -/
def isSixtieth : Text → Bool
  | [a] => a.isDigit
  | [a, b] => '0' ≤ a && a ≤ '5' && b.isDigit
  | _ => false

def colonParts (text : Text) : List Text := Text.partsBetween (Text.dropLiteral? [':']) text

/-- A zero comes first only alone or with the mark of another base than ten. Colons stand between
the digits of base sixty. -/
def unsignedInteger? : Text → Option Nat
  | ['0'] => some 0
  | '0' :: 'b' :: digits => inBase? 2 digits
  | '0' :: 'x' :: digits => inBase? 16 digits
  | '0' :: digits => inBase? 8 digits
  | text =>
    match colonParts text with
    | (c :: digits) :: sixtieths =>
      if c.isDigit && digits.all isDecimal && sixtieths.all isSixtieth then
        let first := baseValue 10 (c :: digits)
        some (sixtieths.foldl (fun n part => 60 * n + baseValue 10 part) first)
      else none
    | _ => none

def integer? (text : Text) : Option Int :=
  let (negative, digits) := Binary64.readSign text
  (unsignedInteger? digits).map fun n => if negative then -(n : Int) else n

/-- An exponent of a real number carries a sign. -/
def isExponent : Text → Bool
  | [] => true
  | e :: sign :: digit :: digits =>
    (e == 'e' || e == 'E') && (sign == '+' || sign == '-') && (digit :: digits).all Char.isDigit
  | _ => false

/-- A real number has a point, and a digit next to it. -/
def isReal (text : Text) : Bool :=
  let digits := (Binary64.readSign text).2
  match digits.takeWhile isDecimal, digits.dropWhile isDecimal with
  | c :: _, '.' :: rest => c.isDigit && isExponent (rest.dropWhile isDecimal)
  | [], '.' :: d :: rest =>
    d.isDigit && digits.length == text.length && isExponent (rest.dropWhile isDecimal)
  | _, _ => false

def real? (text : Text) : Option Binary64 :=
  let (negative, unsigned) := Binary64.readSign text
  if [".inf".toList, ".Inf".toList, ".INF".toList].contains unsigned then some (.infinite negative)
  else if [".nan".toList, ".NaN".toList, ".NAN".toList].contains text then some .nan
  else if isReal text then Binary64.read? (text.filter (· != '_'))
  else none

/-- A day, or a day with a time behind it. -/
def isDate (text : Text) : Bool :=
  let year := text.takeWhile Char.isDigit
  let numbers := (text.drop year.length).takeWhile fun c => c.isDigit || c == '-'
  let time := text.drop (year.length + numbers.length)
  year.length == 4 &&
    match Text.partsBetween (Text.dropLiteral? ['-']) numbers with
    | [[], month, day] =>
      match time with
      | [] => month.length == 2 && day.length == 2
      | c :: rest =>
        [month, day].all (fun part => part.length == 1 || part.length == 2) &&
          (c == 'T' || c == 't' || c == ' ') &&
          (rest.dropWhile (· == ' ')).head?.any Char.isDigit && rest.contains ':'
    | _ => false

/-- A real number of base sixty. -/
def isSixtiethReal (text : Text) : Bool :=
  let digits := (Binary64.readSign text).2
  match colonParts (digits.takeWhile (· != '.')), digits.dropWhile (· != '.') with
  | (c :: whole) :: sixtieth :: sixtieths, '.' :: fraction =>
    c.isDigit && whole.all isDecimal && (sixtieth :: sixtieths).all isSixtieth &&
      fraction.all isDecimal
  | _, _ => false

/-- Scalars with a meaning of their own that is not read here. -/
def isForeign (text : Text) : Bool :=
  isDate text || isSixtiethReal text || text == ['<', '<'] || text == ['=']

/-- The value of a plain scalar: a text unless it has the form of another value. -/
def resolve? (text : Text) : Option Data :=
  if isForeign text then none
  else if nullNames.contains text then some .null
  else if trueNames.contains text then some (.bool true)
  else if falseNames.contains text then some (.bool false)
  else
    match integer? text, real? text with
    | some n, _ => some (.integer n)
    | none, some x => some (.real x)
    | none, none => some (.text text)

def keyOf : Data → Key
  | .text t => .text t
  | .integer n => .other (Data.integerText n)
  | .bool b => .other (Data.boolText b)
  | .real x => .other x.text
  | .date _ item => .other item
  | _ => .other "None".toList

def isGap (c : Char) : Bool := c == ' '

/-- A tab stands inside quotes and comments only. -/
def isTab (c : Char) : Bool := c.toNat == 9

def skipGap (text : Text) : Text := text.dropWhile isGap

/-- One character between apostrophes; two apostrophes stand for one. -/
def readSingle : Text.Reader Char
  | [] => none
  | c :: rest =>
    if c = Text.newline then none
    else if c = Text.apostrophe then
      match rest with
      | d :: after => if d = Text.apostrophe then some (d, after) else none
      | [] => none
    else some (c, rest)

def extraEscape? : Char → Option Char
  | '0' => some (Char.ofNat 0)
  | 'a' => some (Char.ofNat 7)
  | 'v' => some (Char.ofNat 11)
  | 'e' => some (Char.ofNat 27)
  | ' ' => some ' '
  | 'N' => some (Char.ofNat 0x85)
  | '_' => some (Char.ofNat 0xA0)
  | 'L' => some (Char.ofNat 0x2028)
  | 'P' => some (Char.ofNat 0x2029)
  | _ => none

def readDouble : Text.Reader Char := fun text =>
  match text with
  | c :: 'x' :: a :: b :: rest =>
    if c = Text.backslash then do
      let a ← Json.hexValue? a
      let b ← Json.hexValue? b
      return (Char.ofNat (a * 16 + b), rest)
    else if c = Text.doubleQuote || c = Text.newline then none
    else some (c, 'x' :: a :: b :: rest)
  | c :: d :: rest =>
    if c = Text.backslash then
      match extraEscape? d with
      | some e => some (e, rest)
      | none => Json.readChar text
    else if c = Text.doubleQuote || c = Text.newline then none
    else some (c, d :: rest)
  | c :: [] => if c = Text.doubleQuote || c = Text.backslash then none else some (c, [])
  | [] => none

def readQuoted : Text.Reader Text
  | [] => none
  | c :: rest =>
    let reader := if c = Text.apostrophe then readSingle else readDouble
    if c = Text.apostrophe || c = Text.doubleQuote then
      match Text.many reader rest with
      | (chars, d :: after) => if d = c then some (chars, after) else none
      | _ => none
    else none

/-- Nothing but a comment is left on the line. -/
def lineDone (text : Text) : Bool :=
  match skipGap text with
  | [] => true
  | c :: _ => c == '#' || c == Text.newline

def isIndicator (c : Char) : Bool :=
  "-?:,[]#&*!|>%@".toList.contains c || c == '{' || c == '}' || c == Text.apostrophe ||
    c == Text.doubleQuote || c.toNat == 96 || isTab c

/-- Dash, question mark and colon may begin a scalar if no gap follows them. -/
def startsPlain : Text → Bool
  | [] => false
  | [c] => !isIndicator c
  | c :: d :: _ =>
    !isIndicator c || (c == '-' || c == '?' || c == ':') && !isGap d && d != Text.newline

def endsKey : Text → Bool
  | [] => true
  | d :: _ => isGap d || d == Text.newline

/-- The characters of a plain scalar: up to a colon that ends a key, a comment or the line. -/
def plainFrom (afterGap : Bool) : Text → Text × Text
  | [] => ([], [])
  | c :: rest =>
    let endsHere := c == Text.newline || isTab c || (c == '#' && afterGap) ||
      (c == ':' && endsKey rest)
    if endsHere then ([], c :: rest)
    else
      let (chars, after) := plainFrom (isGap c) rest
      (c :: chars, after)

def dropEndGap (text : Text) : Text := (text.reverse.dropWhile isGap).reverse

def readPlain : Text.Reader Text := fun text =>
  if startsPlain text then
    let (chars, rest) := plainFrom false text
    some (dropEndGap chars, rest)
  else none

/-! ### Flow collections -/

def isFlowEnd (c : Char) : Bool := c == ',' || c == '[' || c == ']' || c == '{' || c == '}'

/-- Inside brackets a scalar also ends at a comma or a bracket. -/
def flowPlainFrom (afterGap : Bool) : Text → Text × Text
  | [] => ([], [])
  | c :: rest =>
    let endsHere := c == Text.newline || isTab c || isFlowEnd c || (c == '#' && afterGap) ||
      (c == ':' && (endsKey rest || rest.head?.any isFlowEnd))
    if endsHere then ([], c :: rest)
    else
      let (chars, after) := flowPlainFrom (isGap c) rest
      (c :: chars, after)

def readFlowPlain : Text.Reader Text := fun text =>
  if startsPlain text then
    let (chars, rest) := flowPlainFrom false text
    some (dropEndGap chars, rest)
  else none

def readFlowScalar : Text.Reader Data := fun text =>
  match readQuoted text with
  | some (t, rest) => some (.text t, rest)
  | none => do
    let (t, rest) ← readFlowPlain text
    return (← resolve? t, rest)

def skipFlow (inComment : Bool) : Text → Text
  | [] => []
  | c :: rest =>
    if c == Text.newline then skipFlow false rest
    else if inComment || c.toNat == 13 || isGap c then skipFlow inComment rest
    else if c == '#' then skipFlow true rest
    else c :: rest

mutual

/-- Reads a collection or a scalar. Every call within another gives up one unit of `fuel`. -/
def readFlow : (fuel : Nat) → Text.Reader Data
  | 0, _ => none
  | fuel + 1, text =>
    match text with
    | '[' :: rest => (readFlowItems fuel (skipFlow false rest)).map fun (items, after) =>
      (.list items, after)
    | '{' :: rest => (readFlowEntries fuel (skipFlow false rest)).map fun (entries, after) =>
      (Data.ofEntries entries, after)
    | _ => readFlowScalar text

/-- The items up to the closing bracket; a comma may stand before it. -/
def readFlowItems : (fuel : Nat) → Text.Reader (List Data)
  | 0, _ => none
  | fuel + 1, text =>
    match text with
    | ']' :: after => some ([], after)
    | _ => do
      let (item, rest) ← readFlow fuel text
      match skipFlow false rest with
      | ']' :: after => return ([item], after)
      | ',' :: more =>
        let (items, after) ← readFlowItems fuel (skipFlow false more)
        return (item :: items, after)
      | _ => none

/-- The entries up to the closing brace. A key without a value has the value null. -/
def readFlowEntries : (fuel : Nat) → Text.Reader (List (Key × Data))
  | 0, _ => none
  | fuel + 1, text =>
    match text with
    | '}' :: after => some ([], after)
    | _ => do
      let (key, afterKey) ← readFlowScalar text
      let (value, rest) ← match skipFlow false afterKey with
        | ':' :: more =>
          match skipFlow false more with
          | ',' :: after => some (.null, ',' :: after)
          | '}' :: after => some (.null, '}' :: after)
          | start => readFlow fuel start
        | other => some (.null, other)
      match skipFlow false rest with
      | '}' :: after => return ([(keyOf key, value)], after)
      | ',' :: more =>
        let (entries, after) ← readFlowEntries fuel (skipFlow false more)
        return ((keyOf key, value) :: entries, after)
      | _ => none

end

def readFlowFrom : Text.Reader Data := fun text => readFlow (2 * text.length + 2) text

/-! ### Blocks -/

structure Line where
  indent : Nat
  content : Text
deriving DecidableEq, Repr

def carriageReturn : Char := Char.ofNat 13

def linesOf (text : Text) : List Text :=
  Text.partsBetween
    (fun t => (Text.dropLiteral? [carriageReturn, Text.newline] t).or
      ((Text.dropLiteral? [Text.newline] t).or (Text.dropLiteral? [carriageReturn] t)))
    text

/-- A line with content; blank lines and comments are `none`. Indentation is made of spaces. -/
def lineOf (text : Text) : Option (Option Line) :=
  let content := text.dropWhile (· == ' ')
  let indent := text.length - content.length
  match (skipGap content).head? with
  | none | some '#' => some none
  | some _ =>
    if content.head?.any isTab then none
    else some (some ⟨indent, dropEndGap content⟩)

def significantLines (text : Text) : Option (List Line) :=
  ((linesOf text).mapM lineOf).map fun lines => lines.filterMap id

/-- A dash with a gap or the end of the line after it, and what follows the gap. -/
def itemContent? : Text → Option (Nat × Text)
  | ['-'] => some (1, [])
  | '-' :: c :: rest =>
    if isGap c then
      let content := skipGap rest
      some (2 + (rest.length - content.length), if content.head? == some '#' then [] else content)
    else none
  | _ => none

def readKey : Text.Reader Key := fun content =>
  match readQuoted content with
  | some (t, rest) =>
    match skipGap rest with
    | ':' :: after => if endsKey after then some (.text t, after) else none
    | _ => none
  | none =>
    match readPlain content with
    | some (t, ':' :: after) => (resolve? t).map fun d => (keyOf d, after)
    | _ => none

def readInline (content : Text) : Option Data :=
  match content with
  | '[' :: _ | '{' :: _ =>
    match readFlowFrom content with
    | some (value, rest) => if lineDone rest then some value else none
    | none => none
  | _ =>
    match readQuoted content with
    | some (t, rest) => if lineDone rest then some (.text t) else none
    | none =>
      match readPlain content with
      | some (t, []) => resolve? t
      | some (t, '#' :: _) => resolve? t
      | _ => none

mutual

/-- The value that begins at the first line. Every call within another gives up one unit of
`fuel`. -/
def readNode : (fuel : Nat) → List Line → Option (Data × List Line)
  | 0, _ => none
  | _, [] => some (.null, [])
  | fuel + 1, line :: lines =>
    if (itemContent? line.content).isSome then
      (readItems fuel line.indent (line :: lines)).map fun (items, rest) => (.list items, rest)
    else if (readKey line.content).isSome then
      (readEntries fuel line.indent (line :: lines)).map fun (entries, rest) =>
        (Data.ofEntries entries, rest)
    else (readInline line.content).map fun value => (value, lines)

def readItems : (fuel : Nat) → (indent : Nat) → List Line → Option (List Data × List Line)
  | 0, _, _ => none
  | _, _, [] => some ([], [])
  | fuel + 1, indent, line :: lines =>
    if line.indent < indent then some ([], line :: lines)
    else if indent < line.indent then none
    else
      match itemContent? line.content with
      | none => some ([], line :: lines)
      | some (width, content) => do
        let (item, rest) ←
          if content.isEmpty then readNested fuel indent lines
          else readNode fuel (⟨indent + width, content⟩ :: lines)
        let (items, after) ← readItems fuel indent rest
        return (item :: items, after)

def readEntries : (fuel : Nat) → (indent : Nat) → List Line → Option (List (Key × Data) × List Line)
  | 0, _, _ => none
  | _, _, [] => some ([], [])
  | fuel + 1, indent, line :: lines =>
    if line.indent < indent then some ([], line :: lines)
    else if indent < line.indent then none
    else do
      let (key, afterKey) ← readKey line.content
      let content := skipGap afterKey
      let (value, rest) ←
        if content.isEmpty || content.head? == some '#' then readEntryValue fuel indent lines
        else (readInline content).map fun value => (value, lines)
      let (entries, after) ← readEntries fuel indent rest
      return ((key, value) :: entries, after)

/-- The value below a line that has none itself: deeper lines, or null. -/
def readNested : (fuel : Nat) → (indent : Nat) → List Line → Option (Data × List Line)
  | 0, _, _ => none
  | _, _, [] => some (.null, [])
  | fuel + 1, indent, line :: lines =>
    if indent < line.indent then readNode fuel (line :: lines) else some (.null, line :: lines)

/-- Below a key a list may stand without deeper indentation. -/
def readEntryValue : (fuel : Nat) → (indent : Nat) → List Line → Option (Data × List Line)
  | 0, _, _ => none
  | _, _, [] => some (.null, [])
  | fuel + 1, indent, line :: lines =>
    if line.indent == indent && (itemContent? line.content).isSome then
      (readItems fuel indent (line :: lines)).map fun (items, rest) => (.list items, rest)
    else readNested fuel indent (line :: lines)

end

/-- A document may begin with a line of three dashes. -/
def dropStart : List Line → List Line
  | ⟨0, ['-', '-', '-']⟩ :: lines => lines
  | lines => lines

/-- Controls other than tab and line ends have no place in a document. -/
def isAllowed (c : Char) : Bool :=
  let n := c.toNat
  n == 9 || n == 10 || n == 13 || (32 ≤ n && n ≤ 126) || n == 0x85 || (0xA0 ≤ n && n ≤ 0xFFFD) ||
    0x10000 ≤ n

def dropByteOrderMark : Text → Text
  | [] => []
  | c :: rest => if c.toNat == 0xFEFF then rest else c :: rest

def readDocument (text : Text) : Option Data :=
  match skipFlow false text with
  | '[' :: rest => flowDocument ('[' :: rest)
  | '{' :: rest => flowDocument ('{' :: rest)
  | _ => do
    let lines ← significantLines text
    match readNode (3 * (text.length + lines.length) + 3) (dropStart lines) with
    | some (value, []) => some value
    | _ => none
where
  /-- A document that is one collection in brackets. -/
  flowDocument (text : Text) : Option Data :=
    match readFlowFrom text with
    | some (value, rest) => if (skipFlow false rest).isEmpty then some value else none
    | none => none

/-- Reads a whole document; an empty one is null. -/
def read (text : Text) : Except ReadError Data := do
  let data ← Json.orMalformed
    (if text.all isAllowed then readDocument (dropByteOrderMark text) else none)
  if Text.digitLimit < data.digits then throw (.integerTooLong data.digits) else return data

end Yaml

end ProgressRules
