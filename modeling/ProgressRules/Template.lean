import ProgressRules.Binary64.Literal
import ProgressRules.Text.Quoted

/-! Replacement templates. A text without a backslash stands for itself. A backslash starts
an escape: a control character, a character by its octal code, or a reference to the whole
match. A template is read one mark ahead, so a backslash at its very end is found before the
mark in front of it is looked at. -/

namespace ProgressRules

inductive TemplateError where
  /-- A fault at a position of the template, with the line and column if it has several lines. -/
  | fault (cause : Text) (position : Nat) (lines : Option (Nat × Nat))
  | unknownName (name : Text)
deriving DecidableEq, Repr

namespace TemplateError

def message : TemplateError → Text
  | .fault cause position none => cause ++ " at position ".toList ++ Text.ofNat position
  | .fault cause position (some (line, column)) =>
    cause ++ " at position ".toList ++ Text.ofNat position ++ " (line ".toList ++
      Text.ofNat line ++ ", column ".toList ++ Text.ofNat column ++ [')']
  | .unknownName name => "unknown group name ".toList ++ Text.quoted name

end TemplateError

namespace Template

/-- A template is a sequence of characters and places for the whole match. -/
inductive Piece where
  | literal (c : Char)
  | wholeMatch
deriving DecidableEq, Repr

def expand (pieces : List Piece) (wholeMatch : Text) : Text :=
  pieces.flatMap fun
    | .literal c => [c]
    | .wholeMatch => wholeMatch

/-- The marks of a template: characters, escaped characters, and a backslash at the end. -/
inductive Mark where
  | plain (c : Char)
  | escaped (c : Char)
  | lone
deriving DecidableEq, Repr

def Mark.text : Mark → Text
  | .plain c => [c]
  | .escaped c => [Text.backslash, c]
  | .lone => [Text.backslash]

def marksFrom (position : Nat) : Text → List (Nat × Mark)
  | [] => []
  | [c] => [(position, if c = Text.backslash then .lone else .plain c)]
  | c :: d :: rest =>
    if c = Text.backslash then (position, .escaped d) :: marksFrom (position + 2) rest
    else (position, .plain c) :: marksFrom (position + 1) (d :: rest)

def faultAt (template : Text) (cause : Text) (position : Nat) : TemplateError :=
  let before := template.take position
  let lines := before.filter (· == Text.newline)
  let column := (before.reverse.takeWhile (· != Text.newline)).length + 1
  .fault cause position
    (if template.contains Text.newline then some (lines.length + 1, column) else none)

def position (template : Text) : List (Nat × Mark) → Nat
  | (p, _) :: _ => p
  | [] => template.length

def advance (template : Text) : List (Nat × Mark) → Except TemplateError (List (Nat × Mark))
  | _ :: (p, .lone) :: _ => .error (faultAt template "bad escape (end of pattern)".toList p)
  | _ :: rest => .ok rest
  | [] => .ok []

def readName (template : Text) (name : Text) :
    List (Nat × Mark) → Except TemplateError (Text × List (Nat × Mark))
  | [] =>
    .error (if name.isEmpty then faultAt template "missing group name".toList template.length
      else faultAt template "missing >, unterminated name".toList (template.length - name.length))
  | (p, mark) :: rest => do
    let _ ← advance template ((p, mark) :: rest)
    if mark = .plain '>' then
      if name.isEmpty then
        throw (faultAt template "missing group name".toList (position template rest - 1))
      else return (name, rest)
    else readName template (name ++ mark.text) rest

/-- The number of a reference: an integer literal that is not negative and not too long. -/
def groupNumber? (name : Text) : Option Nat :=
  let (negative, digits) := Binary64.readSign (Text.trimSpace name)
  match Text.digitRun false digits with
  | (d :: ds, []) =>
    if Text.digitLimit < (d :: ds).length then none
    else
      let n := Text.natValue (d :: ds)
      if negative && n != 0 then none else some n
  | _ => none

/-- A template has no groups, so only the reference with number zero has a meaning. -/
def reference (template : Text) (number place : Nat) : Except TemplateError Piece :=
  if number = 0 then .ok .wholeMatch
  else .error (faultAt template ("invalid group reference ".toList ++ Text.ofNat number) place)

def readReference (template : Text) (marks : List (Nat × Mark)) :
    Except TemplateError (Piece × List (Nat × Mark)) := do
  match marks with
  | (_, .plain '<') :: _ =>
    let (name, rest) ← readName template [] (← advance template marks)
    let start := position template rest - (name.length + 1)
    if Text.isIdentifier name then throw (.unknownName name)
    match groupNumber? name with
    | none => throw (faultAt template ("bad character in group name ".toList ++ Text.quoted name) start)
    | some number => return (← reference template number start, rest)
  | _ => throw (faultAt template "missing <".toList (position template marks))

def isOctal (c : Char) : Bool := '0' ≤ c && c ≤ '7'

def isDecimal (c : Char) : Bool := '0' ≤ c && c ≤ '9'

def octalValue (digits : Text) : Nat := digits.foldl (fun n c => 8 * n + (c.toNat - 48)) 0

def takePlain? (template : Text) (p : Char → Bool) (marks : List (Nat × Mark)) :
    Except TemplateError (Option Char × List (Nat × Mark)) :=
  match marks with
  | (_, .plain c) :: _ =>
    if p c then do return (some c, ← advance template marks) else .ok (none, marks)
  | _ => .ok (none, marks)

/-- A zero and at most two more octal digits, of whose value the low eight bits count. -/
def readZero (template : Text) (marks : List (Nat × Mark)) :
    Except TemplateError (Piece × List (Nat × Mark)) := do
  let (first, marks) ← takePlain? template isOctal marks
  let (second, marks) ← if first.isSome then takePlain? template isOctal marks else pure (none, marks)
  return (.literal (Char.ofNat (octalValue (first.toList ++ second.toList) % 256)), marks)

/-- Three octal digits are a character, and fewer digits a reference by number. -/
def readDigits (template : Text) (c : Char) (marks : List (Nat × Mark)) :
    Except TemplateError (Piece × List (Nat × Mark)) := do
  let (second, marks) ← takePlain? template isDecimal marks
  let (third, marks) ←
    if isOctal c && second.any isOctal then takePlain? template isOctal marks
    else pure (none, marks)
  let digits := c :: second.toList ++ third.toList
  if third.isSome then
    if 255 < octalValue digits then
      throw (faultAt template ("octal escape value ".toList ++ Text.backslash :: digits ++
        " outside of range 0-0o377".toList) (position template marks - (digits.length + 1)))
    return (.literal (Char.ofNat (octalValue digits)), marks)
  else
    return (← reference template (Text.natValue digits) (position template marks - digits.length), marks)

def controlCharacter? : Char → Option Char
  | 'a' => some (Char.ofNat 7)
  | 'b' => some (Char.ofNat 8)
  | 'f' => some (Char.ofNat 12)
  | 'n' => some (Char.ofNat 10)
  | 'r' => some (Char.ofNat 13)
  | 't' => some (Char.ofNat 9)
  | 'v' => some (Char.ofNat 11)
  | c => if c = Text.backslash then some c else none

/-- A letter without a meaning is refused; any other escaped character stands for itself and
keeps its backslash. -/
def readEscape (template : Text) (start : Nat) (c : Char) (marks : List (Nat × Mark)) :
    Except TemplateError (List Piece × List (Nat × Mark)) := do
  if c = 'g' then
    let (piece, rest) ← readReference template marks
    return ([piece], rest)
  else if c = '0' then
    let (piece, rest) ← readZero template marks
    return ([piece], rest)
  else if isDecimal c then
    let (piece, rest) ← readDigits template c marks
    return ([piece], rest)
  else
    match controlCharacter? c with
    | some control => return ([.literal control], marks)
    | none =>
      if c.isAlpha then
        throw (faultAt template ("bad escape ".toList ++ [Text.backslash, c]) start)
      else return ([.literal Text.backslash, .literal c], marks)

def readPieces (template : Text) (marks : List (Nat × Mark)) :
    Except TemplateError (List Piece × List (Nat × Mark)) := do
  let rest ← advance template marks
  match marks with
  | (start, .escaped c) :: _ => readEscape template start c rest
  | (_, .plain c) :: _ => return ([.literal c], rest)
  | _ => return ([], rest)

def readFrom (template : Text) (marks : List (Nat × Mark)) : Except TemplateError (List Piece) :=
  if marks.isEmpty then .ok []
  else
    match readPieces template marks with
    | .error e => .error e
    | .ok (pieces, rest) =>
      if rest.length < marks.length then (readFrom template rest).map (pieces ++ ·)
      else .ok pieces
termination_by marks.length

def read (template : Text) : Except TemplateError (List Piece) :=
  if template.contains Text.backslash then readFrom template (marksFrom 0 template)
  else .ok (template.map .literal)

end Template

end ProgressRules
