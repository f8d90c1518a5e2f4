import ProgressRules.Text.Classes

/-! Reading a text from the left: literals, trimming, word boundaries, and the three ways
to treat all matches of a reader in one pass, which edit, collect or split at them.
A pass keeps a count of characters still to be skipped, so it recurses on the text. -/

namespace ProgressRules

namespace Text

def ofNat (n : Nat) : Text := Nat.toDigits 10 n

def natValue (text : Text) : Nat :=
  (text.filterMap digitValue?).foldl (fun n d => 10 * n + d) 0

/-- An integer literal may have at most so many digits. -/
def digitLimit : Nat := 4300

/-- A reader of some item at the beginning of a text, which also gives what follows it. -/
abbrev Reader (α : Type) := Text → Option (α × Text)

def run (p : Char → Bool) : Reader Text := fun text =>
  if (text.takeWhile p).isEmpty then none else some (text.takeWhile p, text.dropWhile p)

def manyUpTo {α : Type} (reader : Reader α) : (limit : Nat) → Text → List α × Text
  | 0, text => ([], text)
  | limit + 1, text =>
    match reader text with
    | some (item, rest) =>
      let (items, after) := manyUpTo reader limit rest
      (item :: items, after)
    | none => ([], text)

/-- As many items in a row as the reader finds. Every item takes a character, so the length of
the text bounds their number. -/
def many {α : Type} (reader : Reader α) (text : Text) : List α × Text :=
  manyUpTo reader text.length text

def dropLiteral? : (word text : Text) → Option Text
  | [], text => some text
  | w :: word, c :: text => if w = c then dropLiteral? word text else none
  | _ :: _, [] => none

def startsWith (word text : Text) : Bool := (dropLiteral? word text).isSome

def hasPart (word : Text) : Text → Bool
  | [] => word.isEmpty
  | c :: text => startsWith word (c :: text) || hasPart word text

def trimStart (text : Text) : Text := text.dropWhile isBlank

def trimEnd (text : Text) : Text := (text.reverse.dropWhile isBlank).reverse

def trim (text : Text) : Text := trimEnd (trimStart text)

/-- What is left between white space; information separators are not taken away. -/
def trimSpace (text : Text) : Text :=
  ((text.dropWhile isSpace).reverse.dropWhile isSpace).reverse

def blankOnly (text : Text) : Bool := text.all isBlank

def joinWith (separator : Text) (parts : List Text) : Text :=
  (parts.intersperse separator).flatten

def isWordAt (c : Option Char) : Bool := c.any isWord

/-- A word character on exactly one side; the ends of a text count as no word character. -/
def boundary (before after : Option Char) : Bool := isWordAt before != isWordAt after

def dropDelimited? (word : Text) (before : Option Char) (text : Text) : Option Text :=
  match dropLiteral? word text with
  | some rest =>
    if boundary before word.head? && boundary word.getLast? rest.head? then some rest else none
  | none => none

/-- A part of a text that is to be replaced: its length and what is written for it. -/
structure Edit where
  size : Nat
  written : Text
deriving DecidableEq, Repr

/-- Decides, from the character before a place and the text from there on, what to edit there. -/
abbrev EditRule := Option Char → Text → Option Edit

def Edit.upTo (text rest written : Text) : Edit := ⟨text.length - rest.length, written⟩

def editFrom (rule : EditRule) : Option Char → Nat → Text → Text
  | _, _, [] => []
  | _, skip + 1, c :: rest => editFrom rule (some c) skip rest
  | before, 0, c :: rest =>
    match rule before (c :: rest) with
    | some ⟨size + 1, written⟩ => written ++ editFrom rule (some c) size rest
    | _ => c :: editFrom rule (some c) 0 rest

/-- Applies the edits from left to right; edited parts do not overlap and are not read again. -/
def editAll (rule : EditRule) (text : Text) : Text := editFrom rule none 0 text

def replaceWord (word written : Text) : Text → Text :=
  editAll fun before text =>
    (dropDelimited? word before text).map (Edit.upTo text · written)

def collectFrom {α : Type} (reader : Reader α) : Nat → Text → List α
  | _, [] => []
  | skip + 1, _ :: rest => collectFrom reader skip rest
  | 0, c :: rest =>
    match reader (c :: rest) with
    | some (item, after) => item :: collectFrom reader (rest.length - after.length) rest
    | none => collectFrom reader 0 rest

def collect {α : Type} (reader : Reader α) (text : Text) : List α := collectFrom reader 0 text

def splitFrom (separator : Text → Option Text) : Nat → Text → List Text
  | _, [] => [[]]
  | skip + 1, _ :: rest => splitFrom separator skip rest
  | 0, c :: rest =>
    match separator (c :: rest) with
    | some after => [] :: splitFrom separator (rest.length - after.length) rest
    | none =>
      match splitFrom separator 0 rest with
      | [] => [[c]]
      | part :: parts => (c :: part) :: parts

def partsBetween (separator : Text → Option Text) (text : Text) : List Text :=
  splitFrom separator 0 text

def padded (word : Text) (text : Text) : Option Text :=
  (dropLiteral? word (trimStart text)).map trimStart

end Text

end ProgressRules
