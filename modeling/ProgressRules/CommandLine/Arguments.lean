import ProgressRules.Text.Scan

/-! The arguments of a command: one operand, and flags at any place. A flag may be shortened
as long as no other flag begins in the same way. Its value is the next argument or follows an
equals sign. After two dashes alone every argument is an operand. -/

namespace ProgressRules

inductive Flag where
  | help
  | catalog
  | config
  | reverse
deriving DecidableEq, Repr

namespace Flag

def name : Flag → Text
  | .help => "--help".toList
  | .catalog => "--catalog".toList
  | .config => "--config".toList
  | .reverse => "--reverse".toList

def takesValue : Flag → Bool
  | .catalog | .config => true
  | .help | .reverse => false

end Flag

/-- The arguments of a command that were found to be in order. Of several values for one flag
the last one counts. -/
structure Arguments where
  operand : Text
  catalog : Option Text
  config : Option Text
  reverse : Bool
deriving DecidableEq, Repr

namespace Arguments

inductive Part where
  | operand (text : Text)
  | flag (flag : Flag) (value : Option Text)
  | unknownFlag
  /-- The beginning of several flags. -/
  | ambiguousFlag
  | mark
deriving DecidableEq, Repr

def ended : Text → Bool
  | [] => true
  | [c] => c == Text.newline
  | _ => false

/-- A number as an operand; a point needs digits after it. -/
def isNumber (text : Text) : Bool :=
  let digits := text.takeWhile Text.isDigit
  match text.dropWhile Text.isDigit with
  | '.' :: fraction =>
    !(fraction.takeWhile Text.isDigit).isEmpty && ended (fraction.dropWhile Text.isDigit)
  | rest => !digits.isEmpty && ended rest

def isNegativeNumber : Text → Bool
  | '-' :: rest => isNumber rest
  | _ => false

def splitValue (argument : Text) : Text × Option Text :=
  match argument.dropWhile (· != '=') with
  | [] => (argument, none)
  | _ :: value => (argument.takeWhile (· != '='), some value)

/-- An argument in the form of a flag that is none: a negative number and all that contains a
blank are operands. -/
def unmatched (argument : Text) : Part :=
  if isNegativeNumber argument || argument.contains ' ' then .operand argument else .unknownFlag

/-- What follows the short flag for help, unless it only asks for help again. One equals sign
may stand in front of the repeated letters. -/
def shortValue (letters : Text) : Option Text :=
  let repeated := match letters with
    | '=' :: c :: more => c :: more
    | _ => letters
  if repeated.all (· == 'h') then none else some letters

def Part.of (flags : List Flag) (argument : Text) : Part :=
  match argument with
  | ['-'] => .operand argument
  | ['-', '-'] => .mark
  | '-' :: '-' :: _ =>
    let (name, value) := splitValue argument
    match flags.filter fun flag => Text.startsWith name flag.name with
    | [] => unmatched argument
    | [found] => .flag found value
    | _ => .ambiguousFlag
  | '-' :: 'h' :: rest => .flag .help (shortValue rest)
  | '-' :: _ => unmatched argument
  | _ => .operand argument

/-- The parts of all arguments; from two dashes on there are only operands. -/
def parts (flags : List Flag) : List Text → List Part
  | [] => []
  | argument :: arguments =>
    match Part.of flags argument with
    | .mark => .mark :: arguments.map .operand
    | part => part :: parts flags arguments

inductive Reading (α : Type) where
  | help
  | wrong
  | read (value : α)
deriving DecidableEq, Repr

/-- What has been read so far; `stray` tells of an operand or a flag that is too much. -/
structure Progress where
  operand : Option Text
  catalog : Option Text
  config : Option Text
  reverse : Bool
  stray : Bool
deriving DecidableEq, Repr

namespace Progress

def start : Progress := ⟨none, none, none, false, false⟩

def addOperand (p : Progress) (text : Text) : Progress :=
  match p.operand with
  | none => { p with operand := some text }
  | some _ => { p with stray := true }

/-- Two dashes are expected before the operand or right after it. -/
def addMark (p : Progress) : Progress :=
  if p.operand.isSome then { p with stray := true } else p

/-- Two dashes alone are no value. -/
def setValue (p : Progress) (value : Text) (flag : Flag) : Progress :=
  let value := if value = ['-', '-'] then [] else value
  match flag with
  | .catalog => { p with catalog := some value }
  | .config => { p with config := some value }
  | .help | .reverse => p

def finish (p : Progress) : Reading Arguments :=
  match p.operand, p.stray with
  | some operand, false => .read ⟨operand, p.catalog, p.config, p.reverse⟩
  | _, _ => .wrong

end Progress

/-- Reads the parts in order. Help is given where it is asked for, whatever was too much
before. -/
def readParts (p : Progress) : List Part → Reading Arguments
  | [] => p.finish
  | .operand text :: .mark :: rest => readParts (p.addOperand text) rest
  | .operand text :: rest => readParts (p.addOperand text) rest
  | .mark :: rest => readParts p.addMark rest
  | .unknownFlag :: rest => readParts { p with stray := true } rest
  | .ambiguousFlag :: _ => .wrong
  | .flag .help none :: _ => .help
  | .flag .reverse none :: rest => readParts { p with reverse := true } rest
  | .flag f (some value) :: rest =>
    if f.takesValue then readParts (p.setValue value f) rest else .wrong
  | .flag f none :: .operand value :: rest => readParts (p.setValue value f) rest
  | .flag _ none :: _ => .wrong

def ofList (flags : List Flag) (arguments : List Text) : Reading Arguments :=
  if (parts flags arguments).contains .ambiguousFlag then .wrong
  else readParts .start (parts flags arguments)

end Arguments

end ProgressRules
