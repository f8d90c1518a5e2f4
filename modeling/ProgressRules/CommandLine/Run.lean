import ProgressRules.CommandLine.Arguments
import ProgressRules.CommandLine.Summary
import ProgressRules.Document.CatalogFile
import ProgressRules.Document.SettingsFile
import ProgressRules.Restoration

/-! The two programs on the command line. One has a command for each task, and shows in its
log what it loads and misses. The other one only converts, in either direction, and writes of
a missing file to the error output. Files are read through a function that the caller supplies,
and so is the YAML in them. -/

namespace ProgressRules

namespace CommandLine

inductive Program where
  | commands
  | converter
deriving DecidableEq, Repr

inductive Command where
  | forward (source : Text)
  | reverse (rule : Text)
  | suggest (typed : Text)
deriving DecidableEq, Repr

structure Request where
  command : Command
  catalog : Option Text
  config : Option Text
deriving DecidableEq, Repr

/-! ### Requests -/

def commandNamed? (name : Text) : Option (List Flag × (Text → Command)) :=
  if name = "forward".toList then some ([.help, .catalog, .config], .forward)
  else if name = "reverse".toList then some ([.help, .config], .reverse)
  else if name = "suggest".toList then some ([.help, .catalog, .config], .suggest)
  else none

def withArguments (command : Arguments → Command) :
    Arguments.Reading Arguments → Arguments.Reading Request
  | .help => .help
  | .wrong => .wrong
  | .read a => .read ⟨command a, a.catalog, a.config⟩

/-- Reads a command and its arguments. An unknown flag in front of the command spoils the
request, but not a question for help. -/
def readCommand (stray : Bool) : List Text → Arguments.Reading Request
  | [] => .wrong
  | argument :: arguments =>
    match Arguments.Part.of [.help] argument with
    | .flag _ none => .help
    | .unknownFlag => readCommand true arguments
    | .operand name =>
      match commandNamed? name with
      | none => .wrong
      | some (flags, command) =>
        match withArguments (fun a => command a.operand) (Arguments.ofList flags arguments) with
        | .read request => if stray then .wrong else .read request
        | reading => reading
    | _ => .wrong

def readConversion (arguments : List Text) : Arguments.Reading Request :=
  withArguments (fun a => if a.reverse then .reverse a.operand else .forward a.operand)
    (Arguments.ofList [.help, .catalog, .config, .reverse] arguments)

def Program.request : Program → List Text → Arguments.Reading Request
  | .commands => readCommand false
  | .converter => readConversion

/-! ### Files -/

inductive Failure where
  | missingFile (name : Text)
  /-- A null character cannot belong to the name of a file. -/
  | nullInFileName
  | settings (error : SettingsFile.LoadError)
  | catalog (error : CatalogFile.LoadError)
  /-- The settings name a catalog file by a value that is no text. -/
  | catalogNotText (value : Data)
  | separatorNotText
  | progressFieldNotText (value : Data)
  | conversion (error : ConversionError)

def Failure.message : Failure → Text
  | .missingFile name => "File not found: ".toList ++ name
  | .nullInFileName => "embedded null byte".toList
  | .settings _ => "The settings file is not valid".toList
  | .catalog _ => "The catalog file is not valid".toList
  | .catalogNotText _ => "The path of the catalog has to be a text".toList
  | .separatorNotText => "The separator has to be a text".toList
  | .progressFieldNotText _ => "The progress field has to be a text".toList
  | .conversion _ => "The condition cannot be converted".toList

structure Environment where
  settings : SettingsFile
  catalog : Catalog
  log : List Log.Entry

/-- A file that is named by no text at all counts as none. -/
def named : Option Text → Option Text
  | some [] => none
  | name => name

/-- The file that holds the catalog: the one asked for, or else the one in the settings. -/
def catalogFile (request : Request) (settings : SettingsFile) : Except Failure (Option Text) :=
  match named request.catalog with
  | some name => .ok (some name)
  | none =>
    if settings.catalogPath.isVacant then .ok none
    else
      match settings.catalogPath with
      | .text name => .ok (some name)
      | value => .error (.catalogNotText value)

/-- Only the program with commands tells what it has loaded. -/
def loadedLog (program : Program) (catalog : Catalog) (name : Text) : List Log.Entry :=
  match program with
  | .commands => [⟨.info, .commandLine, "Loaded ".toList ++ Text.ofNat catalog.toList.length ++
      " condition variables from ".toList ++ name⟩]
  | .converter => []

section

variable (readYaml : Text → Except ReadError Data)

def readSettings (content : Text) : Except Failure SettingsFile :=
  (SettingsFile.load readYaml content).mapError .settings

def readCatalog (program : Program) (settings : SettingsFile) (name content : Text) :
    Except Failure Environment := do
  let vars ← (CatalogFile.load readYaml name content).mapError .catalog
  let catalog := Catalog.ofList vars
  return ⟨settings, catalog,
    CatalogFile.log name vars ++ loadedLog program catalog name⟩

variable {m : Type → Type} [Monad m] (readFile : Text → m (Option Text))

def contentOf (name : Text) : m (Except Failure Text) := do
  if name.contains (Char.ofNat 0) then return .error .nullInFileName
  match ← readFile name with
  | some content => return .ok content
  | none => return .error (.missingFile name)

def loadSettings (request : Request) : m (Except Failure SettingsFile) := do
  match named request.config with
  | none => return .ok .default
  | some name => return (← contentOf readFile name).bind (readSettings readYaml)

def load (program : Program) (request : Request) : m (Except Failure Environment) := do
  match ← loadSettings readYaml readFile request with
  | .error failure => return .error failure
  | .ok settings =>
    match catalogFile request settings with
    | .error failure => return .error failure
    | .ok none => return .ok ⟨settings, .default, []⟩
    | .ok (some name) =>
      return (← contentOf readFile name).bind (readCatalog readYaml program settings name)

end

/-! ### Answers -/

structure Outcome where
  exitCode : Nat
  output : Text
  errorOutput : Text
  log : List Log.Entry
deriving DecidableEq, Repr

namespace Outcome

def done (line : Text) (log : List Log.Entry) : Outcome :=
  ⟨0, line ++ [Text.newline], [], Log.shown log⟩

end Outcome

def noFormula : Log.Entry :=
  ⟨.info, .commandLine,
    "Could not derive a percentage formula; showing the boolean rule only".toList⟩

def conversionLog (program : Program) (settings : Settings) (catalog : Catalog) (c : Conversion) :
    List Log.Entry :=
  c.log settings catalog ++
    (if program = .commands && !c.convertible then [noFormula] else [])

/-- The separator is needed for every text that is not blank. -/
def checkSeparator (settings : SettingsFile) (source : Text) : Except Failure Unit :=
  if Text.blankOnly source || (SettingsFile.text? settings.separator).isSome then .ok ()
  else .error .separatorNotText

/-- The progress field is needed for every rule that is not blank. -/
def checkProgressField (settings : SettingsFile) (rule : Text) : Except Failure Unit :=
  if Text.blankOnly rule || (SettingsFile.text? settings.progressField).isSome then .ok ()
  else .error (.progressFieldNotText settings.progressField)

def perform (program : Program) (env : Environment) : Command → Except Failure Outcome
  | .forward source => do
    let settings := env.settings.settings
    let c ← (convert settings env.catalog source).mapError .conversion
    checkSeparator env.settings source
    return .done (Json.render 0 (Summary.ofConversion c))
      (env.log ++ conversionLog program settings env.catalog c)
  | .reverse rule => do
    checkProgressField env.settings rule
    return .done (restore env.settings.settings.progressField rule) env.log
  | .suggest typed =>
    return .done (Json.render 0 (Summary.ofItems (Completion.suggest env.catalog typed))) env.log

/-- A missing file is reported by exit code 1. -/
def report (program : Program) : Except Failure Outcome → Except Failure Outcome
  | .error (.missingFile name) =>
    let message := (Failure.missingFile name).message
    match program with
    | .commands => .ok ⟨1, [], [], [⟨.error, .commandLine, message⟩]⟩
    | .converter => .ok ⟨1, [], message ++ [Text.newline], []⟩
  | result => result

def usage : Program → Text
  | .commands => "usage: (forward | reverse | suggest) TEXT [--catalog FILE] [--config FILE]".toList
  | .converter => "usage: TEXT [--catalog FILE] [--config FILE] [--reverse]".toList

/-- Runs a program. Wrong arguments are reported by exit code 2. -/
def run {m : Type → Type} [Monad m] (readYaml : Text → Except ReadError Data)
    (readFile : Text → m (Option Text)) (program : Program) (arguments : List Text) :
    m (Except Failure Outcome) := do
  match program.request arguments with
  | .help => return .ok (.done (usage program) [])
  | .wrong => return .ok ⟨2, [], usage program ++ [Text.newline], []⟩
  | .read request =>
    let loaded ← load readYaml readFile program request
    return report program (loaded.bind fun env => perform program env request.command)

end CommandLine

end ProgressRules
