import ProgressRules.Document.Data
import ProgressRules.Settings
import ProgressRules.Text.Quoted

/-! Settings written as YAML, which is read by a function that the caller supplies. The values are
kept as they are written and get their meaning when they are used. A setting that is null or
missing has its default. -/

namespace ProgressRules

structure SettingsFile where
  functionPrefix : Data
  binaryCalls : Data
  nested : Data
  progressField : Data
  separator : Data
  checkConsistency : Data
  catalogPath : Data

namespace SettingsFile

inductive Section where
  | transpiler
  | catalog
deriving DecidableEq, Repr

def Section.name : Section → Text
  | .transpiler => "transpiler".toList
  | .catalog => "catalog".toList

def Section.keys : Section → List Text
  | .transpiler => ["function_prefix".toList, "binary_calls".toList, "nested".toList,
      "progress_field".toList, "interpretation_separator".toList, "check_consistency".toList]
  | .catalog => ["path".toList]

/-- The entries that a document is merged into. -/
def Section.defaults : Section → List (Key × Data)
  | .transpiler => [
      (.text "function_prefix".toList, .text []),
      (.text "binary_calls".toList, .bool false),
      (.text "nested".toList, .bool false),
      (.text "progress_field".toList, .text "progressField".toList),
      (.text "interpretation_separator".toList, .text ", ".toList),
      (.text "check_consistency".toList, .bool false)]
  | .catalog => [(.text "path".toList, .null)]

inductive LoadError where
  | malformed
  | integerTooLong (digits : Nat)
  /-- The document or a section of it is no mapping. -/
  | notMapping
  | keyNotText
  | unknownKey (part : Section) (key : Text)
deriving DecidableEq, Repr

def default : SettingsFile where
  functionPrefix := .text Settings.default.functionPrefix
  binaryCalls := .bool Settings.default.binaryCalls
  nested := .bool Settings.default.nested
  progressField := .text Settings.default.progressField
  separator := .text Settings.default.separator
  checkConsistency := .bool Settings.default.checkConsistency
  catalogPath := .null

/-- The entries of a mapping; what is vacant has none. -/
def entriesOf (data : Data) : Except LoadError (List (Key × Data)) :=
  if data.isVacant then .ok []
  else
    match data with
    | .mapping entries => .ok entries
    | _ => .error .notMapping

def isText : Key → Bool
  | .text _ => true
  | .other _ => false

def unknownKey? (part : Section) (entries : List (Key × Data)) : Option Text :=
  entries.findSome? fun (key, _) =>
    match key with
    | .text name => if part.keys.contains name then none else some name
    | .other _ => none

/-- The defaults, in which every entry that is not null is set. -/
def mergeDefaults (entries defaults : List (Key × Data)) : List (Key × Data) :=
  Data.setEntries defaults (entries.filter fun e => !e.2.isNull)

def sectionOf (part : Section) (document : List (Key × Data)) :
    Except LoadError (List (Key × Data)) := do
  let entries ← entriesOf ((Data.entry? document part.name).getD .null)
  let merged := mergeDefaults entries part.defaults
  if merged.any fun e => !isText e.1 then throw .keyNotText
  match unknownKey? part merged with
  | some key => throw (.unknownKey part key)
  | none => return merged

/-- The settings that are made of the entries of two sections. One that is not among them is as in
`default`. -/
def ofSections (transpiler catalog : List (Key × Data)) : SettingsFile :=
  let setting (entries : List (Key × Data)) (name : String) (default : Data) : Data :=
    (Data.entry? entries name.toList).getD default
  { functionPrefix := setting transpiler "function_prefix" default.functionPrefix
    binaryCalls := setting transpiler "binary_calls" default.binaryCalls
    nested := setting transpiler "nested" default.nested
    progressField := setting transpiler "progress_field" default.progressField
    separator := setting transpiler "interpretation_separator" default.separator
    checkConsistency := setting transpiler "check_consistency" default.checkConsistency
    catalogPath := setting catalog "path" default.catalogPath }

def ofData (data : Data) : Except LoadError SettingsFile := do
  let document ← entriesOf data
  let transpiler ← sectionOf .transpiler document
  let catalog ← sectionOf .catalog document
  return ofSections transpiler catalog

def load (readYaml : Text → Except ReadError Data) (content : Text) :
    Except LoadError SettingsFile :=
  match readYaml content with
  | .ok data => ofData data
  | .error .malformed => .error .malformed
  | .error (.integerTooLong digits) => .error (.integerTooLong digits)

/-! ### Settings in use -/

def text? : Data → Option Text
  | .text t => some t
  | _ => none

mutual

/-- A value as it appears inside a text: a text as it is, and all else in its written form. -/
def written : Data → Text
  | .null => "None".toList
  | .bool value => Data.boolText value
  | .integer n => Data.integerText n
  | .real x => x.text
  | .text t => t
  | .date t _ => t
  | .list items => '[' :: Text.joinWith ", ".toList (writtenItems items) ++ [']']
  | .mapping entries => '{' :: Text.joinWith ", ".toList (writtenEntries entries) ++ ['}']

/-- A value as an item of a collection, where texts are quoted. -/
def writtenItem : Data → Text
  | .null => "None".toList
  | .bool value => Data.boolText value
  | .integer n => Data.integerText n
  | .real x => x.text
  | .text t => Text.quoted t
  | .date _ item => item
  | .list items => '[' :: Text.joinWith ", ".toList (writtenItems items) ++ [']']
  | .mapping entries => '{' :: Text.joinWith ", ".toList (writtenEntries entries) ++ ['}']

def writtenItems : List Data → List Text
  | [] => []
  | item :: items => writtenItem item :: writtenItems items

def writtenEntries : List (Key × Data) → List Text
  | [] => []
  | (.text name, value) :: entries =>
    (Text.quoted name ++ ": ".toList ++ writtenItem value) :: writtenEntries entries
  | (.other name, value) :: entries =>
    (name ++ ": ".toList ++ writtenItem value) :: writtenEntries entries

end

/-- Switches are on unless their value is vacant. A progress field or separator that is no
text is replaced by the default. -/
def settings (f : SettingsFile) : Settings where
  functionPrefix := written f.functionPrefix
  binaryCalls := !f.binaryCalls.isVacant
  nested := !f.nested.isVacant
  progressField := (text? f.progressField).getD Settings.default.progressField
  separator := (text? f.separator).getD Settings.default.separator
  checkConsistency := !f.checkConsistency.isVacant

end SettingsFile

end ProgressRules
