import ProgressRules.Catalog
import ProgressRules.Document.Json

/-! Catalogs written as documents: a list of variables, or a mapping with such a list under
`variables`. A variable has a path, and may have a description and a declared type. YAML is read
by a function that the caller supplies. -/

namespace ProgressRules

namespace CatalogFile

inductive Problem where
  | missing
  | notText
  | notMapping
  | notList
deriving DecidableEq, Repr

/-- A problem with the document itself, with an item of it, or with a field of an item. -/
structure Issue where
  index : Option Nat
  field : Option Text
  problem : Problem
deriving DecidableEq, Repr

/-- A text field. Without a default it has to be there. -/
def readField (index : Option Nat) (entries : List (Key × Data)) (name : Text)
    (default : Option Text) : Except Issue Text :=
  match Data.entry? entries name, default with
  | some (.text t), _ => .ok t
  | some _, _ => .error ⟨index, some name, .notText⟩
  | none, some t => .ok t
  | none, none => .error ⟨index, some name, .missing⟩

/-- The declared type has two names, of which the first one counts if both are there. -/
def typeField (entries : List (Key × Data)) : Text :=
  if (Data.entry? entries "declaredType".toList).isNone &&
      (Data.entry? entries "declared_type".toList).isSome then "declared_type".toList
  else "declaredType".toList

def issueOf : Except Issue Text → List Issue
  | .ok _ => []
  | .error issue => [issue]

def readVariable (index : Option Nat) : Data → Except (List Issue) Variable
  | .mapping entries =>
    let path := readField index entries "path".toList none
    let description := readField index entries "description".toList (some [])
    let declaredType := readField index entries (typeField entries) (some "number".toList)
    match path, description, declaredType with
    | .ok path, .ok description, .ok declaredType => .ok ⟨path, description, declaredType⟩
    | _, _, _ => .error (issueOf path ++ issueOf description ++ issueOf declaredType)
  | _ => .error [⟨index, none, .notMapping⟩]

def readVariables (index : Nat) : List Data → Except (List Issue) (List Variable)
  | [] => .ok []
  | item :: items =>
    match readVariable (some index) item, readVariables (index + 1) items with
    | .ok v, .ok vs => .ok (v :: vs)
    | .ok _, .error issues => .error issues
    | .error issues, .ok _ => .error issues
    | .error issues, .error more => .error (issues ++ more)

/-- A mapping without `variables` has none. -/
def listOf : Data → Data
  | .mapping entries => (Data.entry? entries "variables".toList).getD (.list [])
  | data => data

def ofData (data : Data) : Except (List Issue) (List Variable) :=
  match listOf data with
  | .list items => readVariables 0 items
  | _ => .error [⟨none, none, .notList⟩]

inductive LoadError where
  | malformedJson
  | malformedYaml
  | integerTooLong (digits : Nat)
  | invalid (issues : List Issue)
deriving DecidableEq, Repr

def LoadError.ofReadError (malformed : LoadError) : ReadError → LoadError
  | .malformed => malformed
  | .integerTooLong digits => .integerTooLong digits

def isYaml (name : Text) : Bool :=
  ".yaml".toList.isSuffixOf name || ".yml".toList.isSuffixOf name

section

variable (readYaml : Text → Except ReadError Data)

/-- A vacant YAML document holds an empty list. -/
def readData (name content : Text) : Except LoadError Data :=
  if isYaml name then
    match readYaml content with
    | .ok data => .ok (if data.isVacant then .list [] else data)
    | .error e => .error (.ofReadError .malformedYaml e)
  else (Json.read content).mapError (.ofReadError .malformedJson)

/-- The variables in a file, duplicates included. -/
def load (name content : Text) : Except LoadError (List Variable) := do
  let data ← readData readYaml name content
  (ofData data).mapError .invalid

end

def log (name : Text) (vars : List Variable) : List Log.Entry :=
  Catalog.integrityLog vars ++
    [⟨.debug, .catalog, "Loaded ".toList ++
      Text.ofNat (Catalog.ofList vars).toList.length ++
      " condition variables from ".toList ++ name⟩]

end CatalogFile

end ProgressRules
