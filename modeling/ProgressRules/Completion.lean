import ProgressRules.Catalog

/-! Completion items for a text being typed: the matching variables of the catalog first,
then the keywords of the authoring language. -/

namespace ProgressRules

namespace Completion

inductive Kind where
  | variable
  | keyword
deriving DecidableEq, Repr

structure Item where
  label : Text
  kind : Kind
  insertText : Text
  detail : Text
deriving DecidableEq, Repr

def Kind.name : Kind → Text
  | .variable => "variable".toList
  | .keyword => "keyword".toList

/-- A variable without a description shows its type. -/
def ofVariable (v : Variable) : Item :=
  ⟨v.path, .variable, v.path, if v.description.isEmpty then v.declaredType else v.description⟩

def keyword (label insertText detail : String) : Item :=
  ⟨label.toList, .keyword, insertText.toList, detail.toList⟩

def keywords : List Item := [
  keyword "and" "and" "logical AND (&&)",
  keyword "or" "or" "logical OR (||)",
  keyword "not" "not " "logical NOT (!)",
  keyword "True" "True" "true",
  keyword "False" "False" "false"]

/-- Keywords carry no mark, so they are matched against the text as it was typed. -/
def suggest (catalog : Catalog) (typed : Text) : List Item :=
  (catalog.matching typed).map ofVariable ++
    keywords.filter fun item => Text.startsWith typed item.label

end Completion

end ProgressRules
