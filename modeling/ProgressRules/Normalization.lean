import ProgressRules.Catalog
import ProgressRules.Template

/-! From the authoring language to the rule language. Free occurrences of the roots of the
catalog get the mark `#`, and the words for operators and truth values are replaced. -/

namespace ProgressRules

namespace Normalization

/-- After one of these a root is marked already, a member or quoted. -/
def blocksMark (before : Option Char) : Bool :=
  before.any fun c => c == '#' || c == '.' || c == Text.apostrophe || c == Text.doubleQuote

/-- An empty root stands at every word boundary. -/
def markBoundaries (before : Option Char) : Text → Text
  | [] => if Text.boundary before none && !blocksMark before then ['#'] else []
  | c :: rest =>
    if Text.boundary before (some c) && !blocksMark before then
      '#' :: c :: markBoundaries (some c) rest
    else c :: markBoundaries (some c) rest

def markEdit (root : Text) (pieces : List Template.Piece) : Text.EditRule := fun before text =>
  if blocksMark before then none
  else (Text.dropDelimited? root before text).map fun rest =>
    Text.Edit.upTo text rest (Template.expand pieces root)

/-- Marks the free occurrences of one root. The marked root is read as a template, so a root
with a backslash may be refused. -/
def markRoot (root text : Text) : Except TemplateError Text := do
  let pieces ← Template.read ('#' :: root)
  return if root.isEmpty then markBoundaries none text
    else Text.editAll (markEdit root pieces) text

/-- Marks root after root, each in the text that the one before it left. -/
def markRoots (roots : List Text) (text : Text) : Except TemplateError Text :=
  roots.foldlM (fun text root => markRoot root text) text

def markVariables (vars : List Variable) (text : Text) : Except TemplateError Text :=
  markRoots (rootsOf vars) text

/-- The word `not` and the blanks after it, of which there must be one. -/
def negationEdit : Text.EditRule := fun before text =>
  match Text.dropLiteral? "not".toList text with
  | some (c :: rest) =>
    if Text.isBlank c && !Text.isWordAt before then
      some (.upTo text (Text.trimStart (c :: rest)) ['!'])
    else none
  | _ => none

def replaceOperators (text : Text) : Text :=
  Text.replaceWord "False".toList "false".toList <|
  Text.replaceWord "True".toList "true".toList <|
  Text.editAll negationEdit <|
  Text.replaceWord "or".toList "||".toList <|
  Text.replaceWord "and".toList "&&".toList text

end Normalization

open Normalization in
def normalize (vars : List Variable) (source : Text) : Except TemplateError Text :=
  if Text.blankOnly source then .ok []
  else (markVariables vars source).map replaceOperators

end ProgressRules
