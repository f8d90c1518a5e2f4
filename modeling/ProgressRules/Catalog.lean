import ProgressRules.Comparison
import ProgressRules.Log

/-! The catalog of the variables that a condition may use. It keeps the first variable of
each path in the order of arrival. -/

namespace ProgressRules

structure Variable where
  path : Text
  description : Text
  declaredType : Text
deriving DecidableEq, Repr

namespace Variable

def ofPath (path : Text) : Variable := ⟨path, [], "number".toList⟩

def withoutMark : Text → Text
  | '#' :: rest => rest
  | text => text

/-- The leading word of a path, blanks and one mark before it aside. A path without one is
its own root. -/
def rootOf (path : Text) : Text :=
  match Text.run Text.isWord (withoutMark (Text.trimStart path)) with
  | some (word, _) => word
  | none => Text.trim path

def root (v : Variable) : Text := rootOf v.path

end Variable

def rootsOf (vars : List Variable) : List Text := (vars.map Variable.root).eraseDups

structure Catalog where
  toList : List Variable
  paths_nodup : (toList.map Variable.path).Nodup

namespace Catalog

def paths (catalog : Catalog) : List Text := catalog.toList.map Variable.path

def roots (catalog : Catalog) : List Text := rootsOf catalog.toList

def empty : Catalog := ⟨[], by simp⟩

def insertIfNew (catalog : Catalog) (v : Variable) : Catalog :=
  if h : v.path ∈ catalog.toList.map Variable.path then catalog
  else
    ⟨catalog.toList ++ [v], by
      rw [List.map_append, List.nodup_append]
      refine ⟨catalog.paths_nodup, by simp, ?_⟩
      intro a ha b hb
      simp only [List.map_cons, List.map_nil, List.mem_singleton] at hb
      subst hb
      intro hab
      exact h (hab ▸ ha)⟩

def ofList (vars : List Variable) : Catalog := vars.foldl insertIfNew empty

def duplicates (seen : List Text) : List Variable → List Variable
  | [] => []
  | v :: rest =>
    if v.path ∈ seen then v :: duplicates seen rest
    else duplicates (v.path :: seen) rest

def integrityLog (vars : List Variable) : List Log.Entry :=
  (duplicates [] vars).map fun v =>
    ⟨.warning, .catalog,
      "Catalog integrity: duplicate variable path '".toList ++ v.path ++ [Text.apostrophe]⟩

def default : Catalog :=
  ofList [⟨"progressField".toList, "Challenge progress value".toList, "number".toList⟩]

def contains (catalog : Catalog) (path : Text) : Bool := catalog.paths.contains path

def hasRoot (catalog : Catalog) (root : Text) : Bool := catalog.roots.contains root

def dropMarks (text : Text) : Text := text.dropWhile (· == '#')

/-- The variable with the given path; marks in front of the path are ignored. -/
def lookup? (catalog : Catalog) (path : Text) : Option Variable :=
  catalog.toList.find? fun v => v.path == dropMarks path

def matching (catalog : Catalog) (typed : Text) : List Variable :=
  catalog.toList.filter fun v => Text.startsWith (dropMarks typed) v.path

def unknownRoots (catalog : Catalog) (rule : Text) : List Text :=
  (((Text.collect Comparison.read rule).map fun c => Variable.rootOf c.reference).filter
    fun root => !catalog.hasRoot root).eraseDups

/-- The rule is searched as text, so comparisons that carry no mark are seen as well. -/
def unknownReferences (catalog : Catalog) (rule : Text) : List Text :=
  (catalog.unknownRoots rule).map fun root =>
    "Condition references unknown variable '".toList ++ root ++ [Text.apostrophe]

end Catalog

end ProgressRules
