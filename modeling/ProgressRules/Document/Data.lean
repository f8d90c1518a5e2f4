import ProgressRules.Binary64.Written

/-! The content of a data document, whatever format it is written in. -/

namespace ProgressRules

/-- The key of an entry; a key that is no text is kept in its written form. -/
inductive Key where
  | text (text : Text)
  | other (written : Text)
deriving DecidableEq, Repr

inductive Data where
  | null
  | bool (value : Bool)
  | integer (value : Int)
  | real (value : Binary64)
  | text (text : Text)
  /-- A day, perhaps with a time. Inside of a collection it is shown as `item`. -/
  | date (text item : Text)
  | list (items : List Data)
  | mapping (entries : List (Key × Data))

inductive ReadError where
  | malformed
  | integerTooLong (digits : Nat)
deriving DecidableEq, Repr

namespace Data

instance : Inhabited Data where
  default := .null

/-- Sets an entry. An entry that is there already keeps its place. -/
def setEntry (entries : List (Key × Data)) (key : Key) (value : Data) : List (Key × Data) :=
  match entries with
  | [] => [(key, value)]
  | (k, v) :: rest => if k = key then (k, value) :: rest else (k, v) :: setEntry rest key value

def setEntries (entries more : List (Key × Data)) : List (Key × Data) :=
  more.foldl (fun set e => setEntry set e.1 e.2) entries

/-- A mapping in which the last of several entries with one key counts. -/
def ofEntries (entries : List (Key × Data)) : Data := .mapping (setEntries [] entries)

def entry? (entries : List (Key × Data)) (name : Text) : Option Data :=
  entries.lookup (.text name)

def isNull : Data → Bool
  | .null => true
  | _ => false

/-- Values that stand for nothing: null, false, zero and all that is empty. -/
def isVacant : Data → Bool
  | .null => true
  | .bool value => !value
  | .integer value => value == 0
  | .real (.finite _ m) => m.units == 0
  | .real _ => false
  | .text t => t.isEmpty
  | .date _ _ => false
  | .list items => items.isEmpty
  | .mapping entries => entries.isEmpty

mutual

def digits : Data → Nat
  | .integer value => (Text.ofNat value.natAbs).length
  | .list items => digitsOfItems items
  | .mapping entries => digitsOfEntries entries
  | _ => 0

def digitsOfItems : List Data → Nat
  | [] => 0
  | item :: items => Nat.max (digits item) (digitsOfItems items)

def digitsOfEntries : List (Key × Data) → Nat
  | [] => 0
  | (_, value) :: entries => Nat.max (digits value) (digitsOfEntries entries)

end

def integerText (n : Int) : Text := Binary64.signed (n < 0) (Text.ofNat n.natAbs)

def boolText (value : Bool) : Text := if value then "True".toList else "False".toList

end Data

end ProgressRules
