import ProgressRules.Text.Classes

/-! Log entries. A computation of the library returns its entries in the order in which
they arise; nothing is printed here. -/

namespace ProgressRules

namespace Log

inductive Level where
  | debug
  | info
  | warning
  | error
deriving DecidableEq, Repr

def Level.name : Level → Text
  | .debug => "DEBUG".toList
  | .info => "INFO".toList
  | .warning => "WARNING".toList
  | .error => "ERROR".toList

inductive Component where
  | catalog
  | decomposition
  | formula
  | pipeline
  | commandLine
deriving DecidableEq, Repr

structure Entry where
  level : Level
  component : Component
  message : Text
deriving DecidableEq, Repr

def shown (entries : List Entry) : List Entry := entries.filter (·.level != .debug)

end Log

end ProgressRules
