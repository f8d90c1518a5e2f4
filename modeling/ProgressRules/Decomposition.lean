import ProgressRules.Comparison
import ProgressRules.Log
import ProgressRules.Text.Quoted

/-! Flat rules: one comparison, or comparisons joined by one operator throughout. A rule
that contains `&&` anywhere is split there and nowhere else. -/

namespace ProgressRules

inductive Combinator where
  | and
  | or
  /-- A rule without a logical operator. -/
  | none
deriving DecidableEq, Repr

structure Decomposition where
  combinator : Combinator
  comparisons : List Comparison
deriving DecidableEq

namespace Decomposition

def failed (d : Decomposition) : Bool := d.comparisons.isEmpty

inductive Outcome where
  | blank
  | comparison (comparison : Comparison)
  | group (combinator : Combinator) (comparisons : List Comparison)
  /-- The first part of a group that is no comparison. -/
  | brokenGroup (combinator : Combinator) (part : Text)
  | unsupported (rule : Text)

def readParts : List Text → Except Text (List Comparison)
  | [] => .ok []
  | part :: parts =>
    match Comparison.ofText? part with
    | some comparison => (readParts parts).map (comparison :: ·)
    | none => .error part

def readGroup (combinator : Combinator) (symbol rule : Text) : Outcome :=
  match readParts (Text.partsBetween (Text.padded symbol) (Text.trim rule)) with
  | .ok comparisons => .group combinator comparisons
  | .error part => .brokenGroup combinator part

def read (rule : Text) : Outcome :=
  if Text.blankOnly rule then .blank
  else
    match Comparison.ofText? rule with
    | some comparison => .comparison comparison
    | none =>
      if Text.hasPart "&&".toList rule then readGroup .and "&&".toList rule
      else if Text.hasPart "||".toList rule then readGroup .or "||".toList rule
      else .unsupported rule

namespace Outcome

def decomposition : Outcome → Decomposition
  | blank | unsupported _ => ⟨.none, []⟩
  | comparison c => ⟨.none, [c]⟩
  | group combinator comparisons => ⟨combinator, comparisons⟩
  | brokenGroup combinator _ => ⟨combinator, []⟩

def groupName : Combinator → Text
  | .and => "AND".toList
  | .or => "OR".toList
  | .none => "NONE".toList

def log : Outcome → List Log.Entry
  | brokenGroup combinator part =>
    [⟨.debug, .decomposition, "Part ".toList ++ Text.quoted part ++ " of ".toList ++
      groupName combinator ++ " group is not a comparison".toList⟩]
  | unsupported rule =>
    [⟨.debug, .decomposition, "Unsupported condition shape: ".toList ++ Text.quoted rule⟩]
  | _ => []

end Outcome

end Decomposition

def decompose (rule : Text) : Decomposition := (Decomposition.read rule).decomposition

end ProgressRules
