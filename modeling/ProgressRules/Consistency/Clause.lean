import ProgressRules.Consistency.Constraint

/-! Clauses, of which at least one literal has to hold. A constraint is stated by clauses:
each part of a disjunction that is no literal gets an unknown of its own, which is one if the
part is chosen, and the clauses of the part are guarded by the literal that it is not chosen.
The clauses can be met exactly if the constraint can. -/

namespace ProgressRules

abbrev Clause := List Literal

namespace Clause

def Holds (clause : Clause) (assignment : Nat → Rat) : Prop :=
  ∃ l ∈ clause, l.Holds assignment

def unknowns (clause : Clause) : List Nat := clause.map Literal.unknown

end Clause

namespace Literal

def chosen (unknown : Nat) : Literal := ⟨unknown, .eq, 1⟩

end Literal

/-- Some clauses, and the number of the next unknown that they do not use. -/
structure Statement where
  clauses : List Clause
  next : Nat
deriving DecidableEq

namespace Constraint

mutual

/-- States that the constraint or a literal of the guard holds. -/
def state (guard : Clause) (next : Nat) : Constraint → Statement
  | .literal l => ⟨[guard ++ [l]], next⟩
  | .all parts => stateAll guard next parts
  | .any parts =>
    let (literals, more) := stateAny next parts
    ⟨(guard ++ literals) :: more.clauses, more.next⟩

def stateAll (guard : Clause) (next : Nat) : List Constraint → Statement
  | [] => ⟨[], next⟩
  | part :: parts =>
    let first := state guard next part
    let others := stateAll guard first.next parts
    ⟨first.clauses ++ others.clauses, others.next⟩

/-- A literal for each part, and what has to hold if a part is chosen. -/
def stateAny (next : Nat) : List Constraint → Clause × Statement
  | [] => ([], ⟨[], next⟩)
  | .literal l :: parts =>
    let (literals, others) := stateAny next parts
    (l :: literals, others)
  | part :: parts =>
    let first := state [(Literal.chosen next).opposite] (next + 1) part
    let (literals, others) := stateAny first.next parts
    (.chosen next :: literals, ⟨first.clauses ++ others.clauses, others.next⟩)

end

end Constraint

end ProgressRules
