/-! Comparisons of unknown rationals with given ones. The unknowns are numbered, and an
assignment gives each number a value. -/

namespace ProgressRules

inductive Relation where
  | ge
  | le
  | gt
  | lt
  | eq
  | ne
deriving DecidableEq, Repr

namespace Relation

def Holds (r : Relation) (x q : Rat) : Prop :=
  match r with
  | .ge => q ≤ x
  | .le => x ≤ q
  | .gt => q < x
  | .lt => x < q
  | .eq => x = q
  | .ne => x ≠ q

instance (r : Relation) (x q : Rat) : Decidable (r.Holds x q) :=
  match r with
  | .ge => inferInstanceAs (Decidable (q ≤ x))
  | .le => inferInstanceAs (Decidable (x ≤ q))
  | .gt => inferInstanceAs (Decidable (q < x))
  | .lt => inferInstanceAs (Decidable (x < q))
  | .eq => inferInstanceAs (Decidable (x = q))
  | .ne => inferInstanceAs (Decidable (x ≠ q))

def opposite : Relation → Relation
  | .ge => .lt
  | .le => .gt
  | .gt => .le
  | .lt => .ge
  | .eq => .ne
  | .ne => .eq

theorem holds_opposite (r : Relation) (x q : Rat) : r.opposite.Holds x q ↔ ¬ r.Holds x q := by
  cases r <;> simp [opposite, Holds, Rat.not_le, Rat.not_lt]

end Relation

structure Literal where
  unknown : Nat
  relation : Relation
  value : Rat
deriving DecidableEq

namespace Literal

def Holds (l : Literal) (assignment : Nat → Rat) : Prop :=
  l.relation.Holds (assignment l.unknown) l.value

def opposite (l : Literal) : Literal := { l with relation := l.relation.opposite }

def admits (l : Literal) (x : Rat) : Bool := decide (l.relation.Holds x l.value)

end Literal

end ProgressRules
