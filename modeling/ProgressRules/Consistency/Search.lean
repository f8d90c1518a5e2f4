import ProgressRules.Consistency.Box

/-! Search for values that meet all clauses. A clause of which one literal is left forces it;
if no clause does, a literal is tried and then its opposite. A refutation tells which unknowns
it rests on, so that a literal of any other unknown need not be tried again. -/

namespace ProgressRules

inductive Outcome where
  /-- All points of the box meet the clauses. -/
  | solved (box : Box)
  /-- No assignment whose values for these unknowns are left in the box meets the clauses. -/
  | refuted (grounds : List Nat)

namespace Outcome

/-- Tries something else if the first outcome is a refutation that rests on the unknown. -/
def orElse (first : Outcome) (unknown : Nat) (second : Unit → Outcome) : Outcome :=
  match first with
  | .solved box => .solved box
  | .refuted grounds =>
    if grounds.contains unknown then
      match second () with
      | .solved box => .solved box
      | .refuted others =>
        .refuted (if others.contains unknown then (grounds ++ others).eraseDups else others)
    else .refuted grounds

/-- What rests on a forced literal also rests on the clause that forces it. -/
def explain (forced : List (Clause × Literal)) : Outcome → Outcome
  | .solved box => .solved box
  | .refuted grounds =>
    let causes := forced.filter fun f => grounds.contains f.2.unknown
    .refuted (grounds ++ causes.flatMap (·.1.unknowns)).eraseDups

end Outcome

structure Pending where
  clause : Clause
  allowed : Clause

namespace Pending

def of? (box : Box) (clause : Clause) : Option Pending :=
  if clause.any box.implies then none else some ⟨clause, clause.filter box.allows⟩

def forced? (box : Box) (p : Pending) : Option (Clause × Literal) :=
  match p.allowed with
  | [l] => if box.splits l then some (p.clause, l) else none
  | _ => none

/-- The literals that are worth a try: those of the most frequent unknown in the shortest of
the clauses that are left. -/
def promising (pending : List Pending) : List Literal :=
  let lengths := pending.map (·.allowed.length)
  let shortest := pending.filter fun p => some p.allowed.length == lengths.min?
  let literals := shortest.flatMap (·.allowed)
  let unknowns := literals.map Literal.unknown
  let frequent := unknowns.eraseDups.maxOn? (unknowns.count ·)
  literals.filter fun l => some l.unknown == frequent

def choices (pending : List Pending) : List Literal :=
  promising pending ++ pending.flatMap (·.allowed)

end Pending

theorem splits_of_mem_forced {box : Box} {pending : List Pending} {f : Clause × Literal}
    (h : f ∈ pending.filterMap (Pending.forced? box)) : box.splits f.2 = true := by
  obtain ⟨p, -, hp⟩ := List.mem_filterMap.1 h
  unfold Pending.forced? at hp
  split at hp
  · split at hp
    · obtain rfl := Option.some.inj hp
      assumption
    · cases hp
  · cases hp

/-- Searches a box for a box all of whose points meet the clauses. -/
def solve (box : Box) (clauses : List Clause) : Outcome :=
  let pending := clauses.filterMap (Pending.of? box)
  let rest := pending.map Pending.clause
  match pending.find? (·.allowed.isEmpty) with
  | some lost => .refuted lost.clause.unknowns
  | none =>
    match found : pending.filterMap (Pending.forced? box) with
    | f :: fs =>
      have splits := splits_of_mem_forced (found ▸ List.mem_cons_self)
      have := Box.size_foldl_force_lt splits (fs.map (·.2))
      (solve ((f.2 :: fs.map (·.2)).foldl Box.force box) rest).explain (f :: fs)
    | [] =>
      match chosen : (Pending.choices pending).find? box.splits with
      | none => .solved box
      | some l =>
        have := Box.size_assume_lt (List.find?_some chosen)
        have := Box.size_exclude_lt (List.find?_some chosen)
        (solve (box.assume l) rest).orElse l.unknown fun _ => solve (box.exclude l) rest
termination_by box.size

/-- Searches all values of the unknowns below a number, and of those that stand for choices. -/
def Constraint.solve (size : Nat) (goal : Constraint) : Outcome :=
  let statement := goal.state [] size
  ProgressRules.solve (.ofClauses statement.next statement.clauses) statement.clauses

end ProgressRules
