import Mathlib.Algebra.Order.Field.Rat
import ProgressRules.Consistency.Constraint
import ProgressRules.Consistency.Clause

/-! The clauses of a constraint can be met exactly if the constraint can. What meets the clauses
meets the constraint, and what meets the constraint can be extended to the unknowns that stand
for choices, since these are numbered from `next` on, where nothing else is mentioned. -/

namespace ProgressRules

/-- A property of assignments that does not look at unknowns from a number on. -/
def Local (next : Nat) (P : (Nat → Rat) → Prop) : Prop :=
  ∀ a b : Nat → Rat, (∀ unknown < next, b unknown = a unknown) → P a → P b

theorem Local.or {next : Nat} {P Q : (Nat → Rat) → Prop} (h : Local next P) (h' : Local next Q) :
    Local next fun a => P a ∨ Q a :=
  fun a b same => Or.imp (h a b same) (h' a b same)

theorem Literal.holds_local {l : Literal} {next : Nat} (below : l.unknown < next) :
    Local next l.Holds := by
  intro a b same holds
  rw [Literal.Holds, same _ below]
  exact holds

namespace Clause

def Below (next : Nat) (clause : Clause) : Prop := ∀ l ∈ clause, l.unknown < next

theorem Below.mono {clause : Clause} {next more : Nat} (h : clause.Below next)
    (le : next ≤ more) : clause.Below more :=
  fun l member => (h l member).trans_le le

theorem holds_local {clause : Clause} {next : Nat} (below : clause.Below next) :
    Local next clause.Holds := by
  rintro a b same ⟨l, member, holds⟩
  exact ⟨l, member, Literal.holds_local (below l member) a b same holds⟩

theorem holds_append {first others : Clause} {a : Nat → Rat} :
    Holds (first ++ others) a ↔ first.Holds a ∨ others.Holds a := by
  simp [Holds, or_and_right, exists_or]

theorem holds_cons {l : Literal} {others : Clause} {a : Nat → Rat} :
    Holds (l :: others) a ↔ l.Holds a ∨ others.Holds a := by
  simp [Holds]

theorem not_holds_nil {a : Nat → Rat} : ¬Holds [] a := by
  simp [Holds]

end Clause

namespace Constraint

mutual

def Below (next : Nat) : Constraint → Prop
  | .literal l => l.unknown < next
  | .all parts => AllBelow next parts
  | .any parts => AllBelow next parts

def AllBelow (next : Nat) : List Constraint → Prop
  | [] => True
  | part :: parts => Below next part ∧ AllBelow next parts

end

mutual

theorem Below.mono {next more : Nat} (le : next ≤ more) :
    {c : Constraint} → c.Below next → c.Below more
  | .literal _, h => Nat.lt_of_lt_of_le h le
  | .all _, h => AllBelow.mono le h
  | .any _, h => AllBelow.mono le h

theorem AllBelow.mono {next more : Nat} (le : next ≤ more) :
    {parts : List Constraint} → AllBelow next parts → AllBelow more parts
  | [], _ => trivial
  | _ :: _, h => ⟨Below.mono le h.1, AllBelow.mono le h.2⟩

end

mutual

theorem holds_local {next : Nat} {c : Constraint} (below : c.Below next) :
    Local next fun a => c.Holds a := by
  intro a b same
  match c with
  | .literal l => exact Literal.holds_local below a b same
  | .all parts => exact allHold_local below a b same
  | .any parts => exact anyHolds_local below a b same

theorem allHold_local {next : Nat} {parts : List Constraint} (below : AllBelow next parts) :
    Local next fun a => AllHold a parts := by
  intro a b same
  match parts with
  | [] => exact id
  | part :: parts =>
    exact And.imp (holds_local below.1 a b same) (allHold_local below.2 a b same)

theorem anyHolds_local {next : Nat} {parts : List Constraint} (below : AllBelow next parts) :
    Local next fun a => AnyHolds a parts := by
  intro a b same
  match parts with
  | [] => exact id
  | part :: parts =>
    exact Or.imp (holds_local below.1 a b same) (anyHolds_local below.2 a b same)

end

end Constraint

/-! ### What clauses state -/

namespace Statement

def Met (s : Statement) (a : Nat → Rat) : Prop := ∀ clause ∈ s.clauses, clause.Holds a

/-- The statement can be met exactly where the property of the unknowns below `next` holds. -/
structure Expresses (s : Statement) (next : Nat) (P : (Nat → Rat) → Prop) : Prop where
  le : next ≤ s.next
  below : ∀ clause ∈ s.clauses, clause.Below s.next
  sound : ∀ a, s.Met a → P a
  complete : ∀ a, P a → ∃ b, (∀ unknown < next, b unknown = a unknown) ∧ s.Met b

/-- The statement leaves a literal to hold if the property holds, and only then. -/
structure Offers (s : Statement) (literals : Clause) (next : Nat) (P : (Nat → Rat) → Prop) :
    Prop where
  le : next ≤ s.next
  below : ∀ clause ∈ literals :: s.clauses, clause.Below s.next
  sound : ∀ a, s.Met a → literals.Holds a → P a
  complete : ∀ a, ∃ b, (∀ unknown < next, b unknown = a unknown) ∧ s.Met b ∧
    (P a → literals.Holds b)

variable {s s' : Statement} {next : Nat} {P Q : (Nat → Rat) → Prop} {literals guard : Clause}

theorem met_append {clauses others : List Clause} {a : Nat → Rat} :
    Met ⟨clauses ++ others, next⟩ a ↔ Met ⟨clauses, next⟩ a ∧ Met ⟨others, next⟩ a :=
  List.forall_mem_append

theorem met_local (below : ∀ clause ∈ s.clauses, clause.Below next) : Local next s.Met :=
  fun a b same met clause member =>
    Clause.holds_local (below clause member) a b same (met clause member)

theorem Expresses.congr (h : s.Expresses next P) (same : ∀ a, P a ↔ Q a) : s.Expresses next Q :=
  ⟨h.le, h.below, fun a met => (same a).1 (h.sound a met), fun a q => h.complete a ((same a).2 q)⟩

theorem Expresses.nothing (always : ∀ a, P a) : Expresses ⟨[], next⟩ next P where
  le := le_refl _
  below _ := nofun
  sound a _ := always a
  complete a _ := ⟨a, fun _ _ => rfl, fun _ => nofun⟩

theorem Expresses.clause {l : Literal} (below : guard.Below next) (below' : l.unknown < next) :
    Expresses ⟨[guard ++ [l]], next⟩ next fun a => guard.Holds a ∨ l.Holds a := by
  have same : ∀ a, Met ⟨[guard ++ [l]], next⟩ a ↔ guard.Holds a ∨ l.Holds a := fun a => by
    simp [Met, Clause.holds_append, Clause.holds_cons, Clause.not_holds_nil]
  exact {
    le := le_refl _
    below := List.forall_mem_singleton.2
      (List.forall_mem_append.2 ⟨below, List.forall_mem_singleton.2 below'⟩)
    sound := fun a => (same a).1
    complete := fun a holds => ⟨a, fun _ _ => rfl, (same a).2 holds⟩ }

/-- Statements are made one after the other, each with unknowns of its own. -/
theorem Expresses.and (h : s.Expresses next P) (h' : s'.Expresses s.next Q) (keeps : Local next Q) :
    Expresses ⟨s.clauses ++ s'.clauses, s'.next⟩ next fun a => P a ∧ Q a where
  le := h.le.trans h'.le
  below := List.forall_mem_append.2
    ⟨fun clause member => (h.below clause member).mono h'.le, h'.below⟩
  sound a met := by
    obtain ⟨first, others⟩ := met_append.1 met
    exact ⟨h.sound a first, h'.sound a others⟩
  complete a := by
    rintro ⟨p, q⟩
    obtain ⟨b, same, met⟩ := h.complete a p
    obtain ⟨c, same', met'⟩ := h'.complete b (keeps a b same q)
    refine ⟨c, fun u below => ?_, met_append.2 ⟨met_local h.below b c same' met, met'⟩⟩
    rw [same' u (below.trans_le h.le), same u below]

theorem Offers.nil : Offers ⟨[], next⟩ [] next fun _ => False where
  le := le_refl _
  below := by simp [Clause.Below]
  sound _ _ holds := Clause.not_holds_nil holds
  complete a := ⟨a, fun _ _ => rfl, by simp [Met], False.elim⟩

theorem Offers.literal {l : Literal} (below : l.unknown < next) (h : s.Offers literals next Q) :
    s.Offers (l :: literals) next fun a => l.Holds a ∨ Q a where
  le := h.le
  below := by
    obtain ⟨first, others⟩ := List.forall_mem_cons.1 h.below
    exact List.forall_mem_cons.2 ⟨List.forall_mem_cons.2 ⟨below.trans_le h.le, first⟩, others⟩
  sound a met holds := (Clause.holds_cons.1 holds).imp id (h.sound a met)
  complete a := by
    obtain ⟨b, same, met, holds⟩ := h.complete a
    exact ⟨b, same, met, fun either => Clause.holds_cons.2
      (either.imp (Literal.holds_local below a b same) holds)⟩

theorem holds_chosen {unknown : Nat} {a : Nat → Rat} :
    (Literal.chosen unknown).Holds a ↔ a unknown = 1 := Iff.rfl

theorem holds_not_chosen {unknown : Nat} {a : Nat → Rat} :
    Clause.Holds [(Literal.chosen unknown).opposite] a ↔ a unknown ≠ 1 := by
  simp [Clause.Holds, Literal.Holds, Literal.opposite, Literal.chosen, Relation.opposite,
    Relation.Holds]

/-- Whether a part holds decides the unknown that stands for choosing it. -/
theorem Offers.choice (h : s.Expresses (next + 1) fun a => a next ≠ 1 ∨ P a) (keeps : Local next P)
    (h' : s'.Offers literals s.next Q) (keeps' : Local next Q) :
    Offers ⟨s.clauses ++ s'.clauses, s'.next⟩ (.chosen next :: literals) next
      fun a => P a ∨ Q a where
  le := (Nat.le_succ next).trans (h.le.trans h'.le)
  below := by
    obtain ⟨first, others⟩ := List.forall_mem_cons.1 h'.below
    refine List.forall_mem_cons.2 ⟨List.forall_mem_cons.2 ⟨h.le.trans h'.le, first⟩, ?_⟩
    exact List.forall_mem_append.2
      ⟨fun clause member => (h.below clause member).mono h'.le, others⟩
  sound a met holds := by
    obtain ⟨first, others⟩ := met_append.1 met
    rcases Clause.holds_cons.1 holds with chosen | holds
    · exact .inl ((h.sound a first).resolve_left (not_not.2 chosen))
    · exact .inr (h'.sound a others holds)
  complete a := by
    classical
    have same₀ : ∀ unknown < next,
        Function.update a next (if P a then 1 else 0) unknown = a unknown :=
      fun unknown below => Function.update_of_ne below.ne _ _
    generalize same : Function.update a next (if P a then 1 else 0) = a₀ at same₀
    have value : a₀ next = if P a then 1 else 0 := by rw [← same, Function.update_self]
    have due : a₀ next ≠ 1 ∨ P a₀ := by
      by_cases p : P a
      · exact .inr (keeps a a₀ same₀ p)
      · exact .inl (by rw [value, if_neg p]; exact zero_ne_one)
    obtain ⟨b, same₁, met⟩ := h.complete a₀ due
    obtain ⟨c, same₂, met', holds⟩ := h'.complete b
    have same₃ : ∀ unknown < next + 1, c unknown = a₀ unknown := fun u below => by
      rw [same₂ u (below.trans_le h.le), same₁ u below]
    have same₄ : ∀ unknown < next, c unknown = a unknown := fun u below => by
      rw [same₃ u (below.trans (Nat.lt_succ_self next)), same₀ u below]
    refine ⟨c, same₄, met_append.2 ⟨met_local h.below b c same₂ met, met'⟩, fun either => ?_⟩
    refine Clause.holds_cons.2 (either.imp (fun p => ?_) fun q => holds (keeps' a b ?_ q))
    · rw [holds_chosen, same₃ next (Nat.lt_succ_self next), value, if_pos p]
    · intro u below
      rw [← same₂ u (by have := h.le; omega), same₄ u below]

theorem Offers.expresses (h : s.Offers literals next P) (below : guard.Below next) :
    Expresses ⟨(guard ++ literals) :: s.clauses, s.next⟩ next fun a => guard.Holds a ∨ P a where
  le := h.le
  below := by
    obtain ⟨first, others⟩ := List.forall_mem_cons.1 h.below
    exact List.forall_mem_cons.2
      ⟨List.forall_mem_append.2 ⟨below.mono h.le, first⟩, others⟩
  sound a met := by
    obtain ⟨first, others⟩ := List.forall_mem_cons.1 met
    exact (Clause.holds_append.1 first).imp id (h.sound a others)
  complete a either := by
    obtain ⟨b, same, met, holds⟩ := h.complete a
    refine ⟨b, same, List.forall_mem_cons.2 ⟨Clause.holds_append.2 ?_, met⟩⟩
    exact either.imp (Clause.holds_local below a b same) holds

end Statement

namespace Constraint

open Statement

theorem literal_or_group (part : Constraint) :
    (∃ l, part = .literal l) ∨ ∀ l, part ≠ .literal l := by
  cases part with
  | literal l => exact .inl ⟨l, rfl⟩
  | all | any => exact .inr fun _ => nofun

theorem stateAny_cons {part : Constraint} (other : ∀ l, part ≠ .literal l) (next : Nat)
    (parts : List Constraint) : stateAny next (part :: parts) =
      let first := state [(Literal.chosen next).opposite] (next + 1) part
      let (literals, others) := stateAny first.next parts
      (.chosen next :: literals, ⟨first.clauses ++ others.clauses, others.next⟩) := by
  cases part with
  | literal l => exact absurd rfl (other l)
  | all | any => rw [stateAny]; exact other

mutual

theorem state_expresses {guard : Clause} {next : Nat} {c : Constraint} (below : guard.Below next)
    (h : c.Below next) :
    (state guard next c).Expresses next fun a => guard.Holds a ∨ c.Holds a := by
  match c with
  | .literal l => exact .clause below h
  | .all parts => exact stateAll_expresses below h
  | .any parts => exact (stateAny_offers h).expresses below

theorem stateAll_expresses {guard : Clause} {next : Nat} {parts : List Constraint}
    (below : guard.Below next) (h : AllBelow next parts) :
    (stateAll guard next parts).Expresses next fun a => guard.Holds a ∨ AllHold a parts := by
  match parts with
  | [] => exact .nothing fun a => .inr trivial
  | part :: parts =>
    have first := state_expresses below h.1
    have others := stateAll_expresses (below.mono first.le) (AllBelow.mono first.le h.2)
    have keeps : Local next fun a => guard.Holds a ∨ AllHold a parts :=
      (Clause.holds_local below).or (allHold_local h.2)
    exact (first.and others keeps).congr fun a => or_and_left.symm

theorem stateAny_offers {next : Nat} {parts : List Constraint} (h : AllBelow next parts) :
    (stateAny next parts).2.Offers (stateAny next parts).1 next fun a => AnyHolds a parts := by
  match parts with
  | [] => exact .nil
  | part :: parts =>
    rcases part.literal_or_group with ⟨l, rfl⟩ | other
    · rw [stateAny]
      exact .literal h.1 (stateAny_offers h.2)
    · have guarded : Clause.Below (next + 1) [(Literal.chosen next).opposite] :=
        List.forall_mem_singleton.2 (Nat.lt_succ_self next)
      have first := state_expresses guarded (Below.mono (Nat.le_succ next) h.1)
      have others := stateAny_offers (AllBelow.mono (Nat.le_of_succ_le first.le) h.2)
      rw [stateAny_cons other]
      refine .choice (first.congr fun a => ?_) (holds_local h.1) others (anyHolds_local h.2)
      rw [holds_not_chosen]

end

end Constraint

end ProgressRules
