import ProgressRules.Consistency.Search
import ProgressRules.Proofs.Consistency.Clause
import ProgressRules.Proofs.Consistency.Samples

/-! The search is right about both outcomes. All points of a box that it finds meet the clauses,
and what it refutes cannot be met by values that are left in the box. -/

namespace ProgressRules

theorem Literal.admits_iff (l : Literal) {assignment : Nat → Rat} :
    l.admits (assignment l.unknown) = true ↔ l.Holds assignment :=
  decide_eq_true_iff

namespace Box

/-! ### Boxes inside boxes -/

/-- Values were taken away, but not the last one of an unknown. -/
structure Within (inner outer : Box) : Prop where
  subset : ∀ unknown, inner.values unknown ⊆ outer.values unknown
  nonempty : ∀ unknown, outer.values unknown ≠ [] → inner.values unknown ≠ []

theorem Within.refl (box : Box) : box.Within box := ⟨fun _ => List.Subset.refl _, fun _ h => h⟩

theorem Within.trans {a b c : Box} (h : a.Within b) (h' : b.Within c) : a.Within c :=
  ⟨fun u => List.Subset.trans (h.subset u) (h'.subset u), fun u => h.nonempty u ∘ h'.nonempty u⟩

theorem Within.implies {inner outer : Box} (h : inner.Within outer) {l : Literal}
    (all : outer.implies l = true) : inner.implies l = true := by
  simp only [Box.implies, List.all_eq_true] at all ⊢
  exact fun x member => all x (h.subset _ member)

variable {box : Box} {l : Literal} {unknown : Nat} {x : Rat}

theorem values_modify (f : List Rat → List Rat) (none : f [] = []) (i : Nat) :
    values (box.modify i f) unknown =
      if i = unknown then f (box.values unknown) else box.values unknown := by
  unfold values
  rw [Array.getElem?_modify]
  split
  · cases box[unknown]? with
    | none => simp [none]
    | some vs => rfl
  · rfl

theorem mem_values_filter {p : Rat → Bool} {i : Nat} :
    x ∈ values (box.modify i (·.filter p)) unknown ↔
      x ∈ box.values unknown ∧ (i = unknown → p x = true) := by
  rw [values_modify _ rfl]
  split <;> simp [*]

theorem mem_values_assume : x ∈ (box.assume l).values unknown ↔
    x ∈ box.values unknown ∧ (l.unknown = unknown → l.admits x = true) :=
  mem_values_filter

theorem mem_values_exclude : x ∈ (box.exclude l).values unknown ↔
    x ∈ box.values unknown ∧ (l.unknown = unknown → l.admits x = false) := by
  rw [exclude, mem_values_filter, Bool.not_eq_true']

theorem within_filter {p : Rat → Bool} {i : Nat} (some : ∃ x ∈ box.values i, p x = true) :
    Within (box.modify i (·.filter p)) box := by
  refine ⟨fun u x member => (mem_values_filter.1 member).1, fun u nonempty => ?_⟩
  by_cases same : i = u
  · subst same
    obtain ⟨x, member, passes⟩ := some
    exact List.ne_nil_of_mem (mem_values_filter.2 ⟨member, fun _ => passes⟩)
  · obtain ⟨y, member⟩ := List.exists_mem_of_ne_nil _ nonempty
    exact List.ne_nil_of_mem (mem_values_filter.2 ⟨member, fun h => absurd h same⟩)

theorem within_assume (h : box.splits l = true) : (box.assume l).Within box :=
  within_filter (List.any_eq_true.1 (Bool.and_eq_true_iff.1 h).1)

theorem within_exclude (h : box.splits l = true) : (box.exclude l).Within box :=
  within_filter (List.any_eq_true.1 (Bool.and_eq_true_iff.1 h).2)

theorem within_force (box : Box) (l : Literal) : (box.force l).Within box := by
  unfold force
  split
  · exact within_assume ‹_›
  · exact .refl box

theorem within_foldl_force (box : Box) (ls : List Literal) :
    (ls.foldl force box).Within box := by
  induction ls generalizing box with
  | nil => exact .refl box
  | cons l ls ih => exact (ih _).trans (within_force box l)

theorem mem_values_foldl_force {ls : List Literal} (member : x ∈ box.values unknown)
    (admitted : ∀ l ∈ ls, l.unknown = unknown → l.admits x = true) :
    x ∈ (ls.foldl force box).values unknown := by
  induction ls generalizing box with
  | nil => exact member
  | cons l ls ih =>
    obtain ⟨first, others⟩ := List.forall_mem_cons.1 admitted
    refine ih ?_ others
    unfold force
    split
    · exact mem_values_assume.2 ⟨member, first⟩
    · exact member

end Box

/-! ### Outcomes -/

def Clause.Mentioned (clauses : List Clause) (unknown : Nat) : Prop :=
  ∃ clause ∈ clauses, unknown ∈ clause.unknowns

namespace Outcome

/-- The outcome tells the truth about a box and clauses. What was found meets them, and an
assignment that meets them does not give all grounds of a refutation values that are left. -/
def Correct (box : Box) (clauses : List Clause) : Outcome → Prop
  | .solved found => found.Within box ∧ ∀ clause ∈ clauses, clause.any found.implies = true
  | .refuted grounds => (∀ unknown ∈ grounds, Clause.Mentioned clauses unknown) ∧
    ∀ assignment : Nat → Rat, (∀ clause ∈ clauses, clause.Holds assignment) →
      ¬∀ unknown ∈ grounds, assignment unknown ∈ box.values unknown

variable {box : Box} {clauses : List Clause}

theorem allows_of_holds {l : Literal} {assignment : Nat → Rat} (h : l.Holds assignment)
    (inside : assignment l.unknown ∈ box.values l.unknown) : box.allows l = true :=
  List.any_eq_true.2 ⟨_, inside, l.admits_iff.2 h⟩

/-- If a clause holds at a point of the box, then by a literal that the box allows. -/
theorem exists_allowed {clause : Clause} {assignment : Nat → Rat} (h : clause.Holds assignment)
    (inside : ∀ unknown ∈ clause.unknowns, assignment unknown ∈ box.values unknown) :
    ∃ l ∈ clause.filter box.allows, l.Holds assignment := by
  obtain ⟨l, member, holds⟩ := h
  have allowed := allows_of_holds holds (inside _ (List.mem_map_of_mem member))
  exact ⟨l, List.mem_filter.2 ⟨member, allowed⟩, holds⟩

theorem correct_lost {clause : Clause} (member : clause ∈ clauses)
    (lost : clause.filter box.allows = []) :
    (Outcome.refuted clause.unknowns).Correct box clauses := by
  refine ⟨fun unknown inside => ⟨clause, member, inside⟩, fun assignment met inside => ?_⟩
  obtain ⟨l, allowed, -⟩ := exists_allowed (met clause member) inside
  rw [lost] at allowed
  cases allowed

theorem Correct.orElse {l : Literal} {first : Outcome} {second : Unit → Outcome}
    (splits : box.splits l = true) (h : first.Correct (box.assume l) clauses)
    (h' : (second ()).Correct (box.exclude l) clauses) :
    (first.orElse l.unknown second).Correct box clauses := by
  unfold Outcome.orElse
  cases first with
  | solved found => exact ⟨h.1.trans (Box.within_assume splits), h.2⟩
  | refuted grounds =>
    simp only
    split
    case isFalse free =>
      refine ⟨h.1, fun assignment met inside => ?_⟩
      refine h.2 assignment met fun u hu => Box.mem_values_assume.2 ⟨inside u hu, fun same => ?_⟩
      exact absurd (same ▸ List.contains_iff_mem.2 hu) free
    case isTrue =>
      cases found : second () with
      | solved found' =>
        rw [found] at h'
        exact ⟨h'.1.trans (Box.within_exclude splits), h'.2⟩
      | refuted others =>
        rw [found] at h'
        simp only
        split
        case isFalse free =>
          refine ⟨h'.1, fun assignment met inside => ?_⟩
          refine h'.2 assignment met fun u hu =>
            Box.mem_values_exclude.2 ⟨inside u hu, fun same => ?_⟩
          exact absurd (same ▸ List.contains_iff_mem.2 hu) free
        case isTrue =>
          simp only [Correct, List.mem_eraseDups, List.mem_append]
          refine ⟨fun u => Or.rec (h.1 u) (h'.1 u), fun assignment met inside => ?_⟩
          -- the assignment lies in one of the two parts of the box
          cases holds : l.admits (assignment l.unknown) with
          | true =>
            exact h.2 assignment met fun u hu =>
              Box.mem_values_assume.2 ⟨inside u (.inl hu), fun same => same ▸ holds⟩
          | false =>
            exact h'.2 assignment met fun u hu =>
              Box.mem_values_exclude.2 ⟨inside u (.inr hu), fun same => same ▸ holds⟩

/-- A forced literal holds if the clause that forces it holds. -/
theorem Correct.explain {forced : List (Clause × Literal)} {outcome : Outcome}
    (causes : ∀ f ∈ forced, f.1 ∈ clauses ∧ f.1.filter box.allows = [f.2])
    (h : outcome.Correct ((forced.map Prod.snd).foldl Box.force box) clauses) :
    (outcome.explain forced).Correct box clauses := by
  cases outcome with
  | solved found => exact ⟨h.1.trans (Box.within_foldl_force box _), h.2⟩
  | refuted grounds =>
    simp only [Outcome.explain, Correct, List.mem_eraseDups, List.mem_append, List.mem_flatMap,
      List.mem_filter]
    refine ⟨?_, fun assignment met inside => h.2 assignment met fun unknown ground => ?_⟩
    · rintro unknown (ground | ⟨f, ⟨cause, -⟩, inside⟩)
      · exact h.1 unknown ground
      · exact ⟨f.1, (causes f cause).1, inside⟩
    refine Box.mem_values_foldl_force (inside unknown (.inl ground)) fun l member same => ?_
    obtain ⟨⟨clause, l⟩, cause, rfl⟩ := List.mem_map.1 member
    subst same
    obtain ⟨stated, only⟩ := causes _ cause
    have left : ∀ unknown ∈ clause.unknowns, assignment unknown ∈ box.values unknown :=
      fun u hu => inside u (.inr ⟨_, ⟨cause, by simpa using ground⟩, hu⟩)
    obtain ⟨l', allowed, holds⟩ := exists_allowed (met clause stated) left
    rw [only, List.mem_singleton] at allowed
    subst allowed
    exact l'.admits_iff.2 holds

end Outcome

/-! ### The search -/

namespace Pending

theorem of?_eq_some {box : Box} {clause : Clause} {p : Pending} (h : of? box clause = some p) :
    clause.any box.implies = false ∧ p = ⟨clause, clause.filter box.allows⟩ := by
  unfold of? at h
  split at h
  · cases h
  · cases h
    exact ⟨Bool.eq_false_iff.2 ‹_›, rfl⟩

/-- An allowed literal of a clause that the box does not imply splits the box. -/
theorem splits_of_mem_allowed {box : Box} {clause : Clause} {p : Pending}
    (h : of? box clause = some p) {l : Literal} (member : l ∈ p.allowed) :
    box.splits l = true := by
  obtain ⟨notImplied, rfl⟩ := of?_eq_some h
  obtain ⟨inside, allowed⟩ := List.mem_filter.1 member
  have fails : box.implies l = false := by
    simpa using List.any_eq_false.1 notImplied l inside
  rw [Box.splits, Bool.and_eq_true]
  refine ⟨allowed, ?_⟩
  simpa [Box.implies, List.all_eq_false] using fails

theorem forced?_eq_some {box : Box} {p : Pending} {f : Clause × Literal}
    (h : p.forced? box = some f) : f.1 = p.clause ∧ p.allowed = [f.2] := by
  unfold forced? at h
  split at h
  · split at h
    · cases h
      exact ⟨rfl, ‹_›⟩
    · cases h
  · cases h

def left (box : Box) (clauses : List Clause) : List Clause :=
  (clauses.filterMap (of? box)).map clause

theorem mem_left {box : Box} {clauses : List Clause} {c : Clause} :
    c ∈ left box clauses ↔ c ∈ clauses ∧ c.any box.implies = false := by
  simp only [left, List.mem_map, List.mem_filterMap]
  constructor
  · rintro ⟨p, ⟨c, member, found⟩, rfl⟩
    obtain ⟨notImplied, rfl⟩ := of?_eq_some found
    exact ⟨member, notImplied⟩
  · rintro ⟨member, notImplied⟩
    exact ⟨⟨c, c.filter box.allows⟩, ⟨c, member, by simp [of?, notImplied]⟩, rfl⟩

theorem mem_of_mem_filterMap {box : Box} {clauses : List Clause} {p : Pending}
    (member : p ∈ clauses.filterMap (of? box)) :
    p.clause ∈ left box clauses ∧ p.allowed = p.clause.filter box.allows ∧
      ∀ l ∈ p.allowed, box.splits l = true := by
  obtain ⟨c, inside, found⟩ := List.mem_filterMap.1 member
  refine ⟨List.mem_map_of_mem member, ?_, fun l => splits_of_mem_allowed found⟩
  obtain ⟨-, rfl⟩ := of?_eq_some found
  rfl

end Pending

theorem Outcome.Correct.of_left {box : Box} {clauses : List Clause} {outcome : Outcome}
    (h : outcome.Correct box (Pending.left box clauses)) : outcome.Correct box clauses := by
  cases outcome with
  | solved found =>
    refine ⟨h.1, fun clause member => ?_⟩
    cases implied : clause.any box.implies with
    | false => exact h.2 clause (Pending.mem_left.2 ⟨member, implied⟩)
    | true =>
      obtain ⟨l, hl, implied⟩ := List.any_eq_true.1 implied
      exact List.any_eq_true.2 ⟨l, hl, h.1.implies implied⟩
  | refuted grounds =>
    refine ⟨fun unknown ground => ?_, fun assignment met => h.2 assignment fun clause member => ?_⟩
    · obtain ⟨clause, member, inside⟩ := h.1 unknown ground
      exact ⟨clause, (Pending.mem_left.1 member).1, inside⟩
    · exact met clause (Pending.mem_left.1 member).1

/-- Each step of the search keeps to the truth if what it calls does. -/
theorem solve_correct (box : Box) (clauses : List Clause) :
    (solve box clauses).Correct box clauses := by
  fun_induction solve box clauses with
  | case1 box clauses pending lost found =>
    obtain ⟨stated, allowed, -⟩ := Pending.mem_of_mem_filterMap (List.mem_of_find?_eq_some found)
    refine Outcome.correct_lost (Pending.mem_left.1 stated).1 ?_
    rw [← allowed]
    simpa using List.find?_some found
  | case2 box clauses pending rest noneLost f fs found splits smaller ih =>
    refine .of_left (.explain (fun g member => ?_) ih)
    obtain ⟨p, inside, forced⟩ := List.mem_filterMap.1 (found ▸ member)
    obtain ⟨stated, allowed, -⟩ := Pending.mem_of_mem_filterMap inside
    obtain ⟨same, only⟩ := Pending.forced?_eq_some forced
    rw [same]
    exact ⟨stated, allowed ▸ only⟩
  | case3 box clauses pending noneLost noneForced noneChosen =>
    refine ⟨.refl box, fun clause member => ?_⟩
    cases implied : clause.any box.implies with
    | true => rfl
    | false =>
      -- a clause that is left has an allowed literal, which would have been chosen
      obtain ⟨p, inside, rfl⟩ := List.mem_map.1 (Pending.mem_left.2 ⟨member, implied⟩)
      obtain ⟨-, -, splits⟩ := Pending.mem_of_mem_filterMap inside
      have nonempty : p.allowed ≠ [] := by
        simpa using List.find?_eq_none.1 noneLost p inside
      obtain ⟨l, allowed⟩ := List.exists_mem_of_ne_nil _ nonempty
      refine absurd (splits l allowed) (List.find?_eq_none.1 noneChosen l ?_)
      exact List.mem_append_right _ (List.mem_flatMap.2 ⟨p, inside, allowed⟩)
  | case4 box clauses pending rest noneLost noneForced l chosen smaller smaller' ih ih' =>
    exact .of_left (.orElse (List.find?_some chosen) ih ih')

/-! ### Clauses over all numbers -/

theorem Box.values_ofClauses {size : Nat} {clauses : List Clause} {unknown : Nat}
    (bound : unknown < size) : (ofClauses size clauses).values unknown =
      samples ((clauses.flatten.filter (·.unknown == unknown)).map Literal.value) := by
  simp [values, ofClauses, bound]

theorem Box.value_mem_values {box : Box} {unknown : Nat} (nonempty : box.values unknown ≠ []) :
    box.value unknown ∈ box.values unknown := by
  obtain ⟨x, xs, same⟩ := List.exists_cons_of_ne_nil nonempty
  rw [value, same]
  exact List.mem_cons_self

/-- Clauses that some numbers meet are met by samples. -/
theorem exists_inside (size : Nat) {clauses : List Clause} {assignment : Nat → Rat}
    (met : ∀ clause ∈ clauses, clause.Holds assignment) :
    ∃ inside : Nat → Rat, (∀ clause ∈ clauses, clause.Holds inside) ∧
      ∀ unknown < size, inside unknown ∈ (Box.ofClauses size clauses).values unknown := by
  choose inside member same using fun unknown => exists_sample
    ((clauses.flatten.filter (·.unknown == unknown)).map Literal.value) (assignment unknown)
  refine ⟨inside, fun clause stated => ?_, fun unknown bound => ?_⟩
  · obtain ⟨l, hl, holds⟩ := met clause stated
    refine ⟨l, hl, (Relation.holds_iff_of_sameSide (same l.unknown l.value ?_)).1 holds⟩
    refine List.mem_map_of_mem (List.mem_filter.2 ⟨List.mem_flatten_of_mem stated hl, ?_⟩)
    exact beq_self_eq_true _
  · rw [Box.values_ofClauses bound]
    exact member unknown

/-- The search of the samples decides whether any numbers meet the clauses. -/
theorem solve_ofClauses {size : Nat} {clauses : List Clause}
    (below : ∀ clause ∈ clauses, clause.Below size) :
    match solve (.ofClauses size clauses) clauses with
    | .solved box => ∀ clause ∈ clauses, clause.Holds box.value
    | .refuted _ => ∀ assignment : Nat → Rat, ¬∀ clause ∈ clauses, clause.Holds assignment := by
  have correct := solve_correct (.ofClauses size clauses) clauses
  split
  case h_1 box found =>
    rw [found] at correct
    intro clause stated
    obtain ⟨l, hl, implied⟩ := List.any_eq_true.1 (correct.2 clause stated)
    have nonempty : (Box.ofClauses size clauses).values l.unknown ≠ [] := by
      rw [Box.values_ofClauses (below clause stated l hl)]
      obtain ⟨sample, member, -⟩ := exists_sample _ 0
      exact List.ne_nil_of_mem member
    have admitted := List.all_eq_true.1 implied _
      (Box.value_mem_values (correct.1.nonempty _ nonempty))
    exact ⟨l, hl, l.admits_iff.1 admitted⟩
  case h_2 grounds found =>
    rw [found] at correct
    intro assignment met
    obtain ⟨inside, met', member⟩ := exists_inside size met
    refine correct.2 inside met' fun unknown ground => member unknown ?_
    obtain ⟨clause, stated, mentioned⟩ := correct.1 unknown ground
    obtain ⟨l, hl, rfl⟩ := List.mem_map.1 mentioned
    exact below clause stated l hl

theorem Constraint.solve_exact {size : Nat} {goal : Constraint} (below : goal.Below size) :
    match goal.solve size with
    | .solved box => goal.Holds box.value
    | .refuted _ => ∀ assignment : Nat → Rat, ¬goal.Holds assignment := by
  have stated : (goal.state [] size).Expresses size fun a => Clause.Holds [] a ∨ goal.Holds a :=
    state_expresses (fun _ => nofun) below
  have searched := solve_ofClauses stated.below
  rw [Constraint.solve]
  split
  case h_1 box found =>
    rw [found] at searched
    exact (stated.sound _ searched).resolve_left Clause.not_holds_nil
  case h_2 grounds found =>
    rw [found] at searched
    intro assignment holds
    obtain ⟨extended, -, met⟩ := stated.complete assignment (.inr holds)
    exact searched extended met

end ProgressRules
