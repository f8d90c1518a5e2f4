import Mathlib.Algebra.Order.Field.Rat
import ProgressRules.Proofs.Decomposition.Flat
import ProgressRules.Proofs.Formula.Expression

/-! Values of expressions, and the progress of conditions. Both are exact rationals; progress is
defined from the thresholds as they are typed. -/

namespace ProgressRules

open Text (Blank)

/-! ### Values -/

def Extremum.apply : Extremum → Rat → Rat → Rat
  | .least => min
  | .greatest => max

def Extremum.among (f : Extremum) : List Rat → Rat
  | [] => 0
  | [x] => x
  | x :: y :: xs => f.apply x (f.among (y :: xs))

theorem Extremum.apply_assoc (f : Extremum) (x y z : Rat) :
    f.apply (f.apply x y) z = f.apply x (f.apply y z) := by
  cases f
  · exact min_assoc x y z
  · exact max_assoc x y z

theorem Extremum.among_cons (f : Extremum) (x : Rat) {xs : List Rat} (nonempty : xs ≠ []) :
    f.among (x :: xs) = f.apply x (f.among xs) := by
  obtain ⟨y, ys, rfl⟩ := List.exists_cons_of_ne_nil nonempty
  rfl

theorem Extremum.foldl_apply (f : Extremum) (x : Rat) (xs : List Rat) :
    xs.foldl f.apply x = f.among (x :: xs) := by
  induction xs generalizing x with
  | nil => rfl
  | cons y xs ih =>
    rw [List.foldl_cons, ih]
    cases xs with
    | nil => rfl
    | cons z xs =>
      rw [f.among_cons _ (by simp), f.among_cons x (by simp), f.among_cons y (by simp),
        f.apply_assoc]

def Numeral.value (n : Numeral) : Rat := n.numerator / n.denominator

namespace Expression

mutual

def value? (v : Text → Rat) : Expression → Option Rat
  | .number n => some n.value
  | .variable r => some (v r.text)
  | .product a b => do return (← value? v a) * (← value? v b)
  | .quotient a b => do
    let x ← value? v a
    let y ← value? v b
    if y = 0 then none else some (x / y)
  | .difference a b => do return (← value? v a) - (← value? v b)
  | .call f arguments => do
    let xs ← values? v arguments
    if xs.isEmpty then none else some (f.among xs)

def values? (v : Text → Rat) : List Expression → Option (List Rat)
  | [] => some []
  | e :: es => do return (← value? v e) :: (← values? v es)

end

end Expression

/-! ### Progress -/

def Comparison.typedThreshold (c : Comparison) : Rat :=
  match Numeral.read c.thresholdText with
  | some (n, _) => n.value
  | none => 0

theorem Comparison.typedThreshold_comparison {w : WrittenComparison} (h : w.WellFormed) :
    w.comparison.typedThreshold = w.number.value := by
  have found := Numeral.read_append h.number (Text.stops_nil _)
  rw [List.append_nil] at found
  simp only [typedThreshold, WrittenComparison.comparison, found]

def Comparison.progress (v : Text → Rat) (c : Comparison) : Rat :=
  min (100 * v c.reference / c.typedThreshold) 100

namespace Condition

mutual

def progress (v : Text → Rat) : Condition → Rat
  | .comparison c => c.progress v
  | .and children => Extremum.least.among (progressOfAll v children)
  | .or children => Extremum.greatest.among (progressOfAll v children)
  | .not child => 100 - progress v child

def progressOfAll (v : Text → Rat) : List Condition → List Rat
  | [] => []
  | child :: children => progress v child :: progressOfAll v children

end

end Condition

def Decomposition.progress (v : Text → Rat) (d : Decomposition) : Rat :=
  match d.combinator with
  | .or => Extremum.greatest.among (d.comparisons.map (Comparison.progress v))
  | _ => Extremum.least.among (d.comparisons.map (Comparison.progress v))

theorem Decomposition.StandsFor.progress_eq {d : Decomposition} {t : Condition} (h : d.StandsFor t)
    (v : Text → Rat) : d.progress v = t.progress v := by
  have each : ∀ cs : List Comparison, Condition.progressOfAll v (cs.map .comparison) =
      cs.map (Comparison.progress v) := by
    intro cs
    induction cs with
    | nil => rfl
    | cons c cs ih => rw [List.map_cons, Condition.progressOfAll, ih]; rfl
  cases h with
  | single c => rfl
  | all cs => rw [Condition.progress, each]; rfl
  | any cs => rw [Condition.progress, each]; rfl

end ProgressRules
