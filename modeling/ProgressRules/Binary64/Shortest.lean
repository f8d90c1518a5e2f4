import ProgressRules.Binary64.Basic

/-! The shortest decimal of a magnitude: the numeral with the fewest digits among those
that round to it, and the nearest of these. It is found on the coarsest decimal grid that
has a point in the interval of all values that round to the magnitude. -/

namespace ProgressRules

namespace Magnitude

/-- The gap to the next magnitude above, as a power of two. -/
def gapBits (m : Magnitude) : Nat := spareBits m.units

/-- The least magnitude of its binade has a nearer neighbour below than above. -/
def narrowBelow (m : Magnitude) : Bool := 0 < m.gapBits && m.units == Nat.pow 2 (52 + m.gapBits)

/-- The interval of values that round to `m`, in quarters of a unit. -/
def lowerEnd (m : Magnitude) : Nat :=
  4 * m.units - if m.narrowBelow then Nat.pow 2 m.gapBits else 2 * Nat.pow 2 m.gapBits

def upperEnd (m : Magnitude) : Nat := 4 * m.units + 2 * Nat.pow 2 m.gapBits

/-- A tie goes to the even significand, so the ends belong to it. -/
def evenSignificand (m : Magnitude) : Bool := m.units / Nat.pow 2 m.gapBits % 2 == 0

def quartersPerOne : Nat := 4 * unitsPerOne

/-- The finest grid has steps of 10^-324. -/
def gridPerOne : Nat := Nat.pow 10 324

/-- Points of the grid with steps of 10^(step - 324) and quarters of a unit are compared after
multiplication by `gridPerOne` and `quartersPerOne`. -/
def gridPoint (step c : Nat) : Nat := c * Nat.pow 10 step * quartersPerOne

def covers (m : Magnitude) (step c : Nat) : Bool :=
  let point := gridPoint step c
  let low := m.lowerEnd * gridPerOne
  let high := m.upperEnd * gridPerOne
  if m.evenSignificand then low ≤ point && point ≤ high else low < point && point < high

def gridFloor (m : Magnitude) (step : Nat) : Nat :=
  4 * m.units * gridPerOne / (Nat.pow 10 step * quartersPerOne)

/-- The grid's point nearest to `m`, of two equally near the even one. -/
def gridNearest (m : Magnitude) (step : Nat) : Nat :=
  nearestEven (4 * m.units * gridPerOne) (Nat.pow 10 step * quartersPerOne)

def onGrid? (m : Magnitude) (step : Nat) : Option Nat :=
  let below := m.gridFloor step
  match m.covers step below, m.covers step (below + 1) with
  | true, true => some (m.gridNearest step)
  | true, false => some below
  | false, true => some (below + 1)
  | false, false => none

/-- The point on the coarsest grid with one, and that grid, trying `step` and finer ones. -/
def shortestFrom (m : Magnitude) : Nat → Nat × Nat
  | 0 => ((m.onGrid? 0).getD 0, 0)
  | step + 1 =>
    match m.onGrid? (step + 1) with
    | some c => (c, step + 1)
    | none => m.shortestFrom step

/-- Steps of a coarser grid than this one are longer than the upper end of the interval, since
ten is more than the third power of two. -/
def coarsestStep (m : Magnitude) : Nat := (m.upperEnd * gridPerOne / quartersPerOne).log2 / 3

/-- Digits and step of the shortest decimal `digits * 10 ^ (step - 324)`. -/
def shortest (m : Magnitude) : Nat × Nat := m.shortestFrom m.coarsestStep

end Magnitude

end ProgressRules
