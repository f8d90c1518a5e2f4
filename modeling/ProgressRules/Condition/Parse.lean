import ProgressRules.Condition.Basic
import ProgressRules.Condition.Token

/-! From tokens to conditions. Negation binds tighter than `&&`, and `&&` tighter than `||`.
The reader goes over the tokens once and keeps, for every open parenthesis, what has been
read of the level around it. A group in parentheses is an operand of its own. -/

namespace ProgressRules

namespace Condition

/-- What has been read of one level of parentheses, the latest operand first. -/
structure Level where
  /-- The finished operands of `||`. -/
  alternatives : List Condition
  /-- The finished operands of `&&` since the last `||`. -/
  factors : List Condition
  /-- The negations that wait for an operand. -/
  negations : Nat

namespace Level

def start : Level := ⟨[], [], 0⟩

def push (level : Level) (operand : Condition) : Level :=
  ⟨level.alternatives, negated level.negations operand :: level.factors, 0⟩

def endAlternative (level : Level) : Level :=
  ⟨conjunction level.factors.reverse :: level.alternatives, [], 0⟩

def condition (level : Level) : Condition :=
  disjunction level.endAlternative.alternatives.reverse

end Level

/-- Either an operand is due, or one has just ended. The outer levels begin with the nearest. -/
inductive Progress where
  | operandDue (outer : List Level) (level : Level)
  | operandDone (outer : List Level) (level : Level)

def step : Progress → Token → Except ParseError Progress
  | .operandDue outer level, .not =>
    .ok (.operandDue outer ⟨level.alternatives, level.factors, level.negations + 1⟩)
  | .operandDue outer level, .leftParen => .ok (.operandDue (level :: outer) .start)
  | .operandDue outer level, .comparison c _ => .ok (.operandDone outer (level.push (.comparison c)))
  | .operandDue _ _, token => .error (.expected .comparison (some token.kind))
  | .operandDone outer level, .and => .ok (.operandDue outer level)
  | .operandDone outer level, .or => .ok (.operandDue outer level.endAlternative)
  | .operandDone (around :: outer) level, .rightParen =>
    .ok (.operandDone outer (around.push level.condition))
  | .operandDone [] _, token => .error (.trailing token.kind)
  | .operandDone (_ :: _) _, token => .error (.expected .rightParen (some token.kind))

def finish : Progress → Except ParseError Condition
  | .operandDue _ _ => .error (.expected .comparison none)
  | .operandDone [] level => .ok level.condition
  | .operandDone (_ :: _) _ => .error (.expected .rightParen none)

def ofTokens (tokens : List Token) : Except ParseError Condition := do
  finish (← tokens.foldlM step (.operandDue [] .start))

def parse (rule : Text) : Except ParseError Condition := do ofTokens (← tokenize rule)

def ofRule? (rule : Text) : Option Condition :=
  if Text.blankOnly rule then none else (parse rule).toOption

end Condition

end ProgressRules
