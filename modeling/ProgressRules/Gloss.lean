import ProgressRules.Comparison

/-! Readable glosses of the comparisons in a text, for display only. -/

namespace ProgressRules

namespace Gloss

def operatorWord : Operator → Text
  | .ge => "이상".toList
  | .le => "이하".toList
  | .gt => "초과".toList
  | .lt => "미만".toList
  | .eq => "달성".toList
  | .ne => "제외".toList
  | .other symbol => symbol

def firstKey? : Text → Option Text
  | [] => none
  | c :: rest =>
    match Segment.readKey (c :: rest) with
    | some (.key name, _) => some name
    | _ => firstKey? rest

/-- Whether the end of a text is reached; a newline that ends the text does not count. -/
def atEnd (text : Text) : Bool := text == [] || text == [Text.newline]

def lastMember? : Text → Option Text
  | [] => none
  | c :: rest =>
    match Segment.readMember (c :: rest) with
    | some (.member name, after) => if atEnd after then some name else lastMember? rest
    | _ => lastMember? rest

/-- The last step of a reference names the variable, a quoted key before a member. -/
def displayName (reference : Text) : Text :=
  (firstKey? reference).getD ((lastMember? reference).getD reference)

def ofComparison (c : Comparison) : Text :=
  displayName c.reference ++ ' ' :: c.thresholdText ++ ' ' :: operatorWord c.operator

end Gloss

open Gloss in
def interpret (separator text : Text) : Text :=
  Text.joinWith separator ((Text.collect Comparison.read text).map ofComparison)

end ProgressRules
