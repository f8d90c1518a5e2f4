import ProgressRules.Text.Scan

/-! References to the variables of a condition: a root word, then members after a point and
quoted keys in brackets. A reference is read as far as it goes. -/

namespace ProgressRules

inductive Segment where
  | member (name : Text)
  | key (name : Text)
deriving DecidableEq, Repr

structure Reference where
  root : Text
  segments : List Segment
deriving DecidableEq, Repr

namespace Segment

def text : Segment → Text
  | .member name => '.' :: name
  | .key name => '[' :: Text.apostrophe :: name ++ [Text.apostrophe, ']']

/-- A key holds at least one character and no apostrophe. -/
def readKey : Text.Reader Segment
  | '[' :: c :: rest =>
    if c = Text.apostrophe then
      match Text.run (· != Text.apostrophe) rest with
      | some (name, _ :: ']' :: after) => some (.key name, after)
      | _ => none
    else none
  | _ => none

def readMember : Text.Reader Segment
  | '.' :: rest => (Text.run Text.isWord rest).map fun (name, after) => (.member name, after)
  | _ => none

def read : Text.Reader Segment := fun text => (readKey text).or (readMember text)

end Segment

namespace Reference

def text (r : Reference) : Text := r.root ++ r.segments.flatMap Segment.text

def read : Text.Reader Reference := fun text =>
  (Text.run Text.isWord text).map fun (root, rest) =>
    let (segments, after) := Text.many Segment.read rest
    (⟨root, segments⟩, after)

end Reference

end ProgressRules
