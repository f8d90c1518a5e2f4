import ProgressRules.Comparison
import ProgressRules.Text.Quoted

/-! The tokens of a rule: comparisons, the three logical operators and parentheses. Blanks
may stand before every token. -/

namespace ProgressRules

inductive Token where
  /-- A comparison and the text it was read from. -/
  | comparison (comparison : Comparison) (text : Text)
  | and
  | or
  | not
  | leftParen
  | rightParen
deriving DecidableEq

namespace Token

inductive Kind where
  | comparison
  | and
  | or
  | not
  | leftParen
  | rightParen
deriving DecidableEq, Repr

def Kind.name : Kind → Text
  | .comparison => "cmp".toList
  | .and => "and".toList
  | .or => "or".toList
  | .not => "not".toList
  | .leftParen => "lparen".toList
  | .rightParen => "rparen".toList

def kind : Token → Kind
  | .comparison .. => .comparison
  | .and => .and
  | .or => .or
  | .not => .not
  | .leftParen => .leftParen
  | .rightParen => .rightParen

def text : Token → Text
  | .comparison _ text => text
  | .and => ['&', '&']
  | .or => ['|', '|']
  | .not => ['!']
  | .leftParen => ['(']
  | .rightParen => [')']

end Token

inductive ParseError where
  /-- No token starts at the position; the excerpt is what stands there. -/
  | unexpectedInput (position : Nat) (excerpt : Text)
  /-- Another token is due than the one found; `none` is the end of the rule. -/
  | expected (due : Token.Kind) (found : Option Token.Kind)
  | trailing (found : Token.Kind)
deriving DecidableEq, Repr

namespace ParseError

def foundName : Option Token.Kind → Text
  | some kind => kind.name
  | none => "None".toList

def message : ParseError → Text
  | unexpectedInput position excerpt =>
    "Unexpected input at ".toList ++ Text.ofNat position ++ ": ".toList ++ Text.quoted excerpt
  | expected due found =>
    "Expected ".toList ++ due.name ++ ", got ".toList ++ foundName found
  | trailing found => "Trailing token ".toList ++ found.name

end ParseError

namespace Token

def readComparison : Text.Reader Token := fun text =>
  (Comparison.readMarked text).map fun (c, rest) =>
    (.comparison c (text.take (text.length - rest.length)), rest)

/-- An exclamation mark before an equals sign belongs to an operator and is no negation. -/
def readSymbol : Text.Reader Token
  | '&' :: '&' :: rest => some (.and, rest)
  | '|' :: '|' :: rest => some (.or, rest)
  | '!' :: '=' :: _ => none
  | '!' :: rest => some (.not, rest)
  | '(' :: rest => some (.leftParen, rest)
  | ')' :: rest => some (.rightParen, rest)
  | _ => none

def read : Text.Reader Token := fun text => (readComparison text).or (readSymbol text)

/-- Reads tokens to the end; a position counts the characters before it. -/
def readAll (position : Nat) (text : Text) : Except ParseError (List Token) :=
  if text.isEmpty then .ok []
  else
    match read (Text.trimStart text) with
    | some (token, rest) =>
      if rest.length < text.length then
        (readAll (position + (text.length - rest.length)) rest).map (token :: ·)
      else .error (.unexpectedInput position (text.take 10))
    | none => .error (.unexpectedInput position (text.take 10))
termination_by text.length

end Token

def tokenize (rule : Text) : Except ParseError (List Token) :=
  Token.readAll 0 (Text.trimEnd rule)

end ProgressRules
