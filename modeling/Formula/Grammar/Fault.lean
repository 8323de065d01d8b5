import Formula.Token.Basic

/-!
# Why tokens do not form an expression

A `ParseError` is a byte offset and a `ParseFault`.  The fault keeps what its text needs: what was
expected and which token stood in its place, the token behind a complete expression, or the limit
that the nesting has passed.
-/

namespace Formula

/-- What the grammar asks for at a place. -/
inductive Expectation where
  /-- The beginning of an expression. -/
  | expression
  /-- The path at the front of an assignment. -/
  | destination
  /-- The sign between destination and value. -/
  | equals
  /-- An expression behind that sign, where the input ends. -/
  | value
  /-- The parenthesis that closes the one opened at a byte offset. -/
  | closing (opened : Nat)
  /-- A name behind a point. -/
  | attribute
  /-- A further argument, or the end of the arguments of a call opened at a byte offset. -/
  | argument (name : String) (opened : Nat)
deriving DecidableEq, Repr

/-- How messages name what is asked for. -/
def Expectation.describe : Expectation → String
  | .expression => "an expression"
  | .destination => "a destination variable"
  | .equals => "'='"
  | .value => "an expression after '='"
  | .closing opened => "')' to close '(' at position " ++ toString opened
  | .attribute => "an attribute name after '.'"
  | .argument name opened =>
    "',' or ')' to close the call to '" ++ name ++ "' at position " ++ toString opened

/-- Why tokens do not form an expression or an assignment. -/
inductive ParseFault where
  /-- There are no tokens, where an expression is asked for. -/
  | emptyExpression
  /-- There are no tokens, where an assignment is asked for. -/
  | emptyAssignment
  /-- Another token than expected, or the end of the tokens. -/
  | unexpected (expected : Expectation) (found : Option Token)
  /-- A token behind a complete expression. -/
  | trailing (token : Token)
  /-- More nested levels than allowed. -/
  | tooDeep (limit : Nat)
  /-- A number token whose text is no numeral. -/
  | invalidNumber (text : String)
  /-- A number token whose value is not finite. -/
  | numberOutOfRange (text : String)
  /-- A call without arguments of a function that takes some. -/
  | noArguments (name : String)
deriving DecidableEq, Repr

/-- How messages name the token at a place. -/
def describeFound : Option Token → String
  | some t => t.kind.describe ++ " " ++ t.display
  | none => "end of input"

/-- The text of a fault. -/
def ParseFault.message : ParseFault → String
  | .emptyExpression => "Empty expression"
  | .emptyAssignment => "Empty assignment"
  | .unexpected expected found =>
    "Expected " ++ expected.describe ++ ", found " ++ describeFound found
  | .trailing t => "Unexpected token after expression: " ++ t.display
  | .tooDeep limit => "Expression nested too deeply (limit " ++ toString limit ++ ")"
  | .invalidNumber text => "Invalid number: " ++ text
  | .numberOutOfRange text => "Number out of range: " ++ text
  | .noArguments name => "Function '" ++ name ++ "' called with no arguments"

/-- A fault and the byte offset at which it was found. -/
structure ParseError where
  /-- The byte offset. -/
  position : Nat
  /-- What is wrong there. -/
  fault : ParseFault
deriving DecidableEq, Repr

/-- The error with its place. -/
def ParseError.describe (e : ParseError) : String :=
  "Parse error at position " ++ toString e.position ++ ": " ++ e.fault.message

end Formula
