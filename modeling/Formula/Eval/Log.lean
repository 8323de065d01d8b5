import Formula.Eval.Environment
import Formula.Grammar.Fault
import Formula.Text.Quoted

/-!
# Records of what happens

A host may follow the work through a stream of records.  A `LogEvent` is what happened; its level,
its target and its message are read off it.
-/

namespace Formula

/-- What a source is read as. -/
inductive SourceKind where
  | expression
  | assignment
deriving DecidableEq, Repr

/-- How records name what a source is read as. -/
def SourceKind.describe : SourceKind → String
  | .expression => "expression"
  | .assignment => "assignment"

/-- Something worth a record. -/
inductive LogEvent where
  /-- An engine was created with a limit on nesting and a number of functions. -/
  | created (maxDepth functions : Nat)
  /-- A token was found. -/
  | token (t : Token)
  /-- A source was cut into a number of tokens and is about to be parsed. -/
  | parsing (kind : SourceKind) (source : String) (tokens : Nat)
  /-- An engine refused a source. -/
  | rejected (source : String) (error : ParseError)
  /-- A variable was asked for in vain. -/
  | lookupFailed (error : EvalError)
  /-- A call was refused. -/
  | callRejected (error : EvalError)
deriving DecidableEq, Repr

/-- How records name the class of a token. -/
def Token.Kind.label : Token.Kind → String
  | .name => "Variable"
  | .number => "Number"
  | .symbol => "Symbol"
  | .quoted => "QuotedPathSegment"

namespace LogEvent

/-- The importance of an event. -/
def level : LogEvent → String
  | .created .. => "INFO"
  | .token .. => "TRACE"
  | _ => "DEBUG"

/-- The part of the work that an event belongs to. -/
def target : LogEvent → String
  | .created .. => "ENGINE"
  | .token .. => "TOKENIZE"
  | .parsing .. => "PARSE"
  | .rejected .. => "PARSE"
  | .lookupFailed .. => "EVAL"
  | .callRejected .. => "EVAL"

/-- The text of an event. -/
def message : LogEvent → String
  | .created maxDepth functions =>
    "created engine max_depth=" ++ toString maxDepth ++ " functions=" ++ toString functions
  | .token t =>
    t.kind.label ++ " " ++ Text.quoted t.text ++ " at " ++ toString t.position
  | .parsing kind source tokens =>
    kind.describe ++ " " ++ Text.quoted source ++ " (" ++ toString tokens ++ " tokens)"
  | .rejected source error => "rejected " ++ Text.quoted source ++ ": " ++ error.describe
  | .lookupFailed error => "variable lookup failed: " ++ error.message
  | .callRejected error => "rejected call: " ++ error.message

end LogEvent

end Formula
