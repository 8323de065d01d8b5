import Formula.Grammar.Fault

/-!
# Parsers

A parser works on a fixed list of tokens in a fixed *dialect*.  Its state is the tokens not yet
consumed and a counter of the nested levels that are open; it answers with a value or with an error,
and in both cases with the state that it leaves behind.  The state after an error matters: a parser
that is used again goes on from there, with the levels that the failed run left open.

The small parsers of this module look at the next token, consume it, open and close levels, and
fail at the present place.
-/

namespace Formula

/-- The limit on nesting where none is given. -/
def defaultMaxDepth : Nat := 128

/-- What a host decides about the formulas that it accepts. -/
structure Dialect where
  /-- How many nested levels may be open at once. -/
  maxDepth : Nat
  /-- The functions that may be called without arguments. -/
  nullary : List String
deriving DecidableEq, Repr

/-- The dialect where none is given. -/
def Dialect.standard : Dialect := ⟨defaultMaxDepth, []⟩

instance : Inhabited Dialect := ⟨Dialect.standard⟩

/-! ### Inputs, states and replies -/

/-- All that stays fixed while a parser works. -/
structure Parser.Input where
  /-- The whole list of tokens. -/
  tokens : List Token
  /-- The dialect. -/
  dialect : Dialect

/-- What changes while a parser works. -/
structure Parser.State where
  /-- The tokens not yet consumed. -/
  rest : List Token
  /-- How many levels are open. -/
  depth : Nat
deriving DecidableEq

/-- The byte offset behind the last token, or zero without tokens. -/
def Parser.Input.stop (input : Parser.Input) : Nat :=
  match input.tokens.getLast? with
  | some t => t.stop
  | none => 0

/-- The state in which a parser begins. -/
def Parser.Input.start (input : Parser.Input) : Parser.State :=
  ⟨input.tokens, 0⟩

/-- The byte offset of the next token, or of the end. -/
def Parser.State.position (input : Parser.Input) (s : Parser.State) : Nat :=
  match s.rest with
  | [] => input.stop
  | t :: _ => t.position

/-- The state with one more level open. -/
def Parser.State.deeper (s : Parser.State) : Parser.State :=
  { s with depth := s.depth + 1 }

/-- The state with one level less open. -/
def Parser.State.shallower (s : Parser.State) : Parser.State :=
  { s with depth := s.depth - 1 }

/-- The answer of a parser, with the state that it leaves behind. -/
inductive Parser.Reply (α : Type) where
  /-- A value was parsed. -/
  | done (value : α) (state : Parser.State)
  /-- The tokens do not fit. -/
  | failed (error : ParseError) (state : Parser.State)

/-- The state that is left behind. -/
def Parser.Reply.state {α : Type} : Parser.Reply α → Parser.State
  | .done _ s => s
  | .failed _ s => s

/-- The value or the error. -/
def Parser.Reply.result {α : Type} : Parser.Reply α → Except ParseError α
  | .done a _ => .ok a
  | .failed e _ => .error e

/-- A parser of values of type `α`. -/
def Parser (α : Type) : Type :=
  Parser.Input → Parser.State → Parser.Reply α

namespace Parser

variable {α β : Type}

/-- The parser that consumes nothing and answers `a`. -/
protected def pure (a : α) : Parser α :=
  fun _ s => .done a s

/-- Runs `p`, and on its value the parser that `f` gives. -/
protected def bind (p : Parser α) (f : α → Parser β) : Parser β := fun input s =>
  match p input s with
  | .done a s => f a input s
  | .failed e s => .failed e s

instance : Monad Parser where
  pure := Parser.pure
  bind := Parser.bind

@[simp] theorem pure_apply (a : α) (input : Input) (s : State) :
    (pure a : Parser α) input s = .done a s := rfl

theorem bind_apply (p : Parser α) (f : α → Parser β) (input : Input) (s : State) :
    (p >>= f) input s =
      match p input s with
      | .done a s => f a input s
      | .failed e s => .failed e s := rfl

/-! ### Looking and moving -/

/-- The next token. -/
def next? : Parser (Option Token) :=
  fun _ s => .done s.rest.head? s

/-- Whether the next token is the symbol `symbol`. -/
def nextIs (symbol : String) : Parser Bool :=
  fun _ s => .done (s.rest.head?.any (·.isSymbol symbol)) s

/-- The byte offset of the next token, or of the end. -/
def position : Parser Nat :=
  fun input s => .done (s.position input) s

/-- How many tokens are left. -/
def remaining : Parser Nat :=
  fun _ s => .done s.rest.length s

/-- Consumes one token. -/
def advance : Parser Unit :=
  fun _ s => .done () { s with rest := s.rest.tail }

/-! ### Failing -/

/-- Fails at the next token. -/
def fail (fault : ParseFault) : Parser α :=
  fun input s => .failed ⟨s.position input, fault⟩ s

/-- Fails because something else was expected in place of the next token. -/
def expected (what : Expectation) : Parser α :=
  fun input s => fail (.unexpected what s.rest.head?) input s

/-- Consumes the symbol `symbol`, or fails because `what` was expected. -/
def require (symbol : String) (what : Expectation) : Parser Unit := do
  if ← nextIs symbol then advance else expected what

/-! ### Levels -/

/-- Runs `p` inside a new level.  One level too many is an error.  A level that ends with an error,
also with this one, stays open. -/
def inside (p : Parser α) : Parser α := fun input s =>
  if input.dialect.maxDepth < s.depth + 1 then
    fail (.tooDeep input.dialect.maxDepth) input s.deeper
  else
    match p input s.deeper with
    | .done a s => .done a s.shallower
    | .failed e s => .failed e s

/-- Runs `p` inside a new level, which is closed whatever the answer of `p` is.  One level too many
is an error; that level stays open. -/
def insideFinally (p : Parser α) : Parser α := fun input s =>
  if input.dialect.maxDepth < s.depth + 1 then
    fail (.tooDeep input.dialect.maxDepth) input s.deeper
  else
    match p input s.deeper with
    | .done a s => .done a s.shallower
    | .failed e s => .failed e s.shallower

end Parser

end Formula
