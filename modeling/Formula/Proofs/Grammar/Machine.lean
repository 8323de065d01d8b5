import Formula.Proofs.Grammar.Reading

/-!
# Parsing on a machine

`Parser` keeps the tokens that are left and a number of levels that cannot fall below zero, and its recursion has
as many turns as there are tokens. A machine has other means. It counts the tokens behind it and the levels that
are open; the levels of a chain it closes all at once, behind the chain, and what it takes off a counter has to be
there. Its recursion has room for a number of nested unary expressions, whatever the tokens are. So a run may end
in two more ways (`Outcome`): the counter of levels falls below zero, or the room is used up.

A run also keeps account of itself: of every change of the counters, and of the unary expressions that are past
the check of their level and not complete (`Moment`).
-/

namespace Formula.Parser

variable {α β : Type}

/-- The counters of a machine. -/
structure Cursor where
  /-- How many tokens are behind it. -/
  position : ℕ
  /-- How many levels are open. -/
  depth : ℕ
deriving DecidableEq

/-- One token further. -/
def Cursor.further (c : Cursor) : Cursor :=
  { c with position := c.position + 1 }

/-- With one more level open. -/
def Cursor.deeper (c : Cursor) : Cursor :=
  { c with depth := c.depth + 1 }

/-- With `k` levels less open. -/
def Cursor.shallower (k : ℕ) (c : Cursor) : Cursor :=
  { c with depth := c.depth - k }

/-- The state of a parser in the place of the machine. -/
def Cursor.state (input : Input) (c : Cursor) : State :=
  ⟨input.tokens.drop c.position, c.depth⟩

/-- A moment of a run. -/
structure Moment where
  /-- The counters. -/
  cursor : Cursor
  /-- How many unary expressions are past the check of their level, one inside another. -/
  calls : ℕ
deriving DecidableEq

/-- How a run ends. -/
inductive Outcome (α : Type) where
  /-- A value was parsed. -/
  | done (value : α) (cursor : Cursor)
  /-- The tokens do not fit. -/
  | failed (error : ParseError) (cursor : Cursor)
  /-- More levels were to be closed than are open. -/
  | underflow
  /-- There is no room for one more unary expression inside the others. -/
  | exhausted

/-- The reply that a run ends with, if it is one. -/
def Outcome.reply? (input : Input) : Outcome α → Option (Reply α)
  | .done a c => some (.done a (c.state input))
  | .failed e c => some (.failed e (c.state input))
  | .underflow => none
  | .exhausted => none

/-- A run: its moments in order, and its end. -/
structure Trace (α : Type) where
  /-- What the counters were behind each change. -/
  moments : List Moment
  /-- How it ends. -/
  outcome : Outcome α

/-- The run behind some moments. -/
def Trace.behind (moments : List Moment) (t : Trace α) : Trace α :=
  ⟨moments ++ t.moments, t.outcome⟩

/-- A machine that parses values of type `α`, with a number of unary expressions around it. -/
def Machine (α : Type) : Type :=
  Input → ℕ → Cursor → Trace α

namespace Machine

/-- The machine that does nothing and answers `a`. -/
protected def pure (a : α) : Machine α :=
  fun _ _ c => ⟨[], .done a c⟩

/-- Runs `p`, and on its value the machine that `f` gives. -/
protected def bind (p : Machine α) (f : α → Machine β) : Machine β := fun input calls c =>
  match p input calls c with
  | ⟨moments, .done a c⟩ => (f a input calls c).behind moments
  | ⟨moments, .failed e c⟩ => ⟨moments, .failed e c⟩
  | ⟨moments, .underflow⟩ => ⟨moments, .underflow⟩
  | ⟨moments, .exhausted⟩ => ⟨moments, .exhausted⟩

instance : Monad Machine where
  pure := Machine.pure
  bind := Machine.bind

/-! ### Looking, moving and failing -/

/-- The input, the counters, or something that follows from them. -/
def look (f : Input → Cursor → α) : Machine α :=
  fun input _ c => ⟨[], .done (f input c) c⟩

/-- The next token. -/
def next? : Machine (Option Token) :=
  look fun input c => input.tokens[c.position]?

/-- Whether the next token is the symbol `symbol`. -/
def nextIs (symbol : String) : Machine Bool :=
  look fun input c => input.tokens[c.position]?.any (·.isSymbol symbol)

/-- The byte offset of the next token, or of the end. -/
def position : Machine ℕ :=
  look fun input c => input.tokens[c.position]?.elim input.stop (·.position)

/-- How many tokens are left. -/
def remaining : Machine ℕ :=
  look fun input c => input.tokens.length - c.position

/-- Changes the counters. -/
def change (f : Cursor → Cursor) : Machine Unit :=
  fun _ calls c => ⟨[⟨f c, calls⟩], .done () (f c)⟩

/-- Counts one token. Nothing keeps the counter from going beyond the end. -/
def advance : Machine Unit :=
  change Cursor.further

/-- Ends with an error. -/
def throw (e : ParseError) : Machine α :=
  fun _ _ c => ⟨[], .failed e c⟩

/-- Fails at the next token. -/
def fail (fault : ParseFault) : Machine α := do
  throw ⟨← position, fault⟩

/-- Fails because something else was expected in place of the next token. -/
def expected (what : Expectation) : Machine α := do
  fail (.unexpected what (← next?))

/-- Counts the symbol `symbol`, or fails because `what` was expected. -/
def require (symbol : String) (what : Expectation) : Machine Unit := do
  if ← nextIs symbol then advance else expected what

/-! ### Levels and room -/

/-- Counts one more level, and fails if it is one too many. -/
def enter : Machine Unit := do
  change Cursor.deeper
  let limit ← look fun input _ => input.dialect.maxDepth
  if limit < (← look fun _ c => c.depth) then fail (.tooDeep limit)

/-- Takes `k` levels off the counter, if they are there. -/
def close (k : ℕ) : Machine Unit := fun input calls c =>
  if k ≤ c.depth then change (Cursor.shallower k) input calls c else ⟨[], .underflow⟩

/-- Runs `p` and then closes a level, also where `p` fails. -/
def closing (p : Machine α) : Machine α := fun input calls c =>
  match p input calls c with
  | ⟨moments, .done a c⟩ => ((do close 1; return a : Machine α) input calls c).behind moments
  | ⟨moments, .failed e c⟩ => ((do close 1; throw e : Machine α) input calls c).behind moments
  | ⟨moments, .underflow⟩ => ⟨moments, .underflow⟩
  | ⟨moments, .exhausted⟩ => ⟨moments, .exhausted⟩

/-- Runs `p` as part of a unary expression that is past the check of its level. -/
def nest (p : Machine α) : Machine α := fun input calls c =>
  (p input (calls + 1) c).behind [⟨c, calls + 1⟩]

/-! ### Chains of operators -/

/-- The operator among `ops` that a token writes. -/
def binaryOf (ops : List BinaryOp) (t : Token) : Option BinaryOp :=
  if t.kind = .symbol then (BinaryOp.ofSymbol? t.text).filter (· ∈ ops) else none

/-- The operator among `ops` that the next token writes. -/
def operator? (ops : List BinaryOp) : Machine (Option BinaryOp) :=
  look fun input c => input.tokens[c.position]?.bind (binaryOf ops)

/-- Extends the tree `left` by the operators of a level and their operands, and then closes the levels of all
operators; `k` of them are open already. `fuel` bounds the number of operators. -/
def chain (ops : List BinaryOp) (operand : Machine Expr) : (fuel k : ℕ) → Expr → Machine Expr
  | 0, k, left => do
    close k
    return left
  | fuel + 1, k, left => do
    match ← operator? ops with
    | none =>
      close k
      return left
    | some op =>
      enter
      advance
      let right ← operand
      chain ops operand fuel (k + 1) (.binary left op right)

/-- An expression of the level with the operators `ops`. -/
def level (ops : List BinaryOp) (operand : Machine Expr) : Machine Expr := do
  let left ← operand
  chain ops operand (← remaining) 0 left

/-- An expression of the loosest of some levels, over the machine for the operands of the tightest. -/
def expressionOver (ls : List (List BinaryOp)) (operand : Machine Expr) : Machine Expr :=
  ls.foldr level operand

/-! ### Primary expressions -/

/-- The names that follow, each behind a point. `fuel` bounds their number. -/
def attributes : (fuel : ℕ) → Machine (List String)
  | 0 => return []
  | fuel + 1 => do
    if ← nextIs "." then
      advance
      match ← next? with
      | none => expected .attribute
      | some t =>
        if t.kind = .name then
          advance
          return t.text :: (← attributes fuel)
        else expected .attribute
    else return []

/-- The path with the given root. -/
def pathFrom (root : String) : Machine Path := do
  return root :: (← attributes (← remaining))

/-- The value of a number token. -/
def number (t : Token) : Machine Expr :=
  match Decimal.read? t.text with
  | none => fail (.invalidNumber t.text)
  | some x =>
    if x.isFinite then do
      advance
      return .literal x
    else fail (.numberOutOfRange t.text)

/-- Further arguments, each behind a comma. `fuel` bounds their number. -/
def moreArguments (item : Machine Expr) : ℕ → Machine (List Expr)
  | 0 => return []
  | fuel + 1 => do
    if ← nextIs "," then
      advance
      let arg ← item
      let args ← moreArguments item fuel
      return arg :: args
    else return []

/-- The arguments of a call, at least one. -/
def arguments (item : Machine Expr) : Machine (List Expr) := do
  let arg ← item
  let args ← moreArguments item (← remaining)
  return arg :: args

/-- Whether the function `name` may be called without arguments. -/
def isNullary (name : String) : Machine Bool :=
  look fun input _ => name ∈ input.dialect.nullary

/-- A call of the function `name`; the next token is the opening parenthesis. -/
def callOf (name : String) (item : Machine Expr) : Machine Expr := do
  let opened ← position
  advance
  if ← nextIs ")" then
    if ← isNullary name then
      advance
      return .call name []
    else fail (.noArguments name)
  else
    let args ← arguments item
    require ")" (.argument name opened)
    return .call name args

/-- An expression between parentheses; the next token is the one that opens. -/
def parenthesized (opened : ℕ) (item : Machine Expr) : Machine Expr := do
  advance
  let inner ← item
  require ")" (.closing opened)
  return inner

/-- A primary expression over the machine for the operands of the expressions inside it. -/
def primary (operand : Machine Expr) : Machine Expr := do
  match ← next? with
  | none => expected .expression
  | some t =>
    match t.kind with
    | .number => number t
    | .quoted =>
      advance
      return .path (← pathFrom t.text)
    | .name =>
      advance
      if ← nextIs "(" then callOf t.text (expressionOver levels operand)
      else return .path (← pathFrom t.text)
    | .symbol =>
      if t.text = "(" then parenthesized t.position (expressionOver levels operand)
      else expected .expression

/-! ### Unary expressions -/

/-- A primary expression, raised to a power or not. -/
def power (self : Machine Expr) : Machine Expr := do
  let base ← primary self
  if ← nextIs "^" then
    advance
    return .binary base .power (← self)
  else return base

/-- The operator that a token writes before an operand. -/
def unaryOf (t : Token) : Option UnaryOp :=
  if t.kind = .symbol then UnaryOp.ofSymbol? t.text else none

/-- The operator that the next token writes before an operand. -/
def sign? : Machine (Option UnaryOp) :=
  look fun input c => input.tokens[c.position]?.bind unaryOf

/-- **A unary expression**, with room for `n` of them one inside another. -/
def unary : (n : ℕ) → Machine Expr
  | 0 => fun _ _ _ => ⟨[], .exhausted⟩
  | n + 1 => do
    enter
    nest <| closing do
      match ← sign? with
      | some op =>
        advance
        return .unary op (← unary n)
      | none => power (unary n)

/-- **An expression**, as far as it reaches. -/
def expression (n : ℕ) : Machine Expr :=
  expressionOver levels (unary n)

/-! ### Whole formulas -/

/-- Fails if there are no tokens at all. -/
def nonempty (fault : ParseFault) : Machine Unit := do
  if ← look fun input _ => input.tokens.isEmpty then fail fault

/-- Fails if a token is left. -/
def finished : Machine Unit := do
  match ← next? with
  | none => return ()
  | some t => fail (.trailing t)

/-- Fails if no token is left, because `what` was expected. -/
def unfinished (what : Expectation) : Machine Unit := do
  match ← next? with
  | none => expected what
  | some _ => return ()

/-- All tokens left, as an expression. -/
def wholeExpression (n : ℕ) : Machine Expr := do
  nonempty .emptyExpression
  let e ← expression n
  finished
  return e

/-- The path that an assignment begins with. -/
def destination : Machine Path := do
  match ← next? with
  | none => expected .destination
  | some t =>
    if t.isRoot then
      advance
      pathFrom t.text
    else expected .destination

/-- All tokens left, as an assignment. -/
def wholeAssignment (n : ℕ) : Machine Assignment := do
  nonempty .emptyAssignment
  let path ← destination
  require "=" .equals
  unfinished .value
  let value ← expression n
  finished
  return ⟨path, value⟩

end Machine

end Formula.Parser
