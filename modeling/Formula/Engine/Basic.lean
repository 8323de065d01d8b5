import Formula.Engine.Source
import Formula.Eval.Basic
import Formula.Eval.Builtin

/-!
# Engines

An engine holds settings and a registry of functions.  The settings are the limit on nesting, and
whether the built-in functions are there at the start.  The engine reads sources, checks them, and
evaluates them against the variables of the host.  It keeps nothing from one call to the next; only
its registry changes, when the host changes its functions.
-/

namespace Formula

/-! ### Settings -/

/-- The settings of an engine. -/
structure Settings where
  /-- How many nested levels a formula may have. -/
  maxDepth : Nat
  /-- Whether the built-in functions are there. -/
  builtinFunctions : Bool
deriving DecidableEq, Repr

namespace Settings

/-- The settings where none are given. -/
def standard : Settings := ⟨defaultMaxDepth, true⟩

instance : Inhabited Settings := ⟨standard⟩

/-- The dialect with the limit of the settings, in which every function takes arguments. -/
def dialect (s : Settings) : Dialect :=
  ⟨s.maxDepth, []⟩

end Settings

/-! ### Engines -/

/-- Why a source has no value. -/
inductive Failure where
  /-- It cannot be read. -/
  | source (error : SourceError)
  /-- It can be read, but has no value. -/
  | eval (error : EvalError)
deriving DecidableEq, Repr

/-- Settings and functions. -/
structure Engine where
  /-- The settings. -/
  settings : Settings
  /-- The functions that may be called. -/
  registry : Registry

namespace Engine

variable (engine : Engine)

/-- **A new engine** with the given settings. -/
def ofSettings {ε : Type} (settings : Settings) : Run ε Engine := do
  let registry := if settings.builtinFunctions then Registry.builtins else Registry.empty
  Run.record (.created settings.maxDepth registry.names.length)
  return ⟨settings, registry⟩

/-- The dialect of the engine: just the functions that take no arguments at present may be called
without any. -/
def dialect : Dialect :=
  { engine.settings.dialect with nullary := engine.registry.nullaryNames }

/-! ### Reading -/

/-- The expression that a source writes.  A refusal by the parser is recorded. -/
def expression (source : String) : Run SourceError Expr := do
  let tokens ← Token.read source
  (Run.recordFailure (.rejected source) (Expr.ofTokens engine.dialect tokens)).mapError .parse

/-- The assignment that a source writes.  A refusal by the parser is recorded. -/
def assignment (source : String) : Run SourceError Assignment := do
  let tokens ← Token.read source
  (Run.recordFailure (.rejected source)
    (Assignment.ofTokens engine.dialect tokens)).mapError .parse

/-! ### Evaluating -/

/-- The value of an expression. -/
def eval (vars : Environment) (e : Expr) : Run EvalError Float :=
  e.eval engine.registry vars

/-- The value of an assignment's expression, for its path. -/
def evalAssignment (vars : Environment) (a : Assignment) : Run EvalError Binding :=
  a.eval engine.registry vars

/-- **The value of a source.** -/
def evalSource (vars : Environment) (source : String) : Run Failure Float := do
  let e ← (engine.expression source).mapError .source
  (engine.eval vars e).mapError .eval

/-- **Checks a source without evaluating it**: whether it can be read, and whether its calls are in
order.  The answer is the expression. -/
def check (source : String) : Run Failure Expr := do
  let e ← (engine.expression source).mapError .source
  Run.ofExcept ((e.check engine.registry).mapError .eval)
  return e

end Engine

end Formula
