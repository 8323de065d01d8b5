import Formula.Eval.Log

/-!
# Runs

A `Run` is the outcome of a piece of work together with all that can be observed of it: the *steps*
it took, which are the variables it asked for, the calls it checked and the functions it applied,
and the records it wrote.  Runs compose in sequence, and a failing run ends the sequence, with the
steps and the records up to its failure.
-/

namespace Formula

/-- Something that an evaluation does beyond arithmetic. -/
inductive Step where
  /-- It asks the host for the value of a path. -/
  | lookup (path : Path)
  /-- It checks the name and the number of arguments of a call. -/
  | check (name : String) (found : Nat)
  /-- It applies a function to the values of the arguments. -/
  | apply (name : String) (args : List Float)
deriving DecidableEq

/-- The outcome of some work, its steps and its records. -/
structure Run (ε α : Type) where
  /-- The value or the error. -/
  result : Except ε α
  /-- The steps in order. -/
  steps : List Step
  /-- The records in order. -/
  log : List LogEvent

namespace Run

variable {ε α β : Type}

/-- A value without steps and records. -/
protected def pure (a : α) : Run ε α :=
  ⟨.ok a, [], []⟩

/-- One run, and then the one that `f` gives for its value. -/
protected def bind (r : Run ε α) (f : α → Run ε β) : Run ε β :=
  match r.result with
  | .ok a =>
    let next := f a
    ⟨next.result, r.steps ++ next.steps, r.log ++ next.log⟩
  | .error e => ⟨.error e, r.steps, r.log⟩

instance : Monad (Run ε) where
  pure := Run.pure
  bind := Run.bind

/-- An outcome without steps and records. -/
def ofExcept (result : Except ε α) : Run ε α :=
  ⟨result, [], []⟩

/-- A step. -/
def step (s : Step) : Run ε Unit :=
  ⟨.ok (), [s], []⟩

/-- A record. -/
def record (event : LogEvent) : Run ε Unit :=
  ⟨.ok (), [], [event]⟩

/-- An outcome whose failure is recorded. -/
def recordFailure (event : ε → LogEvent) (result : Except ε α) : Run ε α :=
  match result with
  | .ok a => ⟨.ok a, [], []⟩
  | .error e => ⟨.error e, [], [event e]⟩

/-- The same run with its error seen as one of a wider kind. -/
def mapError {ε' : Type} (f : ε → ε') (r : Run ε α) : Run ε' α :=
  ⟨r.result.mapError f, r.steps, r.log⟩

/-- The paths asked for, in order and as often as asked. -/
def lookups (r : Run ε α) : List Path :=
  r.steps.filterMap fun
    | .lookup path => some path
    | _ => none

/-! ### Sequences -/

variable {r : Run ε α} {f : α → Run ε β}

theorem bind_of_ok {a : α} (h : r.result = .ok a) :
    r >>= f = ⟨(f a).result, r.steps ++ (f a).steps, r.log ++ (f a).log⟩ := by
  change Run.bind r f = _
  rw [Run.bind, h]

theorem bind_of_error {e : ε} (h : r.result = .error e) : r >>= f = ⟨.error e, r.steps, r.log⟩ := by
  change Run.bind r f = _
  rw [Run.bind, h]

theorem mapError_of_ok {ε' : Type} {g : ε → ε'} {a : α} (h : r.result = .ok a) :
    (r.mapError g).result = .ok a := by
  rw [mapError, h]
  rfl

theorem mapError_of_error {ε' : Type} {g : ε → ε'} {e : ε} (h : r.result = .error e) :
    (r.mapError g).result = .error (g e) := by
  rw [mapError, h]
  rfl

end Run

end Formula
