import Formula.Proofs.Grammar.Tracking

/-!
# The counters of a parser

On a machine the parsers of the grammar never take a level off the counter that is not there, and they never count
a token that is not there. An answer has counted tokens and leaves the levels as they were; an error leaves them
open (`counters_balanced`). So the levels are paid for with tokens all along: a parser that begins anew never has
more levels open than there are tokens behind it, but for one.

Each unary expression holds a level while it is parsed. So the limit on levels, and not the number of tokens, is
what bounds the recursion: a machine with room for one more unary expression than there are levels does just what
the parser does (`room_suffices`).
-/

namespace Formula.Parser

variable {α β : Type} {input : Input} {k i j : ℕ} {c : Cursor}

/-! ### Procedures -/

/-- The procedures of the grammar that read expressions. -/
inductive Procedure where
  /-- One of the six levels of operators, and all tighter ones. -/
  | level (k : Fin 6)
  | unary
  | power
  | primary
deriving DecidableEq

/-- The parser of a procedure. -/
def Procedure.parser : Procedure → Parser Expr
  | .level k => (levels.drop k).foldr Parser.level Parser.unary
  | .unary => Parser.unary
  | .power => Parser.power Parser.unary
  | .primary => Parser.primary Parser.unary

/-- The procedure on a machine with room for `n` unary expressions one inside another. -/
def Procedure.machine (n : ℕ) : Procedure → Machine Expr
  | .level k => Machine.expressionOver (levels.drop k) (Machine.unary n)
  | .unary => Machine.unary n
  | .power => Machine.power (Machine.unary n)
  | .primary => Machine.primary (Machine.unary n)

/-- **The end of a procedure that begins at `c`**, on a machine and as a reply. An answer has counted at least one
token and has closed the levels that were opened; an error stands no farther back, and no level that was open is
closed. -/
inductive Balanced (input : Input) (c : Cursor) : Outcome α → Reply α → Prop
  | done (a : α) {c' : Cursor} (advanced : c.position < c'.position)
      (bounded : c'.position ≤ input.tokens.length) (balanced : c'.depth = c.depth) :
      Balanced input c (.done a c') (.done a (c'.state input))
  | failed (e : ParseError) {c' : Cursor} (moved : c.position ≤ c'.position)
      (bounded : c'.position ≤ input.tokens.length) (kept : c.depth ≤ c'.depth) :
      Balanced input c (.failed e c') (.failed e (c'.state input))

theorem Shows.balanced {o : Outcome α} {r : Reply α} (h : Shows input c 0 1 j o r)
    (hc : c.position ≤ input.tokens.length) : Balanced input c o r := by
  cases h with
  | done a moved bounded balanced =>
    rw [← balanced]
    exact .done a moved (by omega) balanced
  | failed e moved bounded kept paid => exact .failed e moved (by omega) kept

theorem Shows.reply? {o : Outcome α} {r : Reply α} (h : Shows input c 0 i j o r) : o.reply? input = some r := by
  cases h with
  | done a moved bounded balanced =>
    rw [← balanced]
    rfl
  | failed e moved bounded kept paid => rfl

theorem agrees_procedure {n calls : ℕ} (hn : input.dialect.maxDepth < n + min input.dialect.maxDepth c.depth) :
    ∀ p : Procedure, ∃ j, Agrees input calls c 0 1 j (p.machine n input calls c) (p.parser input (c.state input))
  | .level k => ⟨0, tracks_expressionOver (tracks_unary n _) (levels.drop k) calls c hn (Nat.lt_succ_self _)⟩
  | .unary => ⟨0, tracks_unary n _ calls c hn (Nat.lt_succ_self _)⟩
  | .power => ⟨1, tracks_power (tracks_unary n _) calls c hn (Nat.lt_succ_self _)⟩
  | .primary => ⟨1, tracks_primary (tracks_unary n _) calls c hn (Nat.lt_succ_self _)⟩

/-! ### Calls on one machine -/

/-- The ways to call a parser. -/
inductive Entry where
  /-- For a whole expression. -/
  | expression
  /-- For a whole assignment. -/
  | assignment
  /-- For what a procedure reads. -/
  | part (p : Procedure)

/-- The parser of a call, whose value is not kept. -/
def Entry.parser : Entry → Parser Unit
  | .expression => do let _ ← wholeExpression
  | .assignment => do let _ ← wholeAssignment
  | .part p => do let _ ← p.parser

/-- The call on a machine with room for `n` unary expressions one inside another. -/
def Entry.machine (n : ℕ) : Entry → Machine Unit
  | .expression => do let _ ← Machine.wholeExpression n
  | .assignment => do let _ ← Machine.wholeAssignment n
  | .part p => do let _ ← p.machine n

/-- The answers of a parser to calls one after another, each in the state that the last one left. -/
def answers (input : Input) : List Entry → State → List (Reply Unit)
  | [], _ => []
  | entry :: entries, s => entry.parser input s :: answers input entries (entry.parser input s).state

/-- The counters at the end of a run, if it ends with a reply. -/
def Outcome.cursor? : Outcome α → Option Cursor
  | .done _ c => some c
  | .failed _ c => some c
  | .underflow => none
  | .exhausted => none

/-- The runs of a machine on calls one after another. A run that does not end with a reply is the last one. -/
def runs (n : ℕ) (input : Input) : List Entry → Cursor → List (Trace Unit)
  | [], _ => []
  | entry :: entries, c =>
    let t := entry.machine n input 0 c
    t :: t.outcome.cursor?.elim [] (runs n input entries)

theorem Shows.cursor? {o : Outcome α} {r : Reply α} (h : Shows input c 0 i j o r) :
    ∃ c', o.cursor? = some c' ∧ r.state = c'.state input := by
  cases h with
  | @done a d moved bounded balanced =>
    have hdepth : d.depth = c.depth := balanced
    exact ⟨d, rfl, by rw [Cursor.state, hdepth]; rfl⟩
  | @failed e d moved bounded kept paid => exact ⟨d, rfl, rfl⟩

theorem agrees_entry {n calls : ℕ} (hn : input.dialect.maxDepth < n + min input.dialect.maxDepth c.depth) :
    ∀ entry : Entry, Agrees input calls c 0 0 0 (entry.machine n input calls c) (entry.parser input (c.state input))
  | .expression =>
    (tracks_wholeExpression n _ calls c hn (Nat.lt_succ_self _)).bind (Nat.zero_le _) (Nat.zero_le _)
      fun _ _ _ _ => Agrees.pure ()
  | .assignment =>
    (tracks_wholeAssignment n _ calls c hn (Nat.lt_succ_self _)).bind (Nat.zero_le _) (Nat.zero_le _)
      fun _ _ _ _ => Agrees.pure ()
  | .part p =>
    let ⟨_, h⟩ := agrees_procedure hn p
    h.bind (Nat.zero_le _) (Nat.zero_le _) fun _ _ _ _ => Agrees.pure ()

/-- **No call ends without a reply**, whatever calls came before it. -/
theorem reply?_runs {n : ℕ} (hn : input.dialect.maxDepth < n) (entries : List Entry) (c : Cursor) :
    (runs n input entries c).map (·.outcome.reply? input) = (answers input entries (c.state input)).map some := by
  induction entries generalizing c with
  | nil => rfl
  | cons entry entries ih =>
    have hagrees : Agrees input 0 c 0 0 0 (entry.machine n input 0 c) (entry.parser input (c.state input)) :=
      agrees_entry (by omega) entry
    obtain ⟨c', hcursor, hstate⟩ := hagrees.shows.cursor?
    rw [answers, runs, hcursor, hstate, List.map_cons, List.map_cons, hagrees.shows.reply?]
    exact congrArg _ (ih c')

/-! ### Main statements -/

/-- **The counters are balanced.** Each procedure, begun anywhere among the tokens and with any number of levels
open, counts a token for an answer and leaves the levels as they were, and leaves them open at an error. However
often a parser is called, no level is closed that is not open. And in the first call on a new parser there is at no
moment more than one level more than there are tokens behind it. -/
theorem counters_balanced (input : Input) (n : ℕ) (hn : input.dialect.maxDepth < n) :
    (∀ (p : Procedure) (c : Cursor), c.position ≤ input.tokens.length →
      Balanced input c (p.machine n input 0 c).outcome (p.parser input (c.state input))) ∧
    (∀ entries : List Entry, (runs n input entries ⟨0, 0⟩).map (·.outcome.reply? input) =
      (answers input entries input.start).map some) ∧
    ∀ entry : Entry, ∀ x ∈ (entry.machine n input 0 ⟨0, 0⟩).moments, x.cursor.depth ≤ x.cursor.position + 1 := by
  refine ⟨fun p c hc => ?_, fun entries => reply?_runs hn entries ⟨0, 0⟩, fun entry x hx => ?_⟩
  · have hroom : input.dialect.maxDepth < n + min input.dialect.maxDepth c.depth := by omega
    obtain ⟨j, hagrees⟩ := agrees_procedure hroom p
    exact hagrees.shows.balanced hc
  · have hroom : input.dialect.maxDepth < n + min input.dialect.maxDepth (Cursor.mk 0 0).depth :=
      Nat.lt_add_right _ hn
    have hpaid := ((agrees_entry hroom entry).within x hx).paid
    simp only at hpaid
    omega

/-- The tokens of `1+a.-2` under the limit two. The first call ends behind the point with a level open; the next two
end at the number, where one level more is too many. -/
theorem counters_balanced_dotted :
    let input : Input := ⟨[⟨.number, "1", 0⟩, ⟨.symbol, "+", 1⟩, ⟨.name, "a", 2⟩, ⟨.symbol, ".", 3⟩,
      ⟨.symbol, "-", 4⟩, ⟨.number, "2", 5⟩], ⟨2, []⟩⟩
    let entries : List Entry := [.expression, .expression, .part .power]
    input.dialect.maxDepth < 3 ∧
      Balanced input ⟨0, 0⟩ (Machine.unary 3 input 0 ⟨0, 0⟩).outcome (unary input input.start) ∧
      (runs 3 input entries ⟨0, 0⟩).map (·.outcome.reply? input) = (answers input entries input.start).map some ∧
      (runs 3 input entries ⟨0, 0⟩).map (·.outcome.cursor?) = [some ⟨4, 1⟩, some ⟨5, 2⟩, some ⟨6, 2⟩] := by
  intro input entries
  have hlimit : input.dialect.maxDepth < 3 := by decide
  have hbalanced := counters_balanced input 3 hlimit
  exact ⟨hlimit, hbalanced.1 .unary ⟨0, 0⟩ (by decide), hbalanced.2.1 entries, by decide +kernel⟩

/-- **The limit bounds the recursion**, from any state and whichever parser is called. A machine with room for one more
unary expression than the limit allows levels never runs out of it and does just what the parser does; and at no moment
are there more unary expressions past the check of their level, one inside another, than there were levels left at the
beginning. -/
theorem room_suffices (input : Input) (c : Cursor) :
    let n := input.dialect.maxDepth + 1
    (Machine.wholeExpression n input 0 c).outcome.reply? input = some (wholeExpression input (c.state input)) ∧
    (Machine.wholeAssignment n input 0 c).outcome.reply? input = some (wholeAssignment input (c.state input)) ∧
    (∀ x ∈ (Machine.wholeExpression n input 0 c).moments, x.calls ≤ input.dialect.maxDepth - c.depth) ∧
    (∀ x ∈ (Machine.wholeAssignment n input 0 c).moments, x.calls ≤ input.dialect.maxDepth - c.depth) ∧
    (∀ p : Procedure, (p.machine n input 0 c).outcome.reply? input = some (p.parser input (c.state input)) ∧
      ∀ x ∈ (p.machine n input 0 c).moments, x.calls ≤ input.dialect.maxDepth - c.depth) ∧
    unary input (c.state input) = unaryLevel unary input (c.state input) := by
  intro n
  have hn : input.dialect.maxDepth < n + min input.dialect.maxDepth c.depth := by omega
  have hleft := Nat.lt_succ_self (input.tokens.length - c.position)
  have hexpression := tracks_wholeExpression n _ 0 c hn hleft
  have hassignment := tracks_wholeAssignment n _ 0 c hn hleft
  have hunary := (tracks_unary (n + 1) _ 0 c (by omega) hleft).shows.reply?
  have hturn := (tracks_unaryLevel (tracks_unary n _) 0 c (by omega) hleft).shows.reply?
  refine ⟨hexpression.shows.reply?, hassignment.shows.reply?, fun x hx => ?_, fun x hx => ?_, fun p => ?_, ?_⟩
  · have hcalls := (hexpression.within x hx).nested
    omega
  · have hcalls := (hassignment.within x hx).nested
    omega
  · obtain ⟨j, hprocedure⟩ := agrees_procedure hn p
    refine ⟨hprocedure.shows.reply?, fun x hx => ?_⟩
    have hcalls := (hprocedure.within x hx).nested
    omega
  · exact Option.some.inj (hunary.symm.trans hturn)

/-- With less room the recursion can come to its end: the two levels of `(1)` need room for two. -/
example : (Machine.wholeExpression 1 ⟨[⟨.symbol, "(", 0⟩, ⟨.number, "1", 1⟩, ⟨.symbol, ")", 2⟩], ⟨2, []⟩⟩ 0
    ⟨0, 0⟩).outcome = .exhausted := rfl

end Formula.Parser
