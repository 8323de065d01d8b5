import Formula.Proofs.Grammar.Machine

/-!
# A machine does what the parser does

A run of the machine is compared with the reply of the parser (`Agrees`) at its end and at all of its moments. What
is said about the end and about the moments is closed under putting one run behind another (`Agrees.bind`), so each
parser of the grammar has one lemma, in the order in which they are defined.

Two things that differ have to be brought together. The machine closes the levels of a chain behind it, and the
parser closes each behind its operand; so an answer may have some levels fewer than there were (`k` in `Shows`).
And the turns of the parser's recursion are paid with tokens, those of the machine with levels (`Tracks`).
-/

namespace Formula.Parser

variable {α β : Type} {input : Input} {calls i i' j j' k l m n : ℕ} {c c' : Cursor}

/-! ### Places -/

theorem Cursor.head?_state (input : Input) (c : Cursor) :
    (c.state input).rest.head? = input.tokens[c.position]? :=
  List.head?_drop

theorem Cursor.tail_state (input : Input) (c : Cursor) :
    (c.state input).rest.tail = input.tokens.drop (c.position + 1) :=
  List.tail_drop

theorem Cursor.length_state (input : Input) (c : Cursor) :
    (c.state input).rest.length = input.tokens.length - c.position :=
  List.length_drop

theorem Cursor.position_state (input : Input) (c : Cursor) :
    (c.state input).position input = input.tokens[c.position]?.elim input.stop (·.position) := by
  rw [← c.head?_state, State.position]
  cases (c.state input).rest <;> rfl

theorem Cursor.depth_state (input : Input) (c : Cursor) : (c.state input).depth = c.depth := rfl

theorem Cursor.state_deeper (input : Input) (c : Cursor) : (c.state input).deeper = c.deeper.state input := rfl

@[simp] theorem Cursor.position_further (c : Cursor) : c.further.position = c.position + 1 := rfl
@[simp] theorem Cursor.depth_further (c : Cursor) : c.further.depth = c.depth := rfl
@[simp] theorem Cursor.position_deeper (c : Cursor) : c.deeper.position = c.position := rfl
@[simp] theorem Cursor.depth_deeper (c : Cursor) : c.deeper.depth = c.depth + 1 := rfl
@[simp] theorem Cursor.position_shallower (c : Cursor) : (c.shallower k).position = c.position := rfl
@[simp] theorem Cursor.depth_shallower (c : Cursor) : (c.shallower k).depth = c.depth - k := rfl

/-! ### What a run keeps -/

/-- **What holds at every moment** of a run that begins at `c`. A level is open only behind a token that paid for
it, but for the one that the run may open first, and `j` tokens are counted before that one; each unary expression
around the moment holds one of the levels that were left at the beginning. -/
structure Moment.Within (input : Input) (calls : ℕ) (c : Cursor) (j : ℕ) (x : Moment) : Prop where
  paid : x.cursor.depth + c.position + j ≤ c.depth + x.cursor.position + 1
  nested : x.calls ≤ calls + (input.dialect.maxDepth - c.depth)

/-- **The end of a run shows a reply** to what begins at `c`. An answer has at least `i` tokens behind it, and `k`
levels less than there were, which the parser leaves to those who opened them; an error leaves all levels open. -/
inductive Shows (input : Input) (c : Cursor) (k i j : ℕ) : Outcome α → Reply α → Prop
  | done (a : α) {d : Cursor} (moved : c.position + i ≤ d.position)
      (bounded : d.position ≤ max c.position input.tokens.length) (balanced : d.depth + k = c.depth) :
      Shows input c k i j (.done a d) (.done a ⟨input.tokens.drop d.position, c.depth⟩)
  | failed (e : ParseError) {d : Cursor} (moved : c.position ≤ d.position)
      (bounded : d.position ≤ max c.position input.tokens.length) (kept : c.depth ≤ d.depth)
      (paid : d.depth + c.position + j ≤ c.depth + d.position + 1) :
      Shows input c k i j (.failed e d) (.failed e (d.state input))

/-- **A run agrees with a reply**, at its end and all along. -/
structure Agrees (input : Input) (calls : ℕ) (c : Cursor) (k i j : ℕ) (t : Trace α) (r : Reply α) : Prop where
  shows : Shows input c k i j t.outcome r
  within : ∀ x ∈ t.moments, x.Within input calls c j

/-! ### Rules -/

/-- What holds behind a first part of a run holds from the beginning. -/
theorem Moment.Within.after {x : Moment} (h : x.Within input calls c' j')
    (moved : c.position + j ≤ c'.position + j') (balanced : c'.depth = c.depth) :
    x.Within input calls c j := by
  obtain ⟨hpaid, hnested⟩ := h
  exact ⟨by omega, by rwa [balanced] at hnested⟩

/-- What holds behind a level that is opened holds before it. -/
theorem Moment.Within.enter {x : Moment} {calls' : ℕ} (h : x.Within input calls' c.deeper 1)
    (hcalls : calls' + (input.dialect.maxDepth - (c.depth + 1)) ≤ calls + (input.dialect.maxDepth - c.depth)) :
    x.Within input calls c 0 := by
  obtain ⟨hpaid, hnested⟩ := h
  simp only [Cursor.position_deeper, Cursor.depth_deeper] at hpaid hnested
  exact ⟨by omega, by omega⟩

theorem Shows.after {o : Outcome α} {r : Reply α} (h : Shows input c' k i' j' o r)
    (hle : c.position ≤ c'.position) (hi : c.position + i ≤ c'.position + i')
    (hj : c.position + j ≤ c'.position + j') (bounded : c'.position ≤ max c.position input.tokens.length)
    (balanced : c'.depth = c.depth) : Shows input c k i j o r := by
  cases h with
  | done b moved' bounded' balanced' =>
    rw [balanced]
    exact .done b (by omega) (by omega) (by omega)
  | failed e moved' bounded' kept' paid' => exact .failed e (by omega) (by omega) (by omega) (by omega)

namespace Agrees

variable {t : Trace α} {r : Reply α} {p : Machine α} {f : α → Machine β} {q : Parser α} {g : α → Parser β}

theorem pure (a : α) : Agrees input calls c 0 0 j ((Pure.pure a : Machine α) input calls c)
    ((Pure.pure a : Parser α) input (c.state input)) :=
  ⟨.done a le_rfl (le_max_left _ _) rfl, fun _ hx => absurd hx List.not_mem_nil⟩

/-- **One run behind another.** The tokens of the first pay for the levels of the second. -/
theorem bind (hp : Agrees input calls c 0 i j' (p input calls c) (q input (c.state input)))
    (hl : l ≤ i) (hj : j ≤ min i j')
    (hf : ∀ a c', c.position + i ≤ c'.position → c'.depth = c.depth →
      Agrees input calls c' k 0 0 (f a input calls c') (g a input (c'.state input))) :
    Agrees input calls c k l j ((p >>= f) input calls c) ((q >>= g) input (c.state input)) := by
  rw [bind_apply]
  change Agrees input calls c k l j (Machine.bind p f input calls c) _
  unfold Machine.bind
  obtain ⟨hshows, hwithin⟩ := hp
  generalize q input (c.state input) = r at hshows
  generalize p input calls c = t at hshows hwithin
  obtain ⟨moments, outcome⟩ := t
  dsimp only at hshows hwithin
  have hwithin : ∀ x ∈ moments, x.Within input calls c j :=
    fun x hx => (hwithin x hx).after (by omega) rfl
  cases hshows with
  | failed e moved bounded kept paid => exact ⟨.failed e moved bounded kept (by omega), hwithin⟩
  | @done a c₁ moved bounded balanced =>
    have hdepth : c₁.depth = c.depth := balanced
    obtain ⟨hshows', hwithin'⟩ := hf a c₁ moved hdepth
    rw [Cursor.state, hdepth] at hshows'
    refine ⟨hshows'.after (by omega) (by omega) (by omega) bounded hdepth, fun x hx => ?_⟩
    rcases List.mem_append.mp hx with hx | hx
    · exact hwithin x hx
    · exact (hwithin' x hx).after (by omega) hdepth

/-- Looking changes nothing. -/
theorem look {v : Input → Cursor → α} {a : α} (hv : v input c = a)
    (hq : q input (c.state input) = .done a (c.state input))
    (hf : Agrees input calls c k i j (f a input calls c) (g a input (c.state input))) :
    Agrees input calls c k i j ((Machine.look v >>= f) input calls c) ((q >>= g) input (c.state input)) := by
  rw [bind_apply, hq]
  subst hv
  exact hf

theorem throw (e : ParseError) (hj : j ≤ 1) :
    Agrees input calls c k i j ((Machine.throw e : Machine α) input calls c) (.failed e (c.state input)) :=
  ⟨.failed e le_rfl (le_max_left _ _) le_rfl (by omega), fun _ hx => absurd hx List.not_mem_nil⟩

theorem fail_apply (fault : ParseFault) (input : Input) (calls : ℕ) (c : Cursor) :
    (Machine.fail fault : Machine α) input calls c =
      ⟨[], .failed ⟨(c.state input).position input, fault⟩ c⟩ := by
  rw [c.position_state]
  rfl

theorem fail (fault : ParseFault) (hj : j ≤ 1) :
    Agrees input calls c k i j ((Machine.fail fault : Machine α) input calls c)
      ((Parser.fail fault : Parser α) input (c.state input)) := by
  rw [fail_apply]
  exact throw _ hj

theorem expected (what : Expectation) (hj : j ≤ 1) :
    Agrees input calls c k i j ((Machine.expected what : Machine α) input calls c)
      ((Parser.expected what : Parser α) input (c.state input)) := by
  rw [Parser.expected, c.head?_state]
  exact fail _ hj

theorem next {f : Option Token → Machine β} {g : Option Token → Parser β}
    (hnone : Agrees input calls c k i j (f none input calls c) (g none input (c.state input)))
    (hsome : ∀ t, input.tokens[c.position]? = some t → c.position < input.tokens.length →
      Agrees input calls c k i j (f (some t) input calls c) (g (some t) input (c.state input))) :
    Agrees input calls c k i j ((Machine.next? >>= f) input calls c)
      ((Parser.next? >>= g) input (c.state input)) := by
  have hnext : Parser.next? input (c.state input) = .done input.tokens[c.position]? (c.state input) := by
    rw [Parser.next?, c.head?_state]
  cases ht : input.tokens[c.position]? with
  | none => exact look ht (ht ▸ hnext) hnone
  | some t => exact look ht (ht ▸ hnext) (hsome t ht (List.getElem?_eq_some_iff.mp ht).1)

theorem nextIs {symbol : String} {f : Bool → Machine β} {g : Bool → Parser β}
    (htrue : c.position < input.tokens.length →
      Agrees input calls c k i j (f true input calls c) (g true input (c.state input)))
    (hfalse : Agrees input calls c k i j (f false input calls c) (g false input (c.state input))) :
    Agrees input calls c k i j ((Machine.nextIs symbol >>= f) input calls c)
      ((Parser.nextIs symbol >>= g) input (c.state input)) := by
  have hnext : Parser.nextIs symbol input (c.state input) =
      .done (input.tokens[c.position]?.any (·.isSymbol symbol)) (c.state input) := by
    rw [Parser.nextIs, c.head?_state]
  cases h : input.tokens[c.position]?.any (·.isSymbol symbol) with
  | false => exact look h (h ▸ hnext) hfalse
  | true =>
    obtain ⟨t, ht, -⟩ := (Option.any_eq_true _ _).mp h
    exact look h (h ▸ hnext) (htrue (List.getElem?_eq_some_iff.mp ht).1)

/-- **Where there is a token, it is counted.** -/
theorem advance (hc : c.position < input.tokens.length) :
    Agrees input calls c 0 1 1 (Machine.advance input calls c) (Parser.advance input (c.state input)) := by
  constructor
  · have hbound : c.further.position ≤ max c.position input.tokens.length := by
      rw [Cursor.position_further]
      omega
    rw [Parser.advance, c.tail_state]
    exact .done () le_rfl hbound rfl
  · intro x hx
    obtain rfl := List.mem_singleton.mp hx
    exact ⟨by simp only [Cursor.position_further, Cursor.depth_further]; omega, Nat.le_add_right _ _⟩

theorem require {symbol : String} (what : Expectation) (hj : j ≤ 1) :
    Agrees input calls c 0 0 j (Machine.require symbol what input calls c)
      (Parser.require symbol what input (c.state input)) := by
  refine nextIs (fun hc => ?_) (expected what hj)
  have hadvance : Agrees input calls c 0 1 1 (Machine.advance input calls c) (Parser.advance input (c.state input)) :=
    advance hc
  obtain ⟨hshows, hwithin⟩ := hadvance
  exact ⟨hshows.after le_rfl (by omega) (by omega) (le_max_left _ _) rfl, fun x hx => (hwithin x hx).after (by omega) rfl⟩

/-- A level is opened, and it is one too many or not. -/
theorem enter_apply (f : Unit → Machine β) (input : Input) (calls : ℕ) (c : Cursor) :
    (Machine.enter >>= f) input calls c =
      Trace.behind [⟨c.deeper, calls⟩]
        (if input.dialect.maxDepth < c.depth + 1 then
          Machine.fail (.tooDeep input.dialect.maxDepth) input calls c.deeper
        else f () input calls c.deeper) := by
  change Machine.bind Machine.enter f input calls c = _
  have henter : Machine.enter input calls c =
      Trace.behind [⟨c.deeper, calls⟩]
        ((if input.dialect.maxDepth < c.depth + 1 then Machine.fail (.tooDeep input.dialect.maxDepth)
          else Pure.pure () : Machine Unit) input calls c.deeper) := rfl
  rw [Machine.bind, henter]
  split_ifs with h <;> rfl

/-- The moment at which a level is opened. -/
theorem within_deeper : Moment.Within input calls c 0 ⟨c.deeper, calls⟩ :=
  ⟨by simp only [Cursor.position_deeper, Cursor.depth_deeper]; omega, Nat.le_add_right _ _⟩

/-- One level too many. -/
theorem tooDeep : Agrees input calls c k i 0
    (Trace.behind [⟨c.deeper, calls⟩]
      ((Machine.fail (.tooDeep input.dialect.maxDepth) : Machine β) input calls c.deeper))
    (Parser.fail (.tooDeep input.dialect.maxDepth) input (c.state input).deeper) := by
  rw [fail_apply]
  have hpaid : c.deeper.depth + c.position ≤ c.depth + c.deeper.position + 1 := by
    simp only [Cursor.position_deeper, Cursor.depth_deeper]
    omega
  refine ⟨.failed _ le_rfl (le_max_left _ _) (Nat.le_succ _) hpaid, ?_⟩
  exact List.forall_mem_cons.mpr ⟨within_deeper, fun _ hx => absurd hx List.not_mem_nil⟩

/-- **A level that the machine closes later.** -/
theorem inside {f : Unit → Machine β} {q : Parser β}
    (h : c.depth + 1 ≤ input.dialect.maxDepth → Agrees input calls c.deeper (k + 1) i 1
      (f () input calls c.deeper) (q input (c.deeper.state input))) :
    Agrees input calls c k i 0 ((Machine.enter >>= f) input calls c) (Parser.inside q input (c.state input)) := by
  rw [enter_apply, Parser.inside, c.depth_state, c.state_deeper]
  by_cases hdeep : input.dialect.maxDepth < c.depth + 1
  · rw [if_pos hdeep, if_pos hdeep]
    exact tooDeep
  · rw [if_neg hdeep, if_neg hdeep]
    obtain ⟨hshows, hwithin⟩ := h (Nat.not_lt.mp hdeep)
    generalize q input (c.deeper.state input) = r at hshows ⊢
    generalize f () input calls c.deeper = t at hshows hwithin ⊢
    obtain ⟨moments, outcome⟩ := t
    dsimp only at hshows hwithin
    refine ⟨?_, List.forall_mem_cons.mpr ⟨within_deeper, fun x hx => ?_⟩⟩
    · cases hshows with
      | done b moved bounded balanced =>
        rw [Cursor.depth_deeper] at balanced
        exact .done b moved bounded (by omega)
      | failed e moved bounded kept paid =>
        simp only [Cursor.position_deeper, Cursor.depth_deeper] at kept paid
        exact .failed e moved bounded (by omega) (by omega)
    · exact (hwithin x hx).enter (by omega)

theorem close_apply (hk : k ≤ c.depth) :
    Machine.close k input calls c = ⟨[⟨c.shallower k, calls⟩], .done () (c.shallower k)⟩ := by
  rw [Machine.close, if_pos hk]
  rfl

theorem closing_of_done {p : Machine β} {moments : List Moment} {b : β}
    (h : p input calls c = ⟨moments, .done b c'⟩) (hc : 1 ≤ c'.depth) :
    Machine.closing p input calls c =
      ⟨moments ++ [⟨c'.shallower 1, calls⟩], .done b (c'.shallower 1)⟩ := by
  rw [Machine.closing, h]
  change Trace.behind moments (Machine.bind (Machine.close 1) (fun _ => Pure.pure b) input calls c') = _
  rw [Machine.bind, close_apply hc]
  rfl

theorem closing_of_failed {p : Machine β} {moments : List Moment} {e : ParseError}
    (h : p input calls c = ⟨moments, .failed e c'⟩) (hc : 1 ≤ c'.depth) :
    Machine.closing p input calls c =
      ⟨moments ++ [⟨c'.shallower 1, calls⟩], .failed e (c'.shallower 1)⟩ := by
  rw [Machine.closing, h]
  change Trace.behind moments (Machine.bind (Machine.close 1) (fun _ => Machine.throw e) input calls c') = _
  rw [Machine.bind, close_apply hc]
  rfl

/-- **A unary expression**, whose level is closed whatever the answer is. -/
theorem insideFinally {p : Machine β} {q : Parser β}
    (h : c.depth + 1 ≤ input.dialect.maxDepth → Agrees input (calls + 1) c.deeper 0 i 1
      (p input (calls + 1) c.deeper) (q input (c.deeper.state input))) :
    Agrees input calls c 0 i 0 ((do Machine.enter; Machine.nest (Machine.closing p)) input calls c)
      (Parser.insideFinally q input (c.state input)) := by
  rw [enter_apply, Parser.insideFinally, c.depth_state, c.state_deeper]
  by_cases hdeep : input.dialect.maxDepth < c.depth + 1
  · rw [if_pos hdeep, if_pos hdeep]
    exact tooDeep
  rw [if_neg hdeep, if_neg hdeep, Machine.nest]
  obtain ⟨hshows, hwithin⟩ := h (Nat.not_lt.mp hdeep)
  -- The moments are those of `p`, with the opening of the level before and its closing behind them.
  have hmoments : ∀ {moments : List Moment} {c' : Cursor}, (∀ x ∈ moments, x.Within input (calls + 1) c.deeper 1) →
      c'.depth - 1 + c.position ≤ c.depth + c'.position + 1 → ∀ x ∈ ⟨c.deeper, calls⟩ :: ⟨c.deeper, calls + 1⟩ ::
        (moments ++ [⟨c'.shallower 1, calls + 1⟩]), x.Within input calls c 0 := by
    intro moments c' hwithin hpaid
    refine List.forall_mem_cons.mpr ⟨within_deeper, List.forall_mem_cons.mpr ⟨?_, fun x hx => ?_⟩⟩
    · exact ⟨by simp only [Cursor.position_deeper, Cursor.depth_deeper]; omega, by simp only; omega⟩
    · rcases List.mem_append.mp hx with hx | hx
      · exact (hwithin x hx).enter (by omega)
      · obtain rfl := List.mem_singleton.mp hx
        exact ⟨by simp only [Cursor.position_shallower, Cursor.depth_shallower]; omega, by simp only; omega⟩
  cases hp : p input (calls + 1) c.deeper with
  | mk moments outcome =>
    rw [hp] at hshows hwithin
    generalize q input (c.deeper.state input) = r at hshows ⊢
    dsimp only at hshows hwithin
    cases hshows with
    | @done b c' moved bounded balanced =>
      simp only [Cursor.position_deeper, Cursor.depth_deeper] at moved bounded balanced
      rw [closing_of_done hp (by omega)]
      exact ⟨.done b (d := c'.shallower 1) moved bounded (by simp only [Cursor.depth_shallower]; omega),
        hmoments hwithin (by omega)⟩
    | @failed e c' moved bounded kept paid =>
      simp only [Cursor.position_deeper, Cursor.depth_deeper] at moved bounded kept paid
      rw [closing_of_failed hp (by omega)]
      exact ⟨.failed e (d := c'.shallower 1) moved bounded (by simp only [Cursor.depth_shallower]; omega)
        (by simp only [Cursor.position_shallower, Cursor.depth_shallower]; omega),
        hmoments hwithin (by omega)⟩

end Agrees

/-! ### The parsers of the grammar -/

/-- **The machine tracks the parser** wherever less than `m` tokens are left and there is room for `n` nested unary
expressions, which is enough for the levels that are left. -/
def Tracks (input : Input) (n m i j : ℕ) (p : Machine α) (q : Parser α) : Prop :=
  ∀ calls c, input.dialect.maxDepth < n + min input.dialect.maxDepth c.depth →
    input.tokens.length - c.position < m → Agrees input calls c 0 i j (p input calls c) (q input (c.state input))

variable {p item : Machine Expr} {q item' : Parser Expr}

theorem operator?_eq (ops : List BinaryOp) (s : State) :
    operator? ops input s = .done (s.rest.head?.bind (Machine.binaryOf ops)) s := by
  rw [operator?, bind_apply, next?]
  cases s.rest.head? with
  | none => rfl
  | some t =>
    dsimp only [Option.bind_some]
    rw [Machine.binaryOf]
    split_ifs <;> rfl

theorem sign?_eq (s : State) : sign? input s = .done (s.rest.head?.bind Machine.unaryOf) s := by
  rw [sign?, bind_apply, next?]
  cases s.rest.head? with
  | none => rfl
  | some t =>
    dsimp only [Option.bind_some]
    rw [Machine.unaryOf]
    split_ifs <;> rfl

theorem Agrees.operator? {ops : List BinaryOp} {f : Option BinaryOp → Machine β} {g : Option BinaryOp → Parser β}
    (hnone : Agrees input calls c k i j (f none input calls c) (g none input (c.state input)))
    (hsome : ∀ op, c.position < input.tokens.length →
      Agrees input calls c k i j (f (some op) input calls c) (g (some op) input (c.state input))) :
    Agrees input calls c k i j ((Machine.operator? ops >>= f) input calls c)
      ((Parser.operator? ops >>= g) input (c.state input)) := by
  have hop : Parser.operator? ops input (c.state input) = _ := operator?_eq ops _
  rw [c.head?_state] at hop
  cases ho : input.tokens[c.position]?.bind (Machine.binaryOf ops) with
  | none => exact look ho (ho ▸ hop) hnone
  | some op =>
    obtain ⟨t, ht, -⟩ := Option.bind_eq_some_iff.mp ho
    exact look ho (ho ▸ hop) (hsome op (List.getElem?_eq_some_iff.mp ht).1)

theorem Agrees.sign? {f : Option UnaryOp → Machine β} {g : Option UnaryOp → Parser β}
    (hnone : Agrees input calls c k i j (f none input calls c) (g none input (c.state input)))
    (hsome : ∀ op, c.position < input.tokens.length →
      Agrees input calls c k i j (f (some op) input calls c) (g (some op) input (c.state input))) :
    Agrees input calls c k i j ((Machine.sign? >>= f) input calls c)
      ((Parser.sign? >>= g) input (c.state input)) := by
  have hop : Parser.sign? input (c.state input) = _ := sign?_eq _
  rw [c.head?_state] at hop
  cases ho : input.tokens[c.position]?.bind Machine.unaryOf with
  | none => exact look ho (ho ▸ hop) hnone
  | some op =>
    obtain ⟨t, ht, -⟩ := Option.bind_eq_some_iff.mp ho
    exact look ho (ho ▸ hop) (hsome op (List.getElem?_eq_some_iff.mp ht).1)

/-- A chain behind `k` operators, whose levels the machine closes at its end. -/
theorem agrees_chain (ops : List BinaryOp) (h : Tracks input n m 1 0 p q) : ∀ fuel k x calls c, k ≤ c.depth →
    input.dialect.maxDepth < n + min input.dialect.maxDepth c.depth → input.tokens.length - c.position < m →
    Agrees input calls c k 0 0 (Machine.chain ops p fuel k x input calls c)
      (chain ops q fuel x input (c.state input)) := by
  have hstop : ∀ (k : ℕ) (x : Expr) (calls : ℕ) (c : Cursor), k ≤ c.depth →
      Agrees input calls c k 0 0 ((do Machine.close k; return x : Machine Expr) input calls c)
        (.done x (c.state input)) := by
    intro k x calls c hk
    change Agrees input calls c k 0 0 (Machine.bind (Machine.close k) (fun _ => pure x) input calls c) _
    rw [Machine.bind, Agrees.close_apply hk]
    refine ⟨.done x le_rfl (le_max_left _ _) (Nat.sub_add_cancel hk), List.forall_mem_singleton.mpr ?_⟩
    exact ⟨by simp only [Cursor.position_shallower, Cursor.depth_shallower]; omega, Nat.le_add_right _ _⟩
  intro fuel
  induction fuel with
  | zero => exact fun k x calls c hk _ _ => hstop k x calls c hk
  | succ fuel ih =>
    intro k x calls c hk hroom hleft
    refine Agrees.operator? (hstop k x calls c hk) fun op hc => Agrees.inside fun hlimit => ?_
    refine (Agrees.advance (c := c.deeper) hc).bind (by omega) (by omega) fun _ c₁ hmoved₁ hdepth₁ => ?_
    simp only [Cursor.position_deeper, Cursor.depth_deeper] at hmoved₁ hdepth₁
    refine (h calls c₁ (by omega) (by omega)).bind (by omega) (by omega) fun y c₂ hmoved₂ hdepth₂ => ?_
    exact ih (k + 1) _ calls c₂ (by omega) (by omega) (by omega)

theorem tracks_level (ops : List BinaryOp) (h : Tracks input n m 1 0 p q) :
    Tracks input n m 1 0 (Machine.level ops p) (level ops q) := by
  intro calls c hroom hleft
  rw [level_apply]
  refine (h calls c hroom hleft).bind (by omega) (by omega) fun x c₁ hmoved hdepth => ?_
  refine Agrees.look rfl ?_ (agrees_chain ops h _ 0 x calls c₁ (Nat.zero_le _) (by omega) (by omega))
  rw [remaining, c₁.length_state]

theorem tracks_expressionOver (h : Tracks input n m 1 0 p q) (ls : List (List BinaryOp)) :
    Tracks input n m 1 0 (Machine.expressionOver ls p) (ls.foldr level q) := by
  induction ls with
  | nil => exact h
  | cons ops ls ih => exact tracks_level ops ih

/-! ### Primary expressions -/

theorem agrees_number (t : Token) (hc : c.position < input.tokens.length) :
    Agrees input calls c 0 1 1 (Machine.number t input calls c) (number t input (c.state input)) := by
  unfold Machine.number number
  cases Decimal.read? t.text with
  | none => exact Agrees.fail _ le_rfl
  | some x =>
    dsimp only
    split_ifs
    · exact (Agrees.advance hc).bind (by omega) (by omega) fun _ c₁ _ _ => Agrees.pure _
    · exact Agrees.fail _ le_rfl

theorem agrees_moreArguments (h : Tracks input n m 1 0 item item') : ∀ fuel calls c,
    input.dialect.maxDepth < n + min input.dialect.maxDepth c.depth → input.tokens.length - c.position < m →
    Agrees input calls c 0 0 0 (Machine.moreArguments item fuel input calls c)
      (moreArguments item' fuel input (c.state input))
  | 0, calls, c, _, _ => Agrees.pure []
  | fuel + 1, calls, c, hroom, hleft => by
    refine Agrees.nextIs (fun hc => ?_) (Agrees.pure [])
    refine (Agrees.advance hc).bind (by omega) (by omega) fun _ c₁ hmoved₁ hdepth₁ => ?_
    refine (h calls c₁ (by omega) (by omega)).bind (by omega) (by omega) fun y c₂ hmoved₂ hdepth₂ => ?_
    refine (agrees_moreArguments h fuel calls c₂ (by omega) (by omega)).bind (by omega) (by omega) ?_
    exact fun ys c₃ _ _ => Agrees.pure _

theorem tracks_arguments (h : Tracks input n m 1 0 item item') :
    Tracks input n m 1 0 (Machine.arguments item) (arguments item') := by
  intro calls c hroom hleft
  refine (h calls c hroom hleft).bind (by omega) (by omega) fun y c₁ hmoved hdepth => ?_
  refine Agrees.look rfl (by rw [remaining, c₁.length_state]) ?_
  refine (agrees_moreArguments h _ calls c₁ (by omega) (by omega)).bind (by omega) (by omega) ?_
  exact fun ys c₂ _ _ => Agrees.pure _

theorem agrees_callOf (name : String) (h : Tracks input n m 1 0 item item') :
    ∀ calls c, input.dialect.maxDepth < n + min input.dialect.maxDepth c.depth →
      input.tokens.length - c.position < m + 1 → c.position < input.tokens.length →
      Agrees input calls c 0 0 0 (Machine.callOf name item input calls c)
        (callOf name item' input (c.state input)) := by
  intro calls c hroom hleft hc
  refine Agrees.look (v := fun input c => input.tokens[c.position]?.elim input.stop (·.position)) rfl
    (by rw [position, c.position_state]) ?_
  refine (Agrees.advance hc).bind (by omega) (by omega) fun _ c₁ hmoved₁ hdepth₁ => ?_
  refine Agrees.nextIs (fun hc₁ => ?_) ?_
  · refine Agrees.look rfl rfl ?_
    split_ifs
    · exact (Agrees.advance hc₁).bind (by omega) (by omega) fun _ c₂ _ _ => Agrees.pure _
    · exact Agrees.fail _ (Nat.zero_le _)
  · refine (tracks_arguments h calls c₁ (by omega) (by omega)).bind (by omega) (by omega) fun args c₂ _ _ => ?_
    refine (Agrees.require _ (Nat.zero_le _)).bind (by omega) (by omega) fun _ c₃ _ _ => Agrees.pure _

theorem agrees_parenthesized (opened : ℕ) (h : Tracks input n m 1 0 item item') :
    ∀ calls c, input.dialect.maxDepth < n + min input.dialect.maxDepth c.depth →
      input.tokens.length - c.position < m + 1 → c.position < input.tokens.length →
      Agrees input calls c 0 1 1 (Machine.parenthesized opened item input calls c)
        (parenthesized opened item' input (c.state input)) := by
  intro calls c hroom hleft hc
  refine (Agrees.advance hc).bind (by omega) (by omega) fun _ c₁ hmoved₁ hdepth₁ => ?_
  refine (h calls c₁ (by omega) (by omega)).bind (by omega) (by omega) fun e c₂ _ _ => ?_
  exact (Agrees.require _ (Nat.zero_le _)).bind (by omega) (by omega) fun _ c₃ _ _ => Agrees.pure e

/-- The names behind points, up to a point that no name follows. -/
def attributesOrFail : Parser (List String) := do
  let names ← attributes
  if ← nextIs "." then
    advance
    expected .attribute
  else return names

theorem pathFrom_eq (root : String) (s : State) :
    pathFrom root input s = (do return root :: (← attributesOrFail)) input s := by
  simp only [pathFrom, attributesOrFail, bind_apply, attributes, nextIs]
  split_ifs <;> rfl

/-- One name behind a point, and then `more`. -/
def nextAttribute (more : Parser (List String)) : Parser (List String) := do
  if ← nextIs "." then
    advance
    match ← next? with
    | none => expected .attribute
    | some t =>
      if t.kind = .name then
        advance
        return t.text :: (← more)
      else expected .attribute
  else return []

/-- **The names are read one after another.** -/
theorem attributesOrFail_eq (s : State) :
    attributesOrFail input s = nextAttribute attributesOrFail input s := by
  obtain ⟨ts, d⟩ := s
  match ts with
  | [] => rfl
  | [t] =>
    by_cases ht : t.isSymbol "."
    · simp [attributesOrFail, nextAttribute, bind_apply, attributes, splitAttributes, nextIs, advance, next?, ht]
    · simp [attributesOrFail, nextAttribute, bind_apply, attributes, splitAttributes, nextIs, ht]
  | t :: u :: rest =>
    by_cases ht : t.isSymbol "."
    · by_cases hu : u.kind = .name
      · simp [attributesOrFail, nextAttribute, bind_apply, attributes, splitAttributes, nextIs, advance, next?, ht, hu]
        split_ifs <;> rfl
      · simp [attributesOrFail, nextAttribute, bind_apply, attributes, splitAttributes, nextIs, advance, next?, ht, hu]
    · simp [attributesOrFail, nextAttribute, bind_apply, attributes, splitAttributes, nextIs, ht]

theorem agrees_attributes : ∀ fuel calls c, input.tokens.length - c.position ≤ fuel →
    Agrees input calls c 0 0 0 (Machine.attributes fuel input calls c) (attributesOrFail input (c.state input))
  | 0, calls, c, hleft => by
    have hnil : (c.state input).rest = [] := List.length_eq_zero_iff.mp (by rw [c.length_state]; omega)
    have hstop : attributesOrFail input (c.state input) = (pure [] : Parser (List String)) input (c.state input) := by
      rw [attributesOrFail_eq, nextAttribute, bind_apply, nextIs, hnil]
      rfl
    rw [hstop]
    exact Agrees.pure []
  | fuel + 1, calls, c, hleft => by
    rw [attributesOrFail_eq]
    refine Agrees.nextIs (fun hc => ?_) (Agrees.pure [])
    refine (Agrees.advance hc).bind (by omega) (by omega) fun _ c₁ hmoved₁ _ => ?_
    refine Agrees.next (Agrees.expected _ (Nat.zero_le _)) fun t _ hc₁ => ?_
    dsimp only
    split_ifs
    · refine (Agrees.advance hc₁).bind (by omega) (by omega) fun _ c₂ hmoved₂ _ => ?_
      exact (agrees_attributes fuel calls c₂ (by omega)).bind (by omega) (by omega) fun names c₃ _ _ => Agrees.pure _
    · exact Agrees.expected _ (Nat.zero_le _)

theorem agrees_pathFrom (root : String) :
    Agrees input calls c 0 0 0 (Machine.pathFrom root input calls c) (pathFrom root input (c.state input)) := by
  rw [pathFrom_eq]
  have hnames : Agrees input calls c 0 0 0 _ (attributesOrFail input (c.state input)) :=
    agrees_attributes _ calls c le_rfl
  exact hnames.bind (by omega) (by omega) fun names c₁ _ _ => Agrees.pure (root :: names)

/-- **A primary expression** counts a token before it opens a level. -/
theorem tracks_primary (h : Tracks input n m 1 0 p q) :
    Tracks input n (m + 1) 1 1 (Machine.primary p) (primary q) := by
  have hexpression := tracks_expressionOver h levels
  intro calls c hroom hleft
  refine Agrees.next (Agrees.expected _ le_rfl) fun t _ hc => ?_
  dsimp only
  cases t.kind with
  | number => exact agrees_number t hc
  | quoted =>
    refine (Agrees.advance hc).bind (by omega) (by omega) fun _ c₁ _ _ => ?_
    exact (agrees_pathFrom t.text).bind (by omega) (by omega) fun path c₂ _ _ => Agrees.pure _
  | name =>
    refine (Agrees.advance hc).bind (by omega) (by omega) fun _ c₁ hmoved₁ hdepth₁ => ?_
    refine Agrees.nextIs (fun hc₁ => ?_) ?_
    · exact agrees_callOf t.text hexpression calls c₁ (by omega) (by omega) hc₁
    · exact (agrees_pathFrom t.text).bind (by omega) (by omega) fun path c₂ _ _ => Agrees.pure _
  | symbol =>
    dsimp only
    split_ifs
    · exact agrees_parenthesized t.position hexpression calls c hroom hleft hc
    · exact Agrees.expected _ le_rfl

theorem tracks_power (h : Tracks input n m 1 0 p q) :
    Tracks input n (m + 1) 1 1 (Machine.power p) (power q) := by
  intro calls c hroom hleft
  refine (tracks_primary h calls c hroom hleft).bind (by omega) (by omega) fun b c₁ hmoved₁ hdepth₁ => ?_
  refine Agrees.nextIs (fun hc₁ => ?_) (Agrees.pure b)
  refine (Agrees.advance hc₁).bind (by omega) (by omega) fun _ c₂ hmoved₂ hdepth₂ => ?_
  exact (h calls c₂ (by omega) (by omega)).bind (by omega) (by omega) fun y c₃ _ _ => Agrees.pure _

/-- One turn of the cycle takes one of the nested calls for which there is room. -/
theorem tracks_unaryLevel (h : Tracks input n m 1 0 (Machine.unary n) q) :
    Tracks input (n + 1) (m + 1) 1 0 (Machine.unary (n + 1)) (unaryLevel q) := by
  intro calls c hroom hleft
  refine Agrees.insideFinally fun hlimit => ?_
  refine Agrees.sign? ?_ fun op hc => ?_
  · exact tracks_power h (calls + 1) c.deeper (by simp only [Cursor.depth_deeper]; omega) hleft
  · rw [Cursor.position_deeper] at hc
    refine (Agrees.advance (c := c.deeper) hc).bind (by omega) (by omega) fun _ c₁ hmoved₁ hdepth₁ => ?_
    simp only [Cursor.position_deeper, Cursor.depth_deeper] at hmoved₁ hdepth₁
    exact (h (calls + 1) c₁ (by omega) (by omega)).bind (by omega) (by omega) fun x c₂ _ _ => Agrees.pure _

/-- **Turns of the cycle**, as many as there are tokens, do not need more room than there are levels. -/
theorem tracks_nested (stop : Parser Expr) : ∀ n m, Tracks input n m 1 0 (Machine.unary n) (nested stop m)
  | _, 0 => fun _ _ _ hleft => absurd hleft (Nat.not_lt_zero _)
  | 0, _ + 1 => fun _ c hroom _ => by omega
  | n + 1, m + 1 => fun calls c hroom hleft => tracks_unaryLevel (tracks_nested stop n m) calls c hroom hleft

theorem tracks_unary (n m : ℕ) : Tracks input n m 1 0 (Machine.unary n) unary := by
  intro calls c hroom _
  rw [unary, c.length_state]
  exact tracks_nested _ n _ calls c hroom (Nat.lt_succ_self _)

theorem tracks_expression (n m : ℕ) : Tracks input n m 1 0 (Machine.expression n) expression :=
  tracks_expressionOver (tracks_unary n m) levels

/-! ### Whole formulas -/

theorem agrees_nonempty (fault : ParseFault) :
    Agrees input calls c 0 0 0 (Machine.nonempty fault input calls c) (nonempty fault input (c.state input)) := by
  unfold nonempty
  change Agrees input calls c 0 0 0
    ((if input.tokens.isEmpty then Machine.fail fault else pure () : Machine Unit) input calls c) _
  split_ifs
  · exact Agrees.fail fault (Nat.zero_le _)
  · exact Agrees.pure ()

theorem agrees_finished :
    Agrees input calls c 0 0 0 (Machine.finished input calls c) (finished input (c.state input)) :=
  Agrees.next (Agrees.pure ()) fun _ _ _ => Agrees.fail _ (Nat.zero_le _)

theorem agrees_unfinished (what : Expectation) :
    Agrees input calls c 0 0 0 (Machine.unfinished what input calls c) (unfinished what input (c.state input)) :=
  Agrees.next (Agrees.expected _ (Nat.zero_le _)) fun _ _ _ => Agrees.pure ()

theorem agrees_destination :
    Agrees input calls c 0 0 0 (Machine.destination input calls c) (destination input (c.state input)) := by
  refine Agrees.next (Agrees.expected _ (Nat.zero_le _)) fun t _ hc => ?_
  dsimp only
  split_ifs
  · exact (Agrees.advance hc).bind (by omega) (by omega) fun _ c₁ _ _ => agrees_pathFrom t.text
  · exact Agrees.expected _ (Nat.zero_le _)

/-- **The machine does what the parser of whole expressions does**, whatever the counters are at the beginning. -/
theorem tracks_wholeExpression (n m : ℕ) :
    Tracks input n m 0 0 (Machine.wholeExpression n) wholeExpression := by
  intro calls c hroom hleft
  refine (agrees_nonempty _).bind (by omega) (by omega) fun _ c₁ hmoved₁ hdepth₁ => ?_
  refine (tracks_expression n m calls c₁ (by omega) (by omega)).bind (by omega) (by omega) fun e c₂ _ _ => ?_
  exact agrees_finished.bind (by omega) (by omega) fun _ c₃ _ _ => Agrees.pure e

theorem tracks_wholeAssignment (n m : ℕ) :
    Tracks input n m 0 0 (Machine.wholeAssignment n) wholeAssignment := by
  intro calls c hroom hleft
  refine (agrees_nonempty _).bind (by omega) (by omega) fun _ c₁ hmoved₁ hdepth₁ => ?_
  refine agrees_destination.bind (by omega) (by omega) fun path c₂ hmoved₂ hdepth₂ => ?_
  refine (Agrees.require _ (Nat.zero_le 1)).bind (by omega) (by omega) fun _ c₃ hmoved₃ hdepth₃ => ?_
  refine (agrees_unfinished _).bind (by omega) (by omega) fun _ c₄ hmoved₄ hdepth₄ => ?_
  refine (tracks_expression n m calls c₄ (by omega) (by omega)).bind (by omega) (by omega) fun e c₅ _ _ => ?_
  exact agrees_finished.bind (by omega) (by omega) fun _ c₆ _ _ => Agrees.pure _

end Formula.Parser
