import Formula.Expr.Written
import Formula.Proofs.Engine.Checking
import Formula.Proofs.Engine.Dialects
import Formula.Proofs.Eval.Machine
import Formula.Proofs.Written.Tallest

/-!
# How deep the recursion over an accepted tree goes

Whoever goes over a whole tree by recursion, to write it, to take it apart or to count its nodes, has as many
calls inside one another as the tree is high, no more and no less (`Expr.foldIn_eq`). So does an evaluation that
comes to a value.

A limit on nesting bounds this recursion, but not by itself: the greatest height of a tree that is accepted under
the limit `m` is `3 * m ^ 2 - m - 1`. The towers attain it, and since all their functions and paths may be given
values, evaluation is driven there too (`greatest_height`).
-/

namespace Formula

open Grammar
open Formula.Parser (levels)

variable {α β : Type} {n d d' m k : ℕ}

/-! ### Recursion over a tree -/

/-- What a recursion over a tree makes of each node, from what it has made of the parts. -/
structure Expr.Algebra (α : Type) where
  literal : Float → α
  path : Path → α
  unary : UnaryOp → α → α
  binary : α → BinaryOp → α → α
  call : String → List α → α

mutual

/-- The recursion over a tree. -/
def Expr.fold (A : Expr.Algebra α) : Expr → α
  | .literal x => A.literal x
  | .path p => A.path p
  | .unary op x => A.unary op (x.fold A)
  | .binary l op r => A.binary (l.fold A) op (r.fold A)
  | .call f args => A.call f (Expr.foldAll A args)

/-- The recursion over each tree of a list. -/
def Expr.foldAll (A : Expr.Algebra α) : List Expr → List α
  | [] => []
  | x :: xs => x.fold A :: Expr.foldAll A xs

end

mutual

/-- The recursion over a tree with room for `n` nested calls. -/
def Expr.foldIn (A : Expr.Algebra α) : Expr → ℕ → Option α
  | .literal x, n => nest none n fun _ => return A.literal x
  | .path p, n => nest none n fun _ => return A.path p
  | .unary op x, n => nest none n fun n => do
    let a ← x.foldIn A n
    return A.unary op a
  | .binary l op r, n => nest none n fun n => do
    let a ← l.foldIn A n
    let b ← r.foldIn A n
    return A.binary a op b
  | .call f args, n => nest none n fun n => do
    let as ← Expr.foldAllIn A args n
    return A.call f as

/-- The recursion over each tree of a list. -/
def Expr.foldAllIn (A : Expr.Algebra α) : List Expr → ℕ → Option (List α)
  | [], _ => return []
  | x :: xs, n => do
    let a ← x.foldIn A n
    let as ← Expr.foldAllIn A xs n
    return a :: as

end

/-- A piece of work with nested calls `d` deep, which has the value `a` if there is room for them. -/
def Takes (d : ℕ) (work : ℕ → Option α) (a : α) : Prop :=
  ∀ n, work n = if d ≤ n then some a else none

namespace Takes

theorem pure (a : α) : Takes 0 (fun _ => Pure.pure a) a :=
  fun _ => rfl

theorem bind {work : ℕ → Option α} {a : α} {b : β} (h : Takes d work a) (more : α → ℕ → Option β)
    (hmore : Takes d' (more a) b) : Takes (max d d') (fun n => work n >>= fun a => more a n) b := by
  intro n
  dsimp only
  rw [h n]
  by_cases hd : d ≤ n
  · rw [if_pos hd]
    refine (hmore n).trans ?_
    simp only [max_le_iff, hd, true_and]
  · rw [if_neg hd, if_neg fun hmax => hd (le_of_max_le_left hmax)]
    rfl

theorem map {work : ℕ → Option α} {a : α} (h : Takes d work a) (g : α → β) :
    Takes d (fun n => work n >>= fun a => Pure.pure (g a)) (g a) := by
  have hbind : Takes (max d 0) (fun n => work n >>= fun a => Pure.pure (g a)) (g a) :=
    h.bind (fun a _ => Pure.pure (g a)) (pure (g a))
  rwa [Nat.max_zero] at hbind

theorem nest {work : ℕ → Option α} {a : α} (h : Takes d work a) :
    Takes (1 + d) (fun n => Formula.nest none n work) a := by
  intro n
  cases n with
  | zero => rw [if_neg (by omega)]; rfl
  | succ n =>
    refine (h n).trans ?_
    congr 1
    simp only [eq_iff_iff]
    omega

end Takes

mutual

theorem Expr.takes_foldIn (A : Expr.Algebra α) : ∀ e : Expr, Takes e.height (e.foldIn A) (e.fold A)
  | .literal x => (Takes.pure (A.literal x)).nest
  | .path p => (Takes.pure (A.path p)).nest
  | .unary op x => ((x.takes_foldIn A).map (A.unary op)).nest
  | .binary l op r => by
    have hright := (r.takes_foldIn A).map (A.binary (l.fold A) op)
    exact ((l.takes_foldIn A).bind
      (fun a n => do let b ← r.foldIn A n; return A.binary a op b) hright).nest
  | .call f args => ((Expr.takes_foldAllIn A args).map (A.call f)).nest

theorem Expr.takes_foldAllIn (A : Expr.Algebra α) : ∀ es : List Expr,
    Takes (Expr.heightAll es) (Expr.foldAllIn A es) (Expr.foldAll A es)
  | [] => Takes.pure []
  | x :: xs => by
    have hrest := (Expr.takes_foldAllIn A xs).map (x.fold A :: ·)
    exact (x.takes_foldIn A).bind
      (fun a n => do let as ← Expr.foldAllIn A xs n; return a :: as) hrest

end

/-- **A recursion over a tree takes room for its height.** -/
theorem Expr.foldIn_eq (A : Expr.Algebra α) (e : Expr) (n : ℕ) :
    e.foldIn A n = if e.height ≤ n then some (e.fold A) else none :=
  e.takes_foldIn A n

/-! ### Writing -/

/-- What writing makes of each node. -/
def Expr.Algebra.writing : Expr.Algebra String where
  literal := Decimal.display
  path := Path.display
  unary op x := "(" ++ op.symbol ++ x ++ ")"
  binary l op r := "(" ++ l ++ " " ++ op.symbol ++ " " ++ r ++ ")"
  call f args := f ++ "(" ++ ", ".intercalate args ++ ")"

mutual

/-- Writing is a recursion over the tree. -/
theorem Expr.fold_writing : ∀ e : Expr, e.fold .writing = e.display
  | .literal _ => rfl
  | .path _ => rfl
  | .unary _ x => by
    rw [fold, x.fold_writing, display]
    rfl
  | .binary l _ r => by
    rw [fold, l.fold_writing, r.fold_writing, display]
    rfl
  | .call _ [] => rfl
  | .call _ (x :: xs) => by
    rw [fold, foldAll, x.fold_writing, display, displayArgs, ← Expr.intercalate_foldAll x.display xs]
    rfl

theorem Expr.intercalate_foldAll : ∀ (first : String) (xs : List Expr),
    ", ".intercalate (first :: Expr.foldAll .writing xs) = first ++ Expr.displayMore xs
  | first, [] => by
    rw [foldAll, String.intercalate_singleton, displayMore, String.append_empty]
  | first, x :: xs => by
    rw [foldAll, String.intercalate_cons_cons, x.fold_writing, Expr.intercalate_foldAll _ xs,
      displayMore, String.append_assoc, String.append_assoc]

end

/-! ### Evaluating a tower -/

/-- The bodies that compute the functions of a registry. -/
def Registry.bodies (r : Registry) : Bodies := fun name args =>
  (r.get? name).map (·.apply args)

theorem Registry.compute_bodies (r : Registry) : r.bodies.Compute r := by
  intro f g hget args _
  rw [bodies, hget]
  rfl

theorem calls_chainTree (op : BinaryOp) (k : ℕ) (x : Expr) : (chainTree op k x).calls = x.calls := by
  induction k generalizing x with
  | zero => rfl
  | succ k ih =>
    have hbinary : (Expr.binary x op leaf).calls = x.calls ++ [] := rfl
    rw [chainTree, ih, hbinary, List.append_nil]

theorem calls_raiseTree (k : ℕ) (x : Expr) (ls : List (List BinaryOp)) :
    (raiseTree k x ls).calls = x.calls := by
  induction ls with
  | nil => rfl
  | cons ops ls ih => rw [raiseTree, calls_chainTree, ih]

/-- A tower calls one function only, with one argument. -/
theorem calls_towerTree (n : ℕ) : ∀ c ∈ (towerTree n).calls, c = ("f", 1) := by
  induction n with
  | zero =>
    intro c hc
    cases hc
  | succ n ih =>
    have hpower : (Expr.binary (.call "f" [towerTree n]) .power leaf).calls =
        ("f", 1) :: ((towerTree n).calls ++ []) ++ [] := rfl
    rw [towerTree, calls_raiseTree, hpower, List.append_nil, List.append_nil, List.forall_mem_cons]
    exact ⟨rfl, ih⟩

/-- Where no variable fails and all calls are in order, there is a value. -/
theorem Expr.exists_value {registry : Registry} {vars : Environment} {e : Expr}
    (hvars : ∀ p, ∃ x, vars p = .ok x) (hcalls : ∀ c ∈ e.calls, ∃ g, registry.admits c = .ok g) :
    ∃ x, (e.eval registry vars).result = .ok x := by
  cases hresult : (e.eval registry vars).result with
  | ok x => exact ⟨x, rfl⟩
  | error err =>
    obtain ⟨before, s, hfirst⟩ := e.follows_eval.error_iff.mp hresult
    obtain ⟨p, -, -, hp⟩ := Expr.lookup_of_checked hcalls hfirst
    obtain ⟨x, hx⟩ := hvars p
    cases hx.symm.trans hp

/-- **A tower may have a value.** -/
theorem exists_value_towerTree (n : ℕ) : ∃ registry vars x,
    ((towerTree n).eval registry vars).result = .ok x := by
  refine ⟨Registry.empty.insert "f" ⟨1, fun _ => Decimal.zero⟩, fun _ => .ok Decimal.zero, ?_⟩
  refine Expr.exists_value (fun _ => ⟨_, rfl⟩) fun c hc => ?_
  rw [calls_towerTree n c hc]
  exact ⟨_, rfl⟩

/-! ### The greatest height -/

theorem ofSource_mono {Z : List String} {source : String} {e : Expr}
    (h : (Expr.ofSource ⟨m, []⟩ source).result = .ok e) :
    (Expr.ofSource ⟨m, Z⟩ source).result = .ok e := by
  have hwithin : Dialect.Within ⟨m, []⟩ ⟨m, Z⟩ := ⟨Nat.le_refl m, List.nil_subset Z⟩
  obtain ⟨ts, hts, he⟩ := Expr.ofSource_eq_ok_iff.mp h
  exact Expr.ofSource_eq_ok_iff.mpr ⟨ts, hts, Dialect.onlyRefuses_expression.accepts hwithin he⟩

theorem height_towerTree_eq (n : ℕ) :
    (towerTree n).height = 3 * (n + 1) ^ 2 - (n + 1) - 1 := by
  have hclosed := tallest_closed n
  have hsq : (n + 1) ^ 2 = n ^ 2 + 2 * n + 1 := by ring
  rw [height_towerTree]
  omega

/-- A tree of height nine. -/
def nineTree : Expr :=
  let one := .literal Decimal.one
  let power := .binary (.call "f" [one]) .power one
  let sum := .binary (.binary power .multiply one) .add one
  .binary (.binary (.binary (.binary sum .less one) .equal one) .and one) .or one

theorem ofSource_nineTree :
    (Expr.ofSource ⟨2, []⟩ "f(1)^1*1+1<1==1&&1||1").result = .ok nineTree := by
  decide +kernel

/-- **The height that a limit allows.** The greatest height of a tree that is accepted under the limit `m` is
`3 * m ^ 2 - m - 1`, whatever functions may be called without arguments. With room for so many nested calls every
accepted tree can be written, gone over in any other way, and evaluated; and for some accepted tree, which has a
value, less room is not enough for any of these. -/
theorem greatest_height (m : ℕ) (hm : 1 ≤ m) (Z : List String) :
    IsGreatest {h | ∃ ts e, Expr.ofTokens ⟨m, Z⟩ ts = .ok e ∧ e.height = h} (3 * m ^ 2 - m - 1) ∧
    (∀ ts e, Expr.ofTokens ⟨m, Z⟩ ts = .ok e →
      e.foldIn .writing (3 * m ^ 2 - m - 1) = some e.display ∧
      (∀ (α : Type) (A : Expr.Algebra α), e.foldIn A (3 * m ^ 2 - m - 1) = some (e.fold A)) ∧
      ∀ r vars, e.execute r.bodies r vars (3 * m ^ 2 - m - 1) = (e.eval r vars).mapError .refused) ∧
    (∃ source e r vars x, (Expr.ofSource ⟨m, Z⟩ source).result = .ok e ∧
      (e.eval r vars).result = .ok x ∧ ∀ n < 3 * m ^ 2 - m - 1,
        e.foldIn .writing n = none ∧ (∀ (α : Type) (A : Expr.Algebra α), e.foldIn A n = none) ∧
        (e.execute r.bodies r vars n).result = .error .exhausted) ∧
    ∃ e, (Expr.ofSource ⟨2, Z⟩ "f(1)^1*1+1<1==1&&1||1").result = .ok e ∧ e.height = 9 := by
  have hbound : ∀ ts e, Expr.ofTokens ⟨m, Z⟩ ts = .ok e → e.height ≤ 3 * m ^ 2 - m - 1 := by
    intro ts e he
    have := height_le_of_ofTokens he
    omega
  obtain ⟨n, rfl⟩ : ∃ n, m = n + 1 := ⟨m - 1, by omega⟩
  have htower : (Expr.ofSource ⟨n + 1, Z⟩ (String.ofList (towerText n))).result = .ok (towerTree n) :=
    ofSource_mono (ofSource_tower n)
  have hheight := height_towerTree_eq n
  refine ⟨⟨?_, ?_⟩, fun ts e he => ⟨?_, fun α A => ?_, fun r vars => ?_⟩, ?_, ?_⟩
  · obtain ⟨ts, -, he⟩ := Expr.ofSource_eq_ok_iff.mp htower
    exact ⟨ts, towerTree n, he, hheight⟩
  · rintro h ⟨ts, e, he, rfl⟩
    exact hbound ts e he
  · rw [Expr.foldIn_eq, if_pos (hbound ts e he), Expr.fold_writing]
  · rw [Expr.foldIn_eq, if_pos (hbound ts e he)]
  · exact (e.tracks_execute r.compute_bodies _).eq_of_le (hbound ts e he)
  · obtain ⟨r, vars, x, hx⟩ := exists_value_towerTree n
    refine ⟨_, _, r, vars, x, htower, hx, fun k hk => ?_⟩
    rw [← hheight] at hk
    have hfold : ∀ (α : Type) (A : Expr.Algebra α), (towerTree n).foldIn A k = none := by
      intro α A
      rw [Expr.foldIn_eq, if_neg (Nat.not_le_of_lt hk)]
    exact ⟨hfold _ _, hfold, ((towerTree n).tracks_execute r.compute_bodies k).exhausted_of_lt hx hk⟩
  · exact ⟨nineTree, ofSource_mono ofSource_nineTree, rfl⟩

/-- Under the limit two the greatest height is nine. -/
theorem greatest_height_two :
    1 ≤ 2 ∧ IsGreatest {h | ∃ ts e, Expr.ofTokens ⟨2, []⟩ ts = .ok e ∧ e.height = h} 9 :=
  ⟨by decide, (greatest_height 2 (by decide) []).1⟩

end Formula
