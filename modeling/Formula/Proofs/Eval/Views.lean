import Formula.Eval.Builtin
import Formula.Proofs.Eval.History
import Formula.Proofs.Text.ByteOrder

/-!
# The views of a registry agree

A registry is looked at in several ways: by whether it contains a name, by the function that a name has, by the
list of its names, by the list of those that may be called without arguments, and by the check of a call. The
parser, the check of a source and the evaluation each rely on another one of them. Whatever a registry begins
with (`Origin`) and however often it has been changed, all of them tell the same (`views_agree`): they follow
from the function that each name has, and this is the one that the last change of the name has put there, or the
one of the start.
-/

namespace Formula.Registry

variable {r : Registry} {f : String} {g : Callable} {fs : List (String × Callable)} {c : Change}
  {changes : List Change}

/-! ### Starts -/

/-- What a registry begins with. -/
inductive Origin where
  /-- No functions. -/
  | empty
  /-- The functions that are always there. -/
  | builtins

namespace Origin

/-- The functions that are there at the start. -/
def functions : Origin → List (String × Callable)
  | .empty => []
  | .builtins => Builtin.all

/-- The registry at the start. -/
def registry : Origin → Registry
  | .empty => Registry.empty
  | .builtins => Registry.builtins

end Origin

/-- Functions with new names of their own are all there when they have been put in. -/
theorem get?_foldl_insert (hnames : (fs.map Prod.fst).Nodup) (hnew : ∀ h ∈ fs, r.get? h.1 = none) :
    (fs.foldl (fun r h => r.insert h.1 h.2) r).get? f = some g ↔ (f, g) ∈ fs ∨ r.get? f = some g := by
  induction fs generalizing r with
  | nil => simp
  | cons h fs ih =>
    obtain ⟨name, k⟩ := h
    rw [List.map_cons, List.nodup_cons] at hnames
    have hrest : ∀ h ∈ fs, (r.insert name k).get? h.1 = none := by
      intro h hh
      have hother : name ≠ h.1 := by
        rintro rfl
        exact hnames.1 (List.mem_map.mpr ⟨h, hh, rfl⟩)
      rw [get?_insert, if_neg hother]
      exact hnew h (List.mem_cons_of_mem _ hh)
    rw [List.foldl_cons, ih hnames.2 hrest, get?_insert, List.mem_cons]
    by_cases hf : name = f
    · subst hf
      have hnone : r.get? name = none := hnew _ List.mem_cons_self
      simp [hnone, or_comm, eq_comm]
    · simp [hf, Ne.symm hf]

theorem Origin.get?_registry (origin : Origin) :
    origin.registry.get? f = some g ↔ (f, g) ∈ origin.functions := by
  have hempty : Registry.empty.get? f = none := rfl
  cases origin with
  | empty => simp [registry, functions, hempty]
  | builtins =>
    have hnames : (Builtin.all.map Prod.fst).Nodup := by decide
    have hbuiltins : Registry.builtins.get? f = some g ↔
        (f, g) ∈ Builtin.all ∨ Registry.empty.get? f = some g :=
      get?_foldl_insert hnames fun _ _ => rfl
    rw [registry, hbuiltins, hempty]
    simp [functions]

/-! ### Last changes -/

/-- None of the changes behind `c` has the name of `c`. -/
def IsLast (changes : List Change) (c : Change) : Prop :=
  ∃ before behind, changes = before ++ c :: behind ∧ ∀ d ∈ behind, d.name ≠ c.name

theorem lastChange?_eq_some_iff :
    lastChange? changes f = some c ↔ c.name = f ∧ IsLast changes c := by
  rw [lastChange?, List.find?_eq_some_iff_append, decide_eq_true_iff]
  refine and_congr_right fun hname => ?_
  constructor
  · rintro ⟨behind, before, hreverse, hbehind⟩
    refine ⟨before.reverse, behind.reverse, ?_, fun d hd => ?_⟩
    · rw [← List.reverse_reverse changes, hreverse, List.reverse_append, List.reverse_cons,
        List.append_assoc, List.singleton_append]
    · rw [hname]
      simpa using hbehind d (List.mem_reverse.mp hd)
  · rintro ⟨before, behind, rfl, hbehind⟩
    refine ⟨behind.reverse, before.reverse, ?_, fun d hd => ?_⟩
    · rw [List.reverse_append, List.reverse_cons, List.append_assoc, List.singleton_append]
    · have hd := hbehind d (List.mem_reverse.mp hd)
      rw [hname] at hd
      simpa using hd

theorem lastChange?_eq_none_iff : lastChange? changes f = none ↔ ∀ c ∈ changes, c.name ≠ f := by
  simp [lastChange?]

/-- **What a name means** is what its last change says, or what it meant at the start. -/
theorem get?_after_eq_some_iff : (r.after changes).get? f = some g ↔
    IsLast changes (.register f g) ∨ (∀ c ∈ changes, c.name ≠ f) ∧ r.get? f = some g := by
  have hregister : lastChange? changes f = some (.register f g) ↔ IsLast changes (.register f g) := by
    rw [lastChange?_eq_some_iff]
    exact and_iff_right rfl
  rw [get?_after, ← hregister, ← lastChange?_eq_none_iff]
  cases hlast : lastChange? changes f with
  | none => simp
  | some c =>
    have hname := (lastChange?_eq_some_iff.mp hlast).1
    cases c with
    | register name h =>
      obtain rfl : name = f := hname
      simp [Change.function?]
    | unregister name => simp [Change.function?]

/-! ### Names -/

theorem mem_names : f ∈ r.names ↔ ∃ g, r.get? f = some g := by
  rw [names, Std.TreeMap.mem_keys, Std.TreeMap.mem_iff_isSome_getElem?, Option.isSome_iff_exists]
  rfl

/-- The names are in increasing order, byte by byte. -/
theorem pairwise_names (r : Registry) : (r.names.map Text.utf8).Pairwise (· < ·) := by
  have hordered : r.names.Pairwise fun a b => compare a b = .lt := Std.TreeMap.ordered_keys
  refine List.pairwise_map.mpr (hordered.imp fun hab => Text.utf8_lt ?_)
  exact compareOfLessAndEq_eq_lt.mp hab

/-! ### All views -/

/-- **The views of a registry agree**, whatever it begins with and whatever changes it has seen: what it contains
is what has a function and what is listed, in the order of the bytes; the function is the one that the last
change has put there, or the one of the start; the names that may be called without arguments are those that
pass the check; and the check refuses a call just if the name is unknown, or if the function takes another
number of arguments. A change answers with the function that the name had, and leaves the other names alone. -/
theorem views_agree (origin : Origin) (changes : List Change) :
    let r := origin.registry.after changes
    (∀ f, (r.contains f = true ↔ ∃ g, r.get? f = some g) ∧ (f ∈ r.names ↔ ∃ g, r.get? f = some g)) ∧
    (∀ f g, r.get? f = some g ↔ IsLast changes (.register f g) ∨
      (∀ c ∈ changes, c.name ≠ f) ∧ (f, g) ∈ origin.functions) ∧
    (r.names.map Text.utf8).Pairwise (· < ·) ∧
    (∀ f, f ∈ r.nullaryNames ↔ ∃ g, r.callee f 0 = .ok g) ∧
    (∀ f n, (∀ g, r.callee f n = .ok g ↔ r.get? f = some g ∧ g.arity = n) ∧
      (r.callee f n = .error (.unknownFunction f) ↔ r.get? f = none) ∧
      ∀ wanted, r.callee f n = .error (.argumentCount f wanted n) ↔
        ∃ g, r.get? f = some g ∧ g.arity = wanted ∧ wanted ≠ n) ∧
    ∀ c : Change, (c.apply r).1 = r.get? c.name ∧ (c.apply r).2.get? c.name = c.function? ∧
      ∀ f, f ≠ c.name → (c.apply r).2.get? f = r.get? f := by
  intro r
  refine ⟨fun f => ⟨?_, mem_names⟩, fun f g => ?_, r.pairwise_names, fun f => ?_, fun f n => ⟨fun g =>
    callee_eq_ok_iff, ?_, fun wanted => ?_⟩, fun c => ⟨?_, ?_, fun f hf => ?_⟩⟩
  · rw [contains_eq, Option.isSome_iff_exists]
  · rw [get?_after_eq_some_iff, origin.get?_registry]
  · simp only [mem_nullaryNames, callee_eq_ok_iff]
  · simp [callee_eq_error_iff]
  · rw [callee_eq_error_iff]
    constructor
    · rintro (⟨-, ⟨⟩⟩ | ⟨g, hg, harity, ⟨⟩⟩)
      exact ⟨g, hg, rfl, harity⟩
    · rintro ⟨g, hg, rfl, harity⟩
      exact .inr ⟨g, hg, harity, rfl⟩
  · cases c <;> rfl
  · rw [c.get?_apply, if_pos rfl]
  · rw [c.get?_apply, if_neg (Ne.symm hf)]

/-- When `abs` has been replaced twice and `max` taken away, `abs` may be called without arguments, `max` is
unknown, and `min` is as it was. -/
theorem views_agree_replaced :
    let one : Callable := ⟨0, fun _ => Decimal.one⟩
    let changes : List Change :=
      [.register "abs" ⟨2, fun _ => Decimal.zero⟩, .unregister "max", .register "abs" one]
    let r := Origin.builtins.registry.after changes
    r.get? "abs" = some one ∧ "abs" ∈ r.nullaryNames ∧ "max" ∉ r.names ∧
      r.callee "max" 2 = .error (.unknownFunction "max") ∧
      r.callee "min" 1 = .error (.argumentCount "min" 2 1) ∧
      (r.names.map Text.utf8).Pairwise (· < ·) := by
  intro one changes r
  obtain ⟨hcontains, hget, hordered, hnullary, hcallee, -⟩ := views_agree .builtins changes
  have habs : r.get? "abs" = some one :=
    (hget "abs" one).mpr (.inl ⟨changes.take 2, [], rfl, List.forall_mem_nil _⟩)
  have hmin : r.get? "min" = some (Builtin.binary Builtin.min) :=
    (hget "min" _).mpr (.inr ⟨by simp [changes, Change.name], by simp [Origin.functions, Builtin.all]⟩)
  have hmax : r.get? "max" = none := Origin.builtins.registry.get?_after changes "max"
  refine ⟨habs, (hnullary "abs").mpr ⟨one, ((hcallee "abs" 0).1 one).mpr ⟨habs, rfl⟩⟩, fun hmem => ?_,
    (hcallee "max" 2).2.1.mpr hmax, ((hcallee "min" 1).2.2 2).mpr ⟨_, hmin, rfl, by decide⟩, hordered⟩
  obtain ⟨g, hg⟩ := (hcontains "max").2.mp hmem
  cases hg.symm.trans hmax

end Formula.Registry
