import Formula.Json.Record
import Formula.Proofs.Json.Skipping

/-!
# Reading an object

A text that holds an object with keys that denote texts is a list of members, with a value for each
(`IsObject`). What becomes of a record under construction is a fold over this list (`accept`): a member with an
unknown key changes nothing, one with a known key is taken into the record, and a known key that comes again, or a
value that its field refuses, ends the reading (`readRecord_of_isObject`).
-/

namespace Formula.Json

variable {σ α : Type} {cs rest : List Char}

/-! ### Members -/

/-- A member of an object: the text that the key denotes, and the characters of the value. -/
structure Member where
  /-- The key. -/
  key : String
  /-- The value as it is written, without the blanks around it. -/
  value : List Char

/-- The characters write the member, with blanks around its parts. -/
inductive IsMember : List Char → Member → Prop where
  | mk {w ks w' x vs x' : List Char} {key : String} (hw : Blanks w) (hk : Denotes ks key) (hw' : Blanks w')
      (hx : Blanks x) (h : Derives .value vs) (hx' : Blanks x') :
      IsMember (w ++ '"' :: (ks ++ '"' :: (w' ++ ':' :: (x ++ (vs ++ x'))))) ⟨key, vs⟩

/-- The characters write the members, with commas between them. -/
inductive AreMembers : List Char → List Member → Prop where
  | last {cs m} (h : IsMember cs m) : AreMembers cs [m]
  | more {cs ds m ms} (h : IsMember cs m) (h' : AreMembers ds ms) : AreMembers (cs ++ ',' :: ds) (m :: ms)

/-- **The text holds an object** with these members. -/
inductive IsObject : List Char → List Member → Prop where
  | empty {w x w' : List Char} (hw : Blanks w) (hx : Blanks x) (hw' : Blanks w') :
      IsObject (w ++ '\x7b' :: (x ++ '\x7d' :: w')) []
  | filled {w cs w' : List Char} {ms : List Member} (hw : Blanks w) (h : AreMembers cs ms) (hw' : Blanks w') :
      IsObject (w ++ '\x7b' :: (cs ++ '\x7d' :: w')) ms

theorem IsMember.derives_value {m : Member} (h : IsMember cs m) : Derives .value m.value := by
  cases h
  assumption

/-- The values of an object are values. -/
theorem IsObject.derives_value {ms : List Member} (h : IsObject cs ms) : ∀ m ∈ ms, Derives .value m.value := by
  cases h with
  | empty => exact fun m hm => absurd hm List.not_mem_nil
  | filled hw h hw' =>
    clear hw hw'
    induction h with
    | last h => exact List.forall_mem_singleton.mpr h.derives_value
    | more h h' ih => exact List.forall_mem_cons.mpr ⟨h.derives_value, ih⟩

/-! ### What becomes of a record -/

/-- **The end of a scan** that goes through a phrase with the text `rest` behind it, or fails. -/
inductive Scans : Except JsonError (α × List Char) → Option α → List Char → Prop where
  | done (a : α) (rest : List Char) : Scans (.ok (a, rest)) (some a) rest
  | failed (e : JsonError) (rest : List Char) : Scans (.error e) none rest

theorem Scans.map {β : Type} {r : Except JsonError (α × List Char)} {x : Option α} (h : Scans r x rest) (f : α → β) :
    Scans (r.map fun r => (f r.1, r.2)) (x.map f) rest := by
  cases h with
  | done a => exact .done (f a) rest
  | failed e => exact .failed e rest

variable {fields : List (Field σ)} {value? : String → σ → List Char → Option σ} {ms : List Member} {m : Member}

/-- What a member makes of a record, where `value?` tells what a value under a known key does. -/
def accept (fields : List (Field σ)) (value? : String → σ → List Char → Option σ) (s : σ) (m : Member) : Option σ :=
  match fields.find? (·.key = m.key) with
  | none => some s
  | some field => if field.isRead s then none else value? m.key s m.value

/-- The fields read the value of the member as `value?` tells. -/
def Reads (fields : List (Field σ)) (value? : String → σ → List Char → Option σ) (m : Member) : Prop :=
  ∀ field ∈ fields, field.key = m.key → ∀ s w rest, Blanks w → Ends rest →
    Scans (field.read s (w ++ (m.value ++ rest))) (value? m.key s m.value) rest

/-- Reads a member from its quotation mark on. -/
def memberFrom (fields : List (Field σ)) (s : σ) : Scan σ := fun cs => do
  let ((), cs) ← mark '"' cs
  member fields s cs

/-- A member is read as a whole, but for the blanks behind it. -/
theorem memberFrom_append (h : IsMember cs m) (hm : Reads fields value? m) (hrest : Ends rest) (s : σ) :
    ∃ w, Blanks w ∧ Scans (memberFrom fields s (cs ++ rest)) (accept fields value? s m) (w ++ rest) := by
  cases h with
  | @mk w ks w' x vs x' key hw hk hw' hx h hx' =>
    have hcolon : ∀ cs, mark ':' (w' ++ ':' :: cs) = .ok ((), cs) := fun cs => mark_append hw' (by decide)
    have hends : Ends (x' ++ rest) := ends_append hx' hrest
    refine ⟨x', hx', ?_⟩
    simp only [List.append_assoc, List.cons_append]
    rw [memberFrom, mark_append hw (by decide)]
    simp only [bind, Except.bind]
    rw [member, string_append hk, accept]
    simp only [bind, Except.bind]
    cases hfind : fields.find? (·.key = key) with
    | none =>
      simp only [hcolon]
      rw [skipValue_append hx h hends]
      exact .done s _
    | some field =>
      have hfield : field ∈ fields := List.mem_of_find?_eq_some hfind
      have hkey : field.key = key := by simpa using List.find?_some hfind
      dsimp only
      cases field.isRead s with
      | true => exact .failed _ _
      | false =>
        simp only [hcolon]
        exact hm field hfield hkey s x (x' ++ rest) hx hends

theorem IsMember.length_pos (h : IsMember cs m) : 0 < cs.length := by
  cases h
  simp

/-- Behind a member stands a comma and further members, or the end of the object. -/
theorem members_succ (fuel : ℕ) (s : σ) (cs : List Char) :
    members fields (fuel + 1) s cs = (memberFrom fields s cs).bind fun r =>
      match skipBlanks r.2 with
      | [] => .error .truncated
      | c :: rest =>
        if c = '\x7d' then .ok (r.1, rest) else if c = ',' then members fields fuel r.1 rest else .error .malformed := by
  rw [members, memberFrom]
  cases mark '"' cs <;> rfl

/-- **Members are read one after another**, up to the bracket behind them. -/
theorem members_append (h : AreMembers cs ms) (hms : ∀ m ∈ ms, Reads fields value? m) (rest : List Char) :
    ∀ fuel s, cs.length ≤ fuel →
      Scans (members fields fuel s (cs ++ '\x7d' :: rest)) (ms.foldlM (accept fields value?) s) rest := by
  induction h with
  | @last cs m h =>
    intro fuel s hfuel
    obtain ⟨fuel, rfl⟩ := Nat.exists_eq_add_of_le' (Nat.le_trans h.length_pos hfuel)
    have hends : Ends ('\x7d' :: rest) := ends_closing .curly
    obtain ⟨w, hw, hscan⟩ := memberFrom_append h (hms m List.mem_cons_self) hends s
    have hblanks : skipBlanks (w ++ '\x7d' :: rest) = '\x7d' :: rest := by
      rw [skipBlanks_append hw, skipBlanks_cons (by decide)]
    rw [members_succ, List.foldlM_cons]
    generalize memberFrom fields s (cs ++ '\x7d' :: rest) = r at hscan
    generalize accept fields value? s m = x at hscan
    cases hscan with
    | done s' =>
      simp only [Except.bind, hblanks]
      exact .done s' rest
    | failed e => exact .failed e rest
  | @more cs ds m ms h h' ih =>
    intro fuel s hfuel
    rw [List.length_append, List.length_cons] at hfuel
    obtain ⟨fuel, rfl⟩ := Nat.exists_eq_add_of_le' (Nat.le_trans h.length_pos (by omega : cs.length ≤ fuel))
    have hends : Ends (',' :: (ds ++ '\x7d' :: rest)) := ends_comma
    obtain ⟨w, hw, hscan⟩ := memberFrom_append h (hms m List.mem_cons_self) hends s
    have hblanks : skipBlanks (w ++ ',' :: (ds ++ '\x7d' :: rest)) = ',' :: (ds ++ '\x7d' :: rest) := by
      rw [skipBlanks_append hw, skipBlanks_cons (by decide)]
    rw [members_succ, List.foldlM_cons, List.append_assoc, List.cons_append]
    generalize memberFrom fields s (cs ++ ',' :: (ds ++ '\x7d' :: rest)) = r at hscan
    generalize accept fields value? s m = x at hscan
    cases hscan with
    | done s' =>
      simp only [Except.bind, hblanks]
      exact ih (fun m hm => hms m (List.mem_cons_of_mem _ hm)) fuel s' (by omega)
    | failed e => exact .failed e rest

/-! ### Whole texts -/

/-- A member begins with its quotation mark, perhaps behind blanks. -/
theorem AreMembers.head (h : AreMembers cs ms) : ∃ w ds, cs = w ++ '"' :: ds ∧ Blanks w := by
  cases h with
  | last h =>
    cases h with
    | mk hw => exact ⟨_, _, rfl, hw⟩
  | more h h' =>
    cases h with
    | mk hw => exact ⟨_, _, List.append_assoc _ _ _, hw⟩

theorem object_append (h : AreMembers cs ms) (hms : ∀ m ∈ ms, Reads fields value? m) (s : σ) (rest : List Char) :
    Scans (object fields s (cs ++ '\x7d' :: rest)) (ms.foldlM (accept fields value?) s) rest := by
  have hscan := members_append h hms rest ((cs ++ '\x7d' :: rest).length + 1) s (by simp; omega)
  obtain ⟨w, ds, rfl, hw⟩ := h.head
  have hblanks : skipBlanks (w ++ '"' :: ds ++ '\x7d' :: rest) = '"' :: (ds ++ '\x7d' :: rest) := by
    rw [List.append_assoc, skipBlanks_append hw, List.cons_append, skipBlanks_cons (by decide)]
  have hmembers : ∀ fuel cs, members fields (fuel + 1) s (skipBlanks cs) = members fields (fuel + 1) s cs := by
    intro fuel cs
    rw [members, members, mark, mark, skipBlanks_skipBlanks]
  rw [← hmembers, hblanks] at hscan
  rw [object, hblanks]
  exact hscan

/-- A text that holds an object is an opening bracket, what `object` reads, and blanks. -/
theorem IsObject.object (h : IsObject cs ms) (hms : ∀ m ∈ ms, Reads fields value? m) (s : σ) :
    ∃ ds w, skipBlanks cs = '\x7b' :: ds ∧ Blanks w ∧
      Scans (object fields s ds) (ms.foldlM (accept fields value?) s) w := by
  cases h with
  | @empty w x w' hw hx hw' =>
    have hblanks : skipBlanks (x ++ '\x7d' :: w') = '\x7d' :: w' := by
      rw [skipBlanks_append hx, skipBlanks_cons (by decide)]
    refine ⟨x ++ '\x7d' :: w', w', by rw [skipBlanks_append hw, skipBlanks_cons (by decide)], hw', ?_⟩
    rw [Json.object, hblanks]
    exact .done s w'
  | @filled w cs w' ms hw h hw' =>
    refine ⟨cs ++ '\x7d' :: w', w', by rw [skipBlanks_append hw, skipBlanks_cons (by decide)], hw', ?_⟩
    exact object_append h hms s w'

/-- **Reading an object is a fold over its members.** -/
theorem readRecord_of_isObject {text : String} (h : IsObject text.toList ms)
    (hms : ∀ m ∈ ms, Reads fields value? m) (start : σ) (finish : σ → Except JsonError α) :
    match ms.foldlM (accept fields value?) start with
    | some s => readRecord fields start finish text = finish s
    | none => ∃ e, readRecord fields start finish text = .error e := by
  obtain ⟨ds, w, htext, hw, hscan⟩ := h.object hms start
  have hend : skipBlanks w = [] := List.dropWhile_eq_nil_iff.mpr hw
  rw [readRecord, htext]
  dsimp only
  rw [if_pos rfl]
  generalize object fields start ds = r at hscan
  generalize ms.foldlM (accept fields value?) start = x at hscan
  cases hscan with
  | done s =>
    simp only [bind, Except.bind]
    cases finish s with
    | error e => rfl
    | ok a => simp [hend]
  | failed e => exact ⟨e, rfl⟩

end Formula.Json
