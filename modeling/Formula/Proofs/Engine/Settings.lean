import Formula.Engine.Storage
import Formula.Proofs.Json.Wanted

/-!
# Settings are read from any object

The members of a settings object may stand in any order, with others between them. For each of the two settings only
the values under its key count (`valuesAt`): without any the setting is the standard one, a single one has to write a
natural number or a truth value, and a second one is an error. The fold over the members keeps this for both settings
at once (`foldlM_eq_some_iff`).
-/

namespace Formula.Settings

open Json

variable {ms : List Member} {s : Settings}

/-- The values under a key, in their order. -/
def valuesAt (key : String) (ms : List Member) : List (List Char) :=
  (ms.filter (·.key = key)).map (·.value)

/-- **The members give the settings.** -/
structure Gives (ms : List Member) (s : Settings) : Prop where
  /-- The limit is the standard one, or the number below `2 ^ 64` that the only value under its key writes. -/
  maxDepth : valuesAt "maxDepth" ms = [] ∧ s.maxDepth = standard.maxDepth ∨
    valuesAt "maxDepth" ms = [(toString s.maxDepth).toList] ∧ s.maxDepth < 2 ^ 64
  /-- The choice of functions is the standard one, or what the only value under its key says. -/
  builtinFunctions : valuesAt "builtinFunctions" ms = [] ∧ s.builtinFunctions = standard.builtinFunctions ∨
    valuesAt "builtinFunctions" ms = [(if s.builtinFunctions then "true" else "false").toList]

/-! ### The fold -/

/-- What a value makes of settings that are being read. -/
def value? (key : String) (p : Partial) (cs : List Char) : Option Partial :=
  if key = "maxDepth" then (natural? cs).map fun n => { p with maxDepth := some n }
  else (bool? cs).map fun b => { p with builtinFunctions := some b }

/-- The fields read any value to its end, or refuse it. -/
theorem reads (m : Member) (h : Derives .value m.value) : Reads fields value? m := by
  intro field hfield hkey p w rest hw hrest
  simp only [fields, List.mem_cons, List.not_mem_nil, or_false] at hfield
  rcases hfield with rfl | rfl
  · rw [← hkey, value?, if_pos rfl]
    exact (natural_append hw h hrest).map fun n => { p with maxDepth := some n }
  · rw [← hkey, value?, if_neg (by decide)]
    exact (bool_append hw h rest).map fun b => { p with builtinFunctions := some b }

/-- **What became of a setting** behind some values for it: there was none, or there was one for a setting that had
not been read. -/
inductive Once {α : Type} (read? : List Char → Option α) : List (List Char) → Option α → Option α → Prop where
  | absent (x : Option α) : Once read? [] x x
  | present {v : List Char} {a : α} (h : read? v = some a) : Once read? [v] none (some a)

theorem once_cons_iff {α : Type} {read? : List Char → Option α} {v : List Char} {vs : List (List Char)}
    {x y : Option α} : Once read? (v :: vs) x y ↔ x = none ∧ ∃ a, read? v = some a ∧ Once read? vs (some a) y := by
  constructor
  · rintro (_ | ⟨h⟩)
    exact ⟨rfl, _, h, .absent _⟩
  · rintro ⟨rfl, a, h, ⟨_⟩⟩
    exact .present h

theorem valuesAt_cons (key : String) (m : Member) (ms : List Member) :
    valuesAt key (m :: ms) = if m.key = key then m.value :: valuesAt key ms else valuesAt key ms := by
  by_cases h : m.key = key <;> simp [valuesAt, h]

theorem once_nil_iff {α : Type} {read? : List Char → Option α} {x y : Option α} : Once read? [] x y ↔ x = y := by
  constructor
  · rintro ⟨_⟩
    rfl
  · rintro rfl
    exact .absent x

variable {m : Member} {p q : Partial}

theorem accept_maxDepth (h : m.key = "maxDepth") : accept fields value? p m = some q ↔
    p.maxDepth = none ∧ ∃ n, natural? m.value = some n ∧ q = { p with maxDepth := some n } := by
  have haccept : accept fields value? p m =
      if p.maxDepth.isSome then none else (natural? m.value).map fun n => { p with maxDepth := some n } := by
    rw [accept, h]
    rfl
  rw [haccept]
  cases p.maxDepth <;> cases natural? m.value <;> simp [eq_comm]

theorem accept_builtinFunctions (h : m.key = "builtinFunctions") : accept fields value? p m = some q ↔
    p.builtinFunctions = none ∧ ∃ b, bool? m.value = some b ∧ q = { p with builtinFunctions := some b } := by
  have haccept : accept fields value? p m =
      if p.builtinFunctions.isSome then none
      else (bool? m.value).map fun b => { p with builtinFunctions := some b } := by
    rw [accept, h]
    rfl
  rw [haccept]
  cases p.builtinFunctions <;> cases bool? m.value <;> simp [eq_comm]

theorem accept_other (h : m.key ≠ "maxDepth") (h' : m.key ≠ "builtinFunctions") :
    accept fields value? p m = some p := by
  have hfind : fields.find? (·.key = m.key) = none := by
    simp [fields, Ne.symm h, Ne.symm h']
  rw [accept, hfind]

/-- **What the fold keeps.** -/
theorem foldlM_eq_some_iff : ms.foldlM (accept fields value?) p = some q ↔
    Once natural? (valuesAt "maxDepth" ms) p.maxDepth q.maxDepth ∧
    Once bool? (valuesAt "builtinFunctions" ms) p.builtinFunctions q.builtinFunctions := by
  induction ms generalizing p with
  | nil =>
    obtain ⟨d, b⟩ := p
    obtain ⟨d', b'⟩ := q
    have hnil : ∀ key, valuesAt key [] = [] := fun key => rfl
    simp [hnil, once_nil_iff]
  | cons m ms ih =>
    rw [List.foldlM_cons, Option.bind_eq_bind, Option.bind_eq_some_iff, valuesAt_cons, valuesAt_cons]
    by_cases hdepth : m.key = "maxDepth"
    · have hother : m.key ≠ "builtinFunctions" := by rw [hdepth]; decide
      rw [if_pos hdepth, if_neg hother, once_cons_iff]
      simp only [accept_maxDepth hdepth, ih]
      constructor
      · rintro ⟨_, ⟨hnone, n, hn, rfl⟩, hone, htwo⟩
        exact ⟨⟨hnone, n, hn, hone⟩, htwo⟩
      · rintro ⟨⟨hnone, n, hn, hone⟩, htwo⟩
        exact ⟨_, ⟨hnone, n, hn, rfl⟩, hone, htwo⟩
    · rw [if_neg hdepth]
      by_cases hbuiltin : m.key = "builtinFunctions"
      · rw [if_pos hbuiltin, once_cons_iff]
        simp only [accept_builtinFunctions hbuiltin, ih]
        constructor
        · rintro ⟨_, ⟨hnone, b, hb, rfl⟩, hone, htwo⟩
          exact ⟨hone, hnone, b, hb, htwo⟩
        · rintro ⟨hone, hnone, b, hb, htwo⟩
          exact ⟨_, ⟨hnone, b, hb, rfl⟩, hone, htwo⟩
      · rw [if_neg hbuiltin]
        simp only [accept_other hdepth hbuiltin, ih, Option.some.injEq, exists_eq_left']

/-- **The members give settings exactly where the fold does.** -/
theorem gives_iff (hms : ∀ m ∈ ms, Derives .value m.value) :
    Gives ms s ↔ ∃ p, ms.foldlM (accept fields value?) ⟨none, none⟩ = some p ∧ p.complete = s := by
  have hvalues : ∀ key v, v ∈ valuesAt key ms → Derives .value v := by
    intro key v hv
    obtain ⟨m, hm, rfl⟩ := List.mem_map.mp hv
    exact hms m (List.mem_of_mem_filter hm)
  obtain ⟨n, b⟩ := s
  simp only [foldlM_eq_some_iff]
  constructor
  · rintro ⟨hdepth, hbuiltin⟩
    have hlimit : ∃ x, Once natural? (valuesAt "maxDepth" ms) none x ∧ x.getD standard.maxDepth = n := by
      rcases hdepth with ⟨hnil, hn⟩ | ⟨hone, hn⟩
      · exact ⟨none, hnil ▸ .absent none, hn.symm⟩
      · have hv := hvalues "maxDepth" _ (hone ▸ List.mem_cons_self)
        exact ⟨some n, hone ▸ .present ((natural?_eq_some_iff hv).mpr ⟨rfl, hn⟩), rfl⟩
    have hchoice : ∃ x, Once bool? (valuesAt "builtinFunctions" ms) none x ∧
        x.getD standard.builtinFunctions = b := by
      rcases hbuiltin with ⟨hnil, hb⟩ | hone
      · exact ⟨none, hnil ▸ .absent none, hb.symm⟩
      · exact ⟨some b, hone ▸ .present (bool?_eq_some_iff.mpr rfl), rfl⟩
    obtain ⟨x, hx, rfl⟩ := hlimit
    obtain ⟨y, hy, rfl⟩ := hchoice
    exact ⟨⟨x, y⟩, ⟨hx, hy⟩, rfl⟩
  · rintro ⟨⟨x, y⟩, ⟨hx, hy⟩, hcomplete⟩
    obtain ⟨rfl, rfl⟩ := Settings.mk.inj hcomplete
    dsimp only at hx hy
    constructor
    · generalize hvs : valuesAt "maxDepth" ms = vs at hx
      cases hx with
      | absent => exact .inl ⟨rfl, rfl⟩
      | @present v n hn =>
        obtain ⟨rfl, hlt⟩ := (natural?_eq_some_iff (hvalues "maxDepth" v (hvs ▸ List.mem_cons_self))).mp hn
        exact .inr ⟨rfl, hlt⟩
    · generalize valuesAt "builtinFunctions" ms = vs at hy
      cases hy with
      | absent => exact .inl ⟨rfl, rfl⟩
      | @present v b hb =>
        obtain rfl := bool?_eq_some_iff.mp hb
        exact .inr rfl

/-- **A settings object is read as what its members give**, if they give settings. -/
theorem ofJson_eq_ok_iff {text : String} (h : IsObject text.toList ms) : ofJson text = .ok s ↔ Gives ms s := by
  have hread := readRecord_of_isObject h (fun m hm => reads m (h.derives_value m hm)) ⟨none, none⟩
    fun p => .ok p.complete
  rw [gives_iff h.derives_value, ofJson]
  cases hfold : ms.foldlM (accept fields value?) ⟨none, none⟩ with
  | none =>
    rw [hfold] at hread
    obtain ⟨e, he⟩ := hread
    simp [he]
  | some p =>
    rw [hfold] at hread
    simp [hread]

/-! ### Reading and writing -/

/-- A text without marks, backslashes and control characters denotes itself. -/
theorem denotes_self {text : String} (h : ∀ c ∈ text.toList, c ≠ '"' ∧ c ≠ '\\' ∧ ¬ c < ' ') :
    Denotes text.toList text := by
  rw [Denotes]
  generalize text.toList = cs at h
  induction cs with
  | nil => exact .nil
  | cons c cs ih =>
    obtain ⟨⟨hmark, hescape, hcontrol⟩, h⟩ := List.forall_mem_cons.mp h
    exact .plain hmark hescape hcontrol (ih h)

theorem derives_toString (n : ℕ) : Derives .value (toString n).toList := by
  have htext : (toString n).toList = Decimal.digitsOf n := Nat.toList_repr
  have hnumber : IsNumber (Decimal.digitsOf n ++ ([] ++ [])) := .plain (.mk (whole_digitsOf n) .none .none)
  rw [htext]
  rw [List.append_nil, List.append_nil] at hnumber
  exact .number hnumber

/-- The members that settings are written as. -/
def written (s : Settings) : List Member :=
  [⟨"maxDepth", (toString s.maxDepth).toList⟩,
    ⟨"builtinFunctions", (if s.builtinFunctions then "true" else "false").toList⟩]

/-- **Settings are written as an object with two members.** -/
theorem isObject_toJson (s : Settings) : IsObject (toJson s).toList s.written := by
  have hnil : Blanks [] := fun c hc => absurd hc List.not_mem_nil
  have hspace : Blanks [' '] := List.forall_mem_singleton.mpr rfl
  have hline : Blanks ['\n'] := List.forall_mem_singleton.mpr rfl
  have hindent : Blanks ['\n', ' ', ' '] := by simp [Blanks, isBlank]
  have hchoice : Derives .value (if s.builtinFunctions then "true" else "false").toList := by
    cases s.builtinFunctions <;> exact .word (by simp)
  have hmaxDepth : IsMember _ ⟨"maxDepth", (toString s.maxDepth).toList⟩ :=
    .mk hindent (denotes_self (by simp)) hnil hspace (derives_toString s.maxDepth) hnil
  have hbuiltinFunctions : IsMember _ ⟨"builtinFunctions", _⟩ :=
    .mk hindent (denotes_self (by simp)) hnil hspace hchoice hline
  have hobject := IsObject.filled hnil (.more hmaxDepth (.last hbuiltinFunctions)) hnil
  have htext : ∀ a b c d e : String,
      (a ++ b ++ c ++ d ++ e).toList = a.toList ++ (b.toList ++ (c.toList ++ (d.toList ++ e.toList))) := by
    intro a b c d e
    simp only [String.toList_append, List.append_assoc]
  unfold toJson written
  rw [htext]
  simp only [String.reduceToList, List.append_assoc, List.nil_append, List.append_nil, List.cons_append] at hobject ⊢
  exact hobject

theorem gives_written (hs : s.maxDepth < 2 ^ 64) : Gives s.written s :=
  ⟨.inr ⟨rfl, hs⟩, .inr rfl⟩

/-- **Settings come from the members of an object, in whatever order they stand and whatever else there is.** Where
the members give settings, these are read, and nothing else is read in any case. A second value under one of the keys
makes the reading fail. And what is written is read back. -/
theorem ofJson_members :
    (∀ text ms s, IsObject text.toList ms → (ofJson text = .ok s ↔ Gives ms s)) ∧
    (∀ text ms key, IsObject text.toList ms → key ∈ ["maxDepth", "builtinFunctions"] →
      2 ≤ (valuesAt key ms).length → ∃ e, ofJson text = .error e) ∧
    ∀ s : Settings, s.maxDepth < 2 ^ 64 → ofJson (toJson s) = .ok s := by
  refine ⟨fun text ms s h => ofJson_eq_ok_iff h, fun text ms key h hkey htwo => ?_, fun s hs => ?_⟩
  · cases hread : ofJson text with
    | error e => exact ⟨e, rfl⟩
    | ok s =>
      obtain ⟨hdepth, hbuiltin⟩ := (ofJson_eq_ok_iff h).mp hread
      simp only [List.mem_cons, List.not_mem_nil, or_false] at hkey
      rcases hkey with rfl | rfl
      · rcases hdepth with ⟨hvs, -⟩ | ⟨hvs, -⟩ <;> simp [hvs] at htwo
      · rcases hbuiltin with ⟨hvs, -⟩ | hvs <;> simp [hvs] at htwo
  · exact (ofJson_eq_ok_iff (isObject_toJson s)).mpr (gives_written hs)

/-- An unknown member whose value holds a bracket in a string, and then the limit; the limit twice; and the standard
settings written and read. -/
theorem ofJson_members_nested :
    let ms : List Member := [⟨"x", "[\"]\"]".toList⟩, ⟨"maxDepth", (toString 5).toList⟩]
    let twice : List Member := [⟨"maxDepth", (toString 5).toList⟩, ⟨"maxDepth", (toString 6).toList⟩]
    IsObject "\x7b\"x\":[\"]\"],\"maxDepth\":5\x7d".toList ms ∧ Gives ms ⟨5, true⟩ ∧
      ofJson "\x7b\"x\":[\"]\"],\"maxDepth\":5\x7d" = .ok ⟨5, true⟩ ∧
      IsObject "\x7b\"maxDepth\":5,\"maxDepth\":6\x7d".toList twice ∧
      (∃ e, ofJson "\x7b\"maxDepth\":5,\"maxDepth\":6\x7d" = .error e) ∧
      standard.maxDepth < 2 ^ 64 ∧ ofJson (toJson standard) = .ok standard := by
  intro ms twice
  obtain ⟨hreads, hrepeated, hwritten⟩ := ofJson_members
  have hnil : Blanks [] := fun c hc => absurd hc List.not_mem_nil
  have hmaxDepth : ∀ n, IsMember _ ⟨"maxDepth", (toString n).toList⟩ := fun n =>
    .mk hnil (denotes_self (by simp)) hnil hnil (derives_toString n) hnil
  have hbracket : Derives .value _ := .string ⟨[']'], .plain (by decide) (by decide) (by decide) .nil⟩
  have hlist : Derives .value _ := .filled .square (.last (.item hnil hbracket hnil))
  have hother : IsMember _ ⟨"x", "[\"]\"]".toList⟩ := .mk hnil (denotes_self (by simp)) hnil hnil hlist hnil
  have hobject : IsObject "\x7b\"x\":[\"]\"],\"maxDepth\":5\x7d".toList ms :=
    .filled hnil (.more hother (.last (hmaxDepth 5))) hnil
  have htwice : IsObject "\x7b\"maxDepth\":5,\"maxDepth\":6\x7d".toList twice :=
    .filled hnil (.more (hmaxDepth 5) (.last (hmaxDepth 6))) hnil
  have hgives : Gives ms ⟨5, true⟩ := ⟨.inr ⟨rfl, by decide⟩, .inl ⟨rfl, rfl⟩⟩
  exact ⟨hobject, hgives, (hreads _ ms _ hobject).mpr hgives, htwice,
    hrepeated _ twice "maxDepth" htwice (by simp) (by decide), by decide, hwritten standard (by decide)⟩

/-- A half of a surrogate pair is a string, and it may stand in a value, but a key has to denote a text. -/
theorem ofJson_surrogate_key : Derives .value "\x7b\"\\ud800\":1\x7d".toList ∧
    ofJson "\x7b\"\\ud800\":1\x7d" = .error .malformed := by
  have hnil : Blanks [] := fun c hc => absurd hc List.not_mem_nil
  have hkey : IsString ['\\', 'u', 'd', '8', '0', '0'] :=
    ⟨['u'], .unicode (Undecoded.mk (.mk rfl rfl rfl rfl)) .nil⟩
  have hone : Derives (.element .square) ['1'] := .item hnil (derives_toString 1) hnil
  exact ⟨.filled .curly (.last (.member hnil hkey hnil hone)), rfl⟩

end Formula.Settings
