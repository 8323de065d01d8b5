import Formula.Proofs.Token.Lexed

/-!
# The items of a source cover it

Every item stands for a piece of the source, its *lexeme*: a token for its text, with the brackets if it
is quoted, a character that begins no token for itself, and an opening bracket that is never closed for
all that follows. Reading takes one item after the other, also behind errors (`nextFrom`), and each step
goes over blanks and the lexeme of its item, no more and no less (`nextFrom_eq_some`). So reading ends,
and from any place on the characters are blanks and the lexemes of the items, in turn (`Tiles`).

The spans of the items, as byte offsets, are therefore not empty, follow one another without overlap,
begin and end between characters, and leave out blanks only (`Partitions`).
-/

namespace Formula.Item

open Text

variable {size p n : ℕ} {c : Char} {cs gap lexeme rest : List Char} {item : Item} {items : List Item}

/-! ### Spans -/

/-- The byte offset at which an item begins. -/
def start : Item → ℕ
  | .ok t => t.position
  | .error e => e.position

/-- The byte offset just behind an item of a source of `size` bytes. -/
def stop (size : ℕ) : Item → ℕ
  | .ok t => t.stop
  | .error ⟨p, .unrecognized c⟩ => p + c.utf8Size
  | .error ⟨_, .unterminated⟩ => size

/-- **What an item says about its lexeme.** -/
def Shows (lexeme : String) : Item → Prop
  | .ok t => lexeme = if t.kind = .quoted then "[" ++ t.text ++ "]" else t.text
  | .error ⟨_, .unrecognized c⟩ => lexeme = String.singleton c
  | .error ⟨_, .unterminated⟩ => ∃ text : String, ']' ∉ text.toList ∧ lexeme = "[" ++ text

/-- The text stands in the source between two byte offsets. -/
def StandsAt (source text : String) (start stop : ℕ) : Prop :=
  ∃ before after, source = before ++ text ++ after ∧ before.utf8ByteSize = start ∧
    (before ++ text).utf8ByteSize = stop

/-! ### Numbers of bytes -/

theorem bytes_pos (h : cs ≠ []) : 0 < bytes cs := by
  obtain ⟨c, cs, rfl⟩ := List.exists_cons_of_ne_nil h
  have := c.utf8Size_pos
  rw [bytes_cons]
  omega

theorem utf8ByteSize_ofList (cs : List Char) : (String.ofList cs).utf8ByteSize = bytes cs := by
  induction cs with
  | nil => rfl
  | cons c cs ih =>
    rw [String.ofList_cons, String.utf8ByteSize_append, String.utf8ByteSize_singleton, ih, bytes_cons]

theorem bytes_toList (s : String) : bytes s.toList = s.utf8ByteSize := by
  rw [← utf8ByteSize_ofList, String.ofList_toList]

/-- An entry of two lists in a row stands in the first or in the second. -/
theorem append_eq_append_cons {before after : List Char} (h : cs ++ rest = before ++ c :: after) :
    (∃ tail, cs = before ++ c :: tail) ∨ ∃ tail, before = cs ++ tail ∧ rest = tail ++ c :: after := by
  rcases List.append_eq_append_iff.mp h with ⟨tail, hbefore, hrest⟩ | ⟨tail, hcs, hafter⟩
  · exact .inr ⟨tail, hbefore, hrest⟩
  · cases tail with
    | nil => exact .inr ⟨[], by simpa using hcs.symm, hafter.symm⟩
    | cons d tail =>
      obtain ⟨rfl, -⟩ := List.cons.inj hafter
      exact .inl ⟨tail, hcs⟩

/-! ### Lengths of items -/

theorem digitsLength_le (cs : List Char) : digitsLength cs ≤ cs.length :=
  (List.takeWhile_prefix _).length_le

theorem fractionLength_le (cs : List Char) : fractionLength cs ≤ cs.length := by
  unfold fractionLength
  split
  · rename_i cs
    have := digitsLength_le cs
    rw [List.length_cons]
    split <;> omega
  · exact Nat.zero_le _

theorem exponentLength_le (cs : List Char) : exponentLength cs ≤ cs.length := by
  cases cs with
  | nil => exact Nat.le_refl _
  | cons c cs =>
    have hdigits := digitsLength_le (cs.drop (signLength cs))
    rw [List.length_drop] at hdigits
    unfold exponentLength
    dsimp only
    split
    · rename_i h
      have hpos := Nat.pos_of_ne_zero h.2
      rw [List.length_cons]
      omega
    · exact Nat.zero_le _

theorem numberLength_le (cs : List Char) : numberLength cs ≤ cs.length := by
  have hwhole := digitsLength_le cs
  have hfraction := fractionLength_le (cs.drop (digitsLength cs))
  have hexponent := exponentLength_le
    (cs.drop (digitsLength cs + fractionLength (cs.drop (digitsLength cs))))
  rw [List.length_drop] at hfraction hexponent
  unfold numberLength
  dsimp only
  omega

theorem nameLength_le (cs : List Char) : nameLength cs ≤ cs.length :=
  (List.takeWhile_prefix _).length_le

theorem nameLength_pos (hc : isNameStart c = true) : 0 < nameLength (c :: cs) := by
  rw [nameLength, List.takeWhile_cons_of_pos (isNamePart_of_isNameStart hc), List.length_cons]
  exact Nat.succ_pos _

theorem symbolLength_le : symbolLength (c :: cs) ≤ (c :: cs).length := by
  cases cs with
  | nil => exact Nat.le_refl _
  | cons d cs =>
    rw [symbolLength, List.length_cons, List.length_cons]
    split <;> omega

theorem symbolLength_pos : 0 < symbolLength (c :: cs) := by
  unfold symbolLength
  split
  · split <;> decide
  · decide

/-! ### One item -/

/-- The item stands for the characters `lexeme` at the byte offset `p`. -/
structure Covers (size p : ℕ) (lexeme : List Char) (item : Item) : Prop where
  start_eq : item.start = p
  stop_eq : item.stop size = p + bytes lexeme
  ne_nil : lexeme ≠ []
  shows : item.Shows (String.ofList lexeme)

theorem stop_of_ne_quoted {t : Token} (h : t.kind ≠ .quoted) :
    t.stop = t.position + t.text.utf8ByteSize := by
  unfold Token.stop
  split
  · contradiction
  · rfl

theorem covers_tokenAt {kind : Token.Kind} (hkind : kind ≠ .quoted) (hpos : 0 < n)
    (hle : n ≤ (c :: cs).length) :
    ∃ body rest, cs = body ++ rest ∧ (tokenAt kind p n (c :: cs)).2 = body.length ∧
      Covers size p (c :: body) (tokenAt kind p n (c :: cs)).1 := by
  obtain ⟨m, rfl⟩ : ∃ m, n = m + 1 := ⟨n - 1, by omega⟩
  rw [List.length_cons] at hle
  refine ⟨cs.take m, cs.drop m, (List.take_append_drop m cs).symm, ?_, rfl, ?_, by simp, ?_⟩
  · rw [List.length_take, tokenAt]
    omega
  · rw [tokenAt, stop, stop_of_ne_quoted hkind, utf8ByteSize_ofList, List.take_succ_cons]
  · rw [tokenAt, Shows, if_neg hkind]
    rfl

theorem ofList_bracket (cs : List Char) : String.ofList ('[' :: cs) = "[" ++ String.ofList cs := by
  rw [String.ofList_cons]
  rfl

theorem covers_quotedAt (hsize : p + bytes ('[' :: cs) = size) :
    ∃ body rest, cs = body ++ rest ∧ (quotedAt p cs).2 = body.length ∧
      Covers size p ('[' :: body) (quotedAt p cs).1 := by
  by_cases hclose : ']' ∈ cs
  · obtain ⟨text, rest, rfl, hfirst⟩ := List.eq_append_cons_of_mem hclose
    rw [quotedAt_of_closed hfirst]
    refine ⟨text ++ [']'], rest, by simp, by simp, rfl, ?_, by simp, ?_⟩
    · have hopen : '['.utf8Size = 1 := rfl
      have hshut : bytes [']'] = 1 := rfl
      rw [bytes_cons, bytes_append, hopen, hshut, stop, Token.stop]
      dsimp only
      rw [utf8ByteSize_ofList]
      omega
    · rw [ofList_bracket, String.ofList_append, ← String.append_assoc]
      rfl
  · rw [quotedAt_of_open hclose]
    refine ⟨cs, [], (List.append_nil cs).symm, rfl, rfl, hsize.symm, by simp, String.ofList cs, ?_, ?_⟩
    · rwa [String.toList_ofList]
    · exact ofList_bracket cs

/-- The item at a character that is no blank stands for that character and those it counts. -/
theorem covers_itemAt (hsize : p + bytes (c :: cs) = size) :
    ∃ body rest, cs = body ++ rest ∧ (itemAt p c cs).2 = body.length ∧
      Covers size p (c :: body) (itemAt p c cs).1 := by
  unfold itemAt
  by_cases hbracket : c = '['
  · subst hbracket
    rw [if_pos rfl]
    exact covers_quotedAt hsize
  · rw [if_neg hbracket]
    split_ifs with hdigit hname hpunct
    · exact covers_tokenAt (by decide) (numberLength_pos hdigit) (numberLength_le _)
    · exact covers_tokenAt (by decide) (nameLength_pos hname) (nameLength_le _)
    · exact covers_tokenAt (by decide) symbolLength_pos symbolLength_le
    · refine ⟨[], cs, rfl, rfl, rfl, ?_, by simp, ?_⟩
      · rw [bytes_cons]
        rfl
      · rw [Shows, String.ofList_cons, String.ofList_nil, String.append_empty]

/-! ### Reading item by item -/

/-- A place of a source: a byte offset and the characters that follow. -/
structure Place where
  position : ℕ
  rest : List Char

variable {x y : Place}

/-- The next item, and the place behind it. -/
def nextFrom (p : ℕ) : List Char → Option (Item × Place)
  | [] => none
  | c :: cs =>
    if blank.contains c then nextFrom (p + c.utf8Size) cs
    else
      let (item, more) := itemAt p c cs
      some (item, ⟨p + c.utf8Size + bytes (cs.take more), cs.drop more⟩)

/-- Reading on from a place yields the items, one after the other, and then ends. -/
inductive Yields : Place → List Item → Prop
  | stop {x : Place} (hnext : nextFrom x.position x.rest = none) : Yields x []
  | step {x y : Place} {item : Item} {items : List Item}
      (hnext : nextFrom x.position x.rest = some (item, y)) (hrest : Yields y items) :
      Yields x (item :: items)

theorem nextFrom_eq_none (h : nextFrom p cs = none) :
    (∀ c ∈ cs, blank.contains c = true) ∧ itemsFrom 0 p cs = [] := by
  induction cs generalizing p with
  | nil => exact ⟨by simp, rfl⟩
  | cons c cs ih =>
    rw [nextFrom] at h
    by_cases hblank : blank.contains c = true
    · rw [if_pos hblank] at h
      obtain ⟨hall, hitems⟩ := ih h
      refine ⟨List.forall_mem_cons.mpr ⟨hblank, hall⟩, ?_⟩
      rw [itemsFrom, if_pos hblank, hitems]
    · rw [if_neg hblank] at h
      cases h

/-- **One step**: blanks, the lexeme of the item and the place behind it. -/
theorem nextFrom_eq_some (h : nextFrom p cs = some (item, y)) (hsize : p + bytes cs = size) :
    ∃ gap lexeme, cs = gap ++ (lexeme ++ y.rest) ∧ (∀ c ∈ gap, blank.contains c = true) ∧
      Covers size (p + bytes gap) lexeme item ∧ y.position = p + bytes gap + bytes lexeme ∧
      itemsFrom 0 p cs = item :: itemsFrom 0 y.position y.rest := by
  induction cs generalizing p with
  | nil => cases h
  | cons c cs ih =>
    rw [nextFrom] at h
    by_cases hblank : blank.contains c = true
    · rw [if_pos hblank] at h
      rw [bytes_cons, ← Nat.add_assoc] at hsize
      obtain ⟨gap, lexeme, rfl, hgap, hcovers, hposition, hitems⟩ := ih h hsize
      refine ⟨c :: gap, lexeme, rfl, List.forall_mem_cons.mpr ⟨hblank, hgap⟩, ?_, ?_, ?_⟩
      · rwa [bytes_cons, ← Nat.add_assoc]
      · rwa [bytes_cons, ← Nat.add_assoc]
      · rwa [itemsFrom, if_pos hblank]
    · rw [if_neg hblank] at h
      obtain ⟨body, rest, rfl, hmore, hcovers⟩ := covers_itemAt hsize
      simp only [hmore, List.take_left, List.drop_left, Option.some.injEq, Prod.mk.injEq] at h
      obtain ⟨rfl, rfl⟩ := h
      refine ⟨[], c :: body, rfl, by simp, hcovers, ?_, ?_⟩
      · rw [bytes_cons, ← Nat.add_assoc]
        rfl
      · rw [itemsFrom, if_neg hblank]
        simp only [hmore]
        rw [itemsFrom_length]

/-- **Reading ends**, and yields the items of the rest. -/
theorem yields_iff : Yields x items ↔ items = itemsFrom 0 x.position x.rest := by
  constructor
  · intro h
    induction h with
    | stop hnext => exact (nextFrom_eq_none hnext).2.symm
    | step hnext _ ih =>
      obtain ⟨_, _, -, -, -, -, hitems⟩ := nextFrom_eq_some hnext rfl
      rw [hitems, ih]
  · rintro rfl
    -- Every step leaves fewer characters, since no lexeme is empty.
    induction hlen : x.rest.length using Nat.strong_induction_on generalizing x with
    | _ len ih =>
      cases hnext : nextFrom x.position x.rest with
      | none =>
        rw [(nextFrom_eq_none hnext).2]
        exact .stop hnext
      | some next =>
        obtain ⟨item, y⟩ := next
        obtain ⟨gap, lexeme, hrest, -, hcovers, -, hitems⟩ := nextFrom_eq_some hnext rfl
        have hpos := List.length_pos_iff.mpr hcovers.ne_nil
        have hless : y.rest.length < len := by
          rw [← hlen, hrest, List.length_append, List.length_append]
          omega
        rw [hitems]
        exact .step hnext (ih _ hless rfl)

/-! ### Tilings -/

/-- **The items tile the characters** from the byte offset `p` on: blanks and lexemes in turn. -/
inductive Tiles (size : ℕ) : ℕ → List Char → List Item → Prop
  | stop {p : ℕ} {gap : List Char} (hgap : ∀ c ∈ gap, blank.contains c = true) :
      Tiles size p gap []
  | step {p : ℕ} {gap lexeme rest : List Char} {item : Item} {items : List Item}
      (hgap : ∀ c ∈ gap, blank.contains c = true)
      (hcovers : Covers size (p + bytes gap) lexeme item)
      (hrest : Tiles size (p + bytes gap + bytes lexeme) rest items) :
      Tiles size p (gap ++ (lexeme ++ rest)) (item :: items)

/-- What reading yields tiles the rest. -/
theorem Yields.tiles (h : Yields x items) (hsize : x.position + bytes x.rest = size) :
    Tiles size x.position x.rest items := by
  induction h with
  | stop hnext => exact .stop (nextFrom_eq_none hnext).1
  | @step x item y items hnext _ ih =>
    obtain ⟨gap, lexeme, hrest, hgap, hcovers, hposition, -⟩ := nextFrom_eq_some hnext hsize
    rw [hrest, bytes_append, bytes_append] at hsize
    rw [hrest]
    refine .step hgap hcovers ?_
    rw [← hposition]
    exact ih (by omega)

namespace Tiles

/-- Every item stands for a piece of the characters. -/
theorem exists_covers (h : Tiles size p cs items) (hitem : item ∈ items) :
    ∃ before lexeme after, cs = before ++ lexeme ++ after ∧
      Covers size (p + bytes before) lexeme item := by
  induction h with
  | stop => cases hitem
  | @step p gap lexeme rest head items _ hcovers _ ih =>
    rcases List.mem_cons.mp hitem with rfl | hitem
    · exact ⟨gap, lexeme, rest, (List.append_assoc _ _ _).symm, hcovers⟩
    · obtain ⟨before, lexeme', after, rfl, hcovers'⟩ := ih hitem
      refine ⟨gap ++ (lexeme ++ before), lexeme', after, by simp only [List.append_assoc], ?_⟩
      rwa [bytes_append, bytes_append, ← Nat.add_assoc, ← Nat.add_assoc]

theorem le_start (h : Tiles size p cs items) (hitem : item ∈ items) : p ≤ item.start := by
  obtain ⟨before, lexeme, after, -, hcovers⟩ := h.exists_covers hitem
  rw [hcovers.start_eq]
  exact Nat.le_add_right _ _

/-- No two items overlap, and the later ones stand behind the earlier ones. -/
theorem pairwise (h : Tiles size p cs items) :
    items.Pairwise fun i j => i.stop size ≤ j.start := by
  induction h with
  | stop => exact .nil
  | @step p gap lexeme rest item items _ hcovers hrest ih =>
    refine .cons (fun j hj => ?_) ih
    rw [hcovers.stop_eq]
    exact hrest.le_start hj

/-- A character that belongs to no item is a blank. -/
theorem blank_or_exists {before after : List Char} (h : Tiles size p cs items)
    (hcs : cs = before ++ c :: after) :
    blank.contains c = true ∨ ∃ item ∈ items,
      item.start ≤ p + bytes before ∧ p + bytes before + c.utf8Size ≤ item.stop size := by
  induction h generalizing before with
  | stop hgap =>
    subst hcs
    exact .inl (hgap c (by simp))
  | @step p gap lexeme rest item items hgap hcovers _ ih =>
    rcases append_eq_append_cons hcs with ⟨tail, rfl⟩ | ⟨before, rfl, hbehind⟩
    · exact .inl (hgap c (by simp))
    · rcases append_eq_append_cons hbehind with ⟨tail, rfl⟩ | ⟨before, rfl, hrest⟩
      · refine .inr ⟨item, List.mem_cons_self, ?_, ?_⟩
        · rw [hcovers.start_eq, bytes_append]
          omega
        · rw [hcovers.stop_eq, bytes_append, bytes_append, bytes_cons]
          omega
      · rcases ih hrest with hblank | ⟨item, hitem, hstart, hstop⟩
        · exact .inl hblank
        · rw [bytes_append, bytes_append, ← Nat.add_assoc, ← Nat.add_assoc]
          exact .inr ⟨item, List.mem_cons_of_mem _ hitem, hstart, hstop⟩

end Tiles

/-! ### The partition of a source -/

/-- **The items partition a source** into their spans and blanks. -/
structure Partitions (source : String) (items : List Item) : Prop where
  /-- No span is empty, and each begins and ends between characters, with the lexeme in between. -/
  lexemes : ∀ item ∈ items, item.start < item.stop source.utf8ByteSize ∧
    ∃ lexeme, StandsAt source lexeme item.start (item.stop source.utf8ByteSize) ∧ item.Shows lexeme
  /-- The spans are in order and apart. -/
  ordered : items.Pairwise fun i j => i.stop source.utf8ByteSize ≤ j.start
  /-- Every character outside the spans is a blank. -/
  blanks : ∀ before c after, source = before ++ String.singleton c ++ after →
    blank.contains c = true ∨ ∃ item ∈ items, item.start ≤ before.utf8ByteSize ∧
      before.utf8ByteSize + c.utf8Size ≤ item.stop source.utf8ByteSize

theorem Tiles.partitions {source : String}
    (h : Tiles source.utf8ByteSize 0 source.toList items) : Partitions source items := by
  refine ⟨fun item hitem => ?_, h.pairwise, fun before c after hsource => ?_⟩
  · obtain ⟨before, lexeme, after, hcs, hcovers⟩ := h.exists_covers hitem
    have hpos := bytes_pos hcovers.ne_nil
    refine ⟨by rw [hcovers.start_eq, hcovers.stop_eq]; omega, String.ofList lexeme, ?_, hcovers.shows⟩
    refine ⟨String.ofList before, String.ofList after, ?_, ?_, ?_⟩
    · rw [← String.ofList_append, ← String.ofList_append, ← hcs, String.ofList_toList]
    · rw [utf8ByteSize_ofList, hcovers.start_eq, Nat.zero_add]
    · rw [String.utf8ByteSize_append, utf8ByteSize_ofList, utf8ByteSize_ofList, hcovers.stop_eq,
        Nat.zero_add]
  · have hcs : source.toList = before.toList ++ c :: after.toList := by
      rw [hsource, String.toList_append, String.toList_append, String.toList_singleton,
        List.append_assoc, List.singleton_append]
    have hcovered := h.blank_or_exists hcs
    rwa [bytes_toList, Nat.zero_add] at hcovered

theorem collect_eq_ok_iff {ts : List Token} : collect items = .ok ts ↔ items = ts.map .ok := by
  constructor
  · exact collect_eq_ok
  · rintro rfl
    exact collect_map_ok ts

theorem collect_eq_error_iff {e : TokenError} :
    collect items = .error e ↔ ∃ ts rest, items = List.map .ok ts ++ .error e :: rest := by
  constructor
  · intro h
    induction items with
    | nil => cases h
    | cons item items ih =>
      cases item with
      | error e' =>
        cases h
        exact ⟨[], items, rfl⟩
      | ok t =>
        rw [collect] at h
        cases hcollect : collect items with
        | ok us => rw [hcollect] at h; cases h
        | error e' =>
          rw [hcollect] at h
          cases h
          obtain ⟨ts, rest, rfl⟩ := ih hcollect
          exact ⟨t :: ts, rest, rfl⟩
  · rintro ⟨ts, rest, rfl⟩
    induction ts with
    | nil => rfl
    | cons t ts ih =>
      rw [List.map_cons, List.cons_append, collect, ih]
      rfl

/-- The items of a source tile it. -/
theorem ofSource_tiles (source : String) :
    Tiles source.utf8ByteSize 0 source.toList (ofSource source) := by
  have hyields : Yields ⟨0, source.toList⟩ (ofSource source) := yields_iff.mpr rfl
  refine hyields.tiles ?_
  rw [Nat.zero_add, bytes_toList]

/-- **Nothing of a source is lost.** Reading item by item ends, also behind errors; what it yields
partitions the source; and the tokens of the source are the items, unless one of them is an error. -/
theorem ofSource_partitions (source : String) :
    (∀ items, Yields ⟨0, source.toList⟩ items ↔ items = ofSource source) ∧
    Partitions source (ofSource source) ∧
    (∀ ts, Token.ofSource source = .ok ts ↔ ofSource source = ts.map .ok) ∧
    ∀ e, Token.ofSource source = .error e ↔
      ∃ ts rest, ofSource source = List.map .ok ts ++ .error e :: rest :=
  ⟨fun _ => yields_iff, (ofSource_tiles source).partitions, fun _ => collect_eq_ok_iff,
    fun _ => collect_eq_error_iff⟩

/-- Letters of two bytes, an unknown character in the middle and a bracket left open. -/
theorem ofSource_partitions_unclosed :
    (ofSource "1.5é ²[a b]+[c").map (fun item => (item.start, item.stop 16)) =
        [(0, 3), (3, 5), (6, 8), (8, 13), (13, 14), (14, 16)] ∧
      Partitions "1.5é ²[a b]+[c" (ofSource "1.5é ²[a b]+[c") ∧
      Token.ofSource "1.5é ²[a b]+[c" = .error ⟨6, .unrecognized '²'⟩ := by
  obtain ⟨-, hpartitions, -, herror⟩ := ofSource_partitions "1.5é ²[a b]+[c"
  refine ⟨by decide +kernel, hpartitions, (herror _).mpr ?_⟩
  exact ⟨[⟨.number, "1.5", 0⟩, ⟨.name, "é", 3⟩], (ofSource "1.5é ²[a b]+[c").drop 3,
    by decide +kernel⟩

end Formula.Item
