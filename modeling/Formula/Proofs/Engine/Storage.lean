import Formula.Proofs.Engine.Settings
import Formula.Proofs.Json.Written

/-!
# What a stored value is read back as

A value is stored with its shortest decimal and read as a significand that is scaled. The reader rounds the significand,
the power of ten and their product or quotient, so what is read is a finite value of the same sign (`ofJson_finite`),
but not always the stored one: it is exactly if scaling its shortest decimal gives the value, for which it suffices that
the significand has at most 53 binary digits and the power of ten is a double (`ofJson_toJson`). A value that is not
finite never comes back.
-/

namespace Formula.Value

open Json
open Decimal (Scaled shortest magnitude isNegative infinityBits)

variable {x : Float} {cs : List Char}

/-! ### The one member -/

theorem memberFrom_value {rest : List Char} {r : Except JsonError Float} (hread : float rest = r.map (·, ['\x7d'])) :
    memberFrom fields none ('"' :: ("value".toList ++ '"' :: ':' :: rest)) = r.map fun y => (some y, ['\x7d']) := by
  have hnil : Blanks [] := fun c hc => absurd hc List.not_mem_nil
  have hmark : ∀ (c : Char) (cs : List Char), isBlank c = false → mark c (c :: cs) = .ok ((), cs) :=
    fun c cs hc => mark_append hnil hc
  have hkey : Denotes "value".toList "value" := Settings.denotes_self (by simp)
  have hfind : fields.find? (·.key = "value") =
      some ⟨"value", Option.isSome, fun _ cs => (float cs).map fun r => (some r.1, r.2)⟩ := rfl
  rw [memberFrom, hmark _ _ (by decide)]
  simp only [bind, Except.bind]
  rw [member, string_append hkey]
  simp only [bind, Except.bind, hfind, Option.isSome_none, hmark ':' rest (by decide), hread]
  cases r <;> rfl

/-- **The value is what stands behind the colon.** -/
theorem ofJson_member {text : String} {r : Except JsonError Float}
    (htext : text.toList = '\x7b' :: '"' :: ("value".toList ++ '"' :: ':' :: (cs ++ ['\x7d'])))
    (hread : float (cs ++ ['\x7d']) = r.map (·, ['\x7d'])) : ofJson text = r := by
  have hmember := memberFrom_value hread
  rw [ofJson, readRecord, htext, skipBlanks_cons (by decide)]
  dsimp only
  rw [if_pos rfl, object, skipBlanks_cons (by decide)]
  dsimp only
  rw [if_neg (by decide), members_succ, hmember]
  cases r with
  | error e => rfl
  | ok y => rfl

theorem toList_toJson (x : Float) :
    (toJson x).toList = '\x7b' :: '"' :: ("value".toList ++ '"' :: ':' :: ((writeNumber x).toList ++ ['\x7d'])) := by
  unfold toJson
  simp only [String.toList_append, String.reduceToList, List.cons_append, List.nil_append]

/-! ### Finite values -/

/-- The significand and the power of ten that are read from the text of a finite value. -/
def stored (x : Float) : Scaled :=
  asRead (shortest .even (magnitude x))

/-- **What is read is the shortest decimal, scaled**, with its sign. -/
theorem ofJson_of_isFinite (hx : x.isFinite = true) :
    ofJson (toJson x) = (scale (stored x).coefficient (stored x).exponent).map (signed (isNegative x)) := by
  have hends : Ends ['\x7d'] := ends_closing .curly
  apply ofJson_member (toList_toJson x)
  rw [float_writeNumber hx hends]
  unfold stored
  cases scale _ _ <;> rfl

theorem signed_eq_iff {y : Float} (hx : x.isFinite = true) :
    signed (isNegative x) y = x ↔ y = Decimal.toFloat false (magnitude x) := by
  cases hneg : isNegative x with
  | false => rw [signed, if_neg Bool.false_ne_true, Decimal.toFloat_magnitude hneg]
  | true => exact Decimal.neg_eq_iff hx hneg

/-- **A stored value comes back exactly if its shortest decimal is scaled to it.** -/
theorem ofJson_eq_self_iff (hx : x.isFinite = true) : ofJson (toJson x) = .ok x ↔
    scale (stored x).coefficient (stored x).exponent = .ok (Decimal.toFloat false (magnitude x)) := by
  rw [ofJson_of_isFinite hx]
  cases scale (stored x).coefficient (stored x).exponent with
  | error e => exact ⟨(nomatch ·), (nomatch ·)⟩
  | ok y =>
    rw [Except.map, Except.ok.injEq, Except.ok.injEq]
    exact signed_eq_iff hx

theorem nearest_stored (hx : x.isFinite = true) : (stored x).nearest = magnitude x := by
  rw [stored, nearest_asRead, Decimal.shortest_nearest .even (Decimal.isFinite_iff_magnitude_lt.mp hx)]

/-- **What is read back is finite and has the sign of the stored value.** -/
theorem ofJson_finite (hx : x.isFinite = true) :
    ∃ y, ofJson (toJson x) = .ok y ∧ y.isFinite = true ∧ isNegative y = isNegative x := by
  obtain ⟨b, hb, hscale⟩ := scale_shortest (Decimal.isFinite_iff_magnitude_lt.mp hx)
  have hread : ofJson (toJson x) = .ok (signed (isNegative x) (Decimal.toFloat false b)) := by
    rw [ofJson_of_isFinite hx, stored, hscale]
    rfl
  refine ⟨_, hread, ?_⟩
  cases isNegative x with
  | false => exact ⟨Decimal.isFinite_toFloat hb, Decimal.isNegative_toFloat_of_le hb.le⟩
  | true => exact Decimal.neg_toFloat hb

/-- A short significand and a small power of ten come back. -/
theorem ofJson_of_le (hx : x.isFinite = true) (hs : (stored x).coefficient ≤ 2 ^ 53)
    (he : (stored x).exponent.natAbs ≤ 22) : ofJson (toJson x) = .ok x := by
  have hnearest := nearest_stored hx
  have hbits : magnitude x < infinityBits := Decimal.isFinite_iff_magnitude_lt.mp hx
  rw [ofJson_eq_self_iff hx, ← hnearest]
  rw [← hnearest] at hbits
  exact scale_of_le hs he hbits

/-! ### All values -/

/-- A value that is not finite is stored as `null`, which is no number. -/
theorem ofJson_of_not_isFinite (hx : x.isFinite = false) : ofJson (toJson x) = .error .mismatch := by
  apply ofJson_member (toList_toJson x)
  have hnull : writeNumber x = "null" := by
    unfold writeNumber
    rw [hx, if_neg Bool.false_ne_true]
  rw [hnull]
  rfl

/-- **What a stored value is read back as.** A value that is not finite is refused. A finite one is read as its shortest
decimal, scaled, which is a finite value of the same sign: it comes back exactly if the scaling gives its magnitude, and
it does so if the significand is at most `2 ^ 53` and the power of ten is one of the doubles `10 ^ 0, …, 10 ^ 22` or a
division by one. -/
theorem ofJson_toJson (x : Float) :
    (x.isFinite = false → ofJson (toJson x) = .error .mismatch) ∧
    (x.isFinite = true →
      ofJson (toJson x) = (scale (stored x).coefficient (stored x).exponent).map (signed (isNegative x)) ∧
      (∃ y, ofJson (toJson x) = .ok y ∧ y.isFinite = true ∧ isNegative y = isNegative x) ∧
      (ofJson (toJson x) = .ok x ↔
        scale (stored x).coefficient (stored x).exponent = .ok (Decimal.toFloat false (magnitude x))) ∧
      ((stored x).coefficient ≤ 2 ^ 53 → (stored x).exponent.natAbs ≤ 22 → ofJson (toJson x) = .ok x)) :=
  ⟨ofJson_of_not_isFinite,
    fun hx => ⟨ofJson_of_isFinite hx, ofJson_finite hx, ofJson_eq_self_iff hx, ofJson_of_le hx⟩⟩

/-- One half with a sign comes back, and infinity does not. -/
theorem ofJson_toJson_half :
    let x := Decimal.toFloat true (1022 * Decimal.binade)
    (x.isFinite = true ∧ (stored x).coefficient ≤ 2 ^ 53 ∧ (stored x).exponent.natAbs ≤ 22 ∧
      ofJson (toJson x) = .ok x) ∧
      (Decimal.infinity false).isFinite = false ∧ ofJson (toJson (Decimal.infinity false)) = .error .mismatch := by
  have hx : (Decimal.toFloat true (1022 * Decimal.binade)).isFinite = true := by decide +kernel
  have hs : (stored (Decimal.toFloat true (1022 * Decimal.binade))).coefficient ≤ 2 ^ 53 := by decide +kernel
  have he : (stored (Decimal.toFloat true (1022 * Decimal.binade))).exponent.natAbs ≤ 22 := by decide +kernel
  have hinf : (Decimal.infinity false).isFinite = false := by decide +kernel
  exact ⟨⟨hx, hs, he, ((ofJson_toJson _).2 hx).2.2.2 hs he⟩, hinf, (ofJson_toJson _).1 hinf⟩

/-- The double nearest to `10 ^ (-23)` comes back as the next greater one: `10 ^ 23` is no double, and its rounding is
seen in the quotient. -/
theorem ofJson_toJson_next :
    let x := Decimal.toFloat false 4262707295203537489
    x.isFinite = true ∧ toJson x = "\x7b\"value\":1e-23\x7d" ∧
      ofJson (toJson x) = .ok (Decimal.toFloat false 4262707295203537490) ∧ ofJson (toJson x) ≠ .ok x := by
  decide +kernel

end Formula.Value
