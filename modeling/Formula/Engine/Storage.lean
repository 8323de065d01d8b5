import Formula.Engine.Basic
import Formula.Json.Record

/-!
# Settings and values in storage

Settings are kept as a JSON object with the members `maxDepth` and `builtinFunctions`, each of which
may be missing.  A computed value is stored as a JSON object with the single member `value`.  A
value that is not finite is stored as `null`, which cannot be read back.
-/

namespace Formula

/-! ### Settings -/

namespace Settings

/-- Settings of which some may not have been read yet. -/
structure Partial where
  /-- The limit, if it has been read. -/
  maxDepth : Option Nat
  /-- The choice of functions, if it has been read. -/
  builtinFunctions : Option Bool

/-- The settings, with the standard in place of what is missing. -/
def Partial.complete (p : Partial) : Settings :=
  ⟨p.maxDepth.getD standard.maxDepth, p.builtinFunctions.getD standard.builtinFunctions⟩

/-- The members of a settings object. -/
def fields : List (Json.Field Partial) :=
  [{ key := "maxDepth"
     isRead := fun p => p.maxDepth.isSome
     read := fun p cs => (Json.natural cs).map fun r => ({ p with maxDepth := some r.1 }, r.2) },
   { key := "builtinFunctions"
     isRead := fun p => p.builtinFunctions.isSome
     read := fun p cs =>
       (Json.bool cs).map fun r => ({ p with builtinFunctions := some r.1 }, r.2) }]

/-- **Settings from a JSON text.** -/
def ofJson (text : String) : Except JsonError Settings :=
  Json.readRecord fields ⟨none, none⟩ (fun p => .ok p.complete) text

/-- **Settings as a JSON text**, a member on each line. -/
def toJson (s : Settings) : String :=
  "\x7b\n  \"maxDepth\": " ++ toString s.maxDepth ++ ",\n  \"builtinFunctions\": " ++
    (if s.builtinFunctions then "true" else "false") ++ "\n\x7d"

end Settings

/-! ### Values -/

namespace Value

/-- A value as a JSON text. -/
def toJson (x : Float) : String :=
  "\x7b\"value\":" ++ Json.writeNumber x ++ "\x7d"

/-- The member of a stored value. -/
def fields : List (Json.Field (Option Float)) :=
  [{ key := "value"
     isRead := Option.isSome
     read := fun _ cs => (Json.float cs).map fun r => (some r.1, r.2) }]

/-- A value from a JSON text; the member must be there. -/
def ofJson (text : String) : Except JsonError Float :=
  Json.readRecord fields none (fun x => x.elim (.error .mismatch) .ok) text

end Value

end Formula
