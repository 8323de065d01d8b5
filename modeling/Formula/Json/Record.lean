import Formula.Json.Value

/-!
# Records

A record is read from an object, whose members may come in any order and may include unknown ones,
or from an array that lists the values of the fields in their order.  A `Field` of a record under
construction knows its key, whether it has been read, and how its value is read; missing fields are
the business of `finish`, which makes the record.  A known key that comes again is refused as soon as
it is read.
-/

namespace Formula.Json

/-- A field of the record `σ` under construction. -/
structure Field (σ : Type) where
  /-- The key in an object. -/
  key : String
  /-- Whether the field has been read already. -/
  isRead : σ → Bool
  /-- Reads the value into the record. -/
  read : σ → Scan σ

variable {σ α : Type}

/-! ### Objects -/

/-- Reads the member whose key is about to begin behind its quotation mark. -/
def member (fields : List (Field σ)) (s : σ) : Scan σ := fun cs => do
  let (key, cs) ← string cs
  match fields.find? (·.key = key) with
  | some field =>
    if field.isRead s then .error .mismatch
    else
      let ((), cs) ← mark ':' cs
      field.read s cs
  | none =>
    let ((), cs) ← mark ':' cs
    let rest ← skipValue cs
    .ok (s, rest)

/-- Reads members up to the end of the object; `fuel` bounds their number. -/
def members (fields : List (Field σ)) : Nat → σ → Scan σ
  | 0, _, _ => .error .truncated
  | fuel + 1, s, cs => do
    let ((), cs) ← mark '"' cs
    let (s, cs) ← member fields s cs
    match skipBlanks cs with
    | [] => .error .truncated
    | c :: rest =>
      if c = '\x7d' then .ok (s, rest)
      else if c = ',' then members fields fuel s rest
      else .error .malformed

/-- Reads an object whose opening brace has been consumed. -/
def object (fields : List (Field σ)) (s : σ) : Scan σ := fun cs =>
  match skipBlanks cs with
  | [] => .error .truncated
  | c :: rest =>
    if c = '\x7d' then .ok (s, rest) else members fields (cs.length + 1) s (c :: rest)

/-! ### Arrays -/

/-- Reads the values of the fields in order, as far as the array goes, with a comma before each but
the first.  The closing bracket is left. -/
def elements (isFirst : Bool) : List (Field σ) → σ → Scan σ
  | [], s, cs => .ok (s, cs)
  | field :: fields, s, cs =>
    match skipBlanks cs with
    | [] => .error .truncated
    | c :: rest =>
      if c = ']' then .ok (s, c :: rest)
      else if isFirst then do
        let (s, cs) ← field.read s (c :: rest)
        elements false fields s cs
      else if c = ',' then
        match skipBlanks rest with
        | [] => .error .truncated
        | d :: rest =>
          if d = ']' then .error .malformed
          else do
            let (s, cs) ← field.read s (d :: rest)
            elements false fields s cs
      else .error .malformed

/-! ### Whole texts -/

/-- **Reads a text that holds one record**, and nothing else but blanks. -/
def readRecord (fields : List (Field σ)) (start : σ) (finish : σ → Except JsonError α)
    (text : String) : Except JsonError α :=
  match skipBlanks text.toList with
  | [] => .error .truncated
  | c :: cs => do
    let (record, rest) ←
      if c = '\x7b' then do
        let (s, rest) ← object fields start cs
        .ok (← finish s, rest)
      else if c = '[' then do
        let (s, rest) ← elements true fields start cs
        let record ← finish s
        let ((), rest) ← mark ']' rest
        .ok (record, rest)
      else mismatched c cs
    if (skipBlanks rest).isEmpty then .ok record else .error .malformed

end Formula.Json
