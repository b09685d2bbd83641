import StyleGuide.Toml.Scalar

/-!
# Values of TOML

Scalars, arrays and inline tables. Arrays may go over several lines and end with a comma; inline
tables may not. Values are nested at most 79 deep.

## Main definitions

* `Toml.value?`: the value at the front of a text.
* `Toml.setPath`: set a key of an inline table.
-/

namespace StyleGuide.Toml

/-- A table that is being written: whether its keys may still be added to from outside, by dotted
keys, and its fields. -/
inductive Draft where
  | value (v : Toml)
  | open (fields : List (String × Draft))

namespace Draft

mutual

/-- The value once nothing is added any more. -/
def close : Draft → Toml
  | value v => v
  | .open fields => table (closeFields fields)

/-- The fields once nothing is added any more. -/
def closeFields : List (String × Draft) → List (String × Toml)
  | [] => []
  | (k, d) :: rest => (k, d.close) :: closeFields rest

end

/-- Put a field in place of the one of that name, or at the end. -/
def replaceField (k : String) (d : Draft) : List (String × Draft) → List (String × Draft)
  | [] => [(k, d)]
  | (j, old) :: rest => if j = k then (k, d) :: rest else (j, old) :: replaceField k d rest

/-- Set a key with all its parts. A key is set once, and only tables that dotted keys have made are
added to. -/
def setPath (v : Toml) : List String → List (String × Draft) → Option (List (String × Draft))
  | [], _ => none
  | [k], fields => if (fields.lookup k).isSome then none else some (fields ++ [(k, value v)])
  | k :: next :: path, fields =>
    match fields.lookup k with
    | some (value _) => none
    | some (.open inner) =>
      (setPath v (next :: path) inner).map fun inner => replaceField k (.open inner) fields
    | none => (setPath v (next :: path) []).map fun inner => fields ++ [(k, .open inner)]

end Draft

/-- Skip blanks, comments and line breaks inside an array. The fuel counts the lines left. -/
def skipLines : Nat → List Char → List Char
  | 0, cs => cs
  | fuel + 1, cs =>
    match newline? (skipComment (skipSpaces cs)) with
    | some rest => skipLines fuel rest
    | none =>
      match skipSpaces cs with
      | '#' :: _ => cs
      | rest => rest

/-- A value that holds no other. -/
def scalar? (cs : List Char) : Option (Toml × List Char) :=
  match cs with
  | [] => none
  | c :: rest =>
    if c = '"' ∨ c = '\'' then (string? cs).map fun (s, rest) => (.string s, rest)
    else if c.isDigit = true ∨ c = '+' ∨ c = '-' then
      if startsDate cs ∨ startsTime cs then moment? cs else number? cs
    else if c = 'i' ∨ c = 'n' then number? cs
    else if c = 't' then
      match rest with
      | 'r' :: 'u' :: 'e' :: rest => some (.bool true, rest)
      | _ => none
    else if c = 'f' then
      match rest with
      | 'a' :: 'l' :: 's' :: 'e' :: rest => some (.bool false, rest)
      | _ => none
    else none

/-- The number of arrays and inline tables that can stand one inside the other. -/
def nestingLimit : Nat := 79

mutual

/-- The value at the front of a text, with `depth` more levels allowed. -/
def valueWithin? : (fuel depth : Nat) → List Char → Option (Toml × List Char)
  | 0, _, _ => none
  | fuel + 1, depth, cs =>
    match cs with
    | '[' :: rest =>
      match depth with
      | 0 => none
      | depth + 1 => (itemsWithin? fuel depth rest).map fun (items, rest) => (array items, rest)
    | '\x7b' :: rest =>
      match depth with
      | 0 => none
      | depth + 1 =>
        match skipSpaces rest with
        | '\x7d' :: rest => some (table [], rest)
        | rest =>
          (fieldsWithin? fuel depth [] rest).map fun (fields, rest) =>
            (table (Draft.closeFields fields), rest)
    | _ => scalar? cs

/-- The items of an array up to its closing bracket. -/
def itemsWithin? : (fuel depth : Nat) → List Char → Option (List Toml × List Char)
  | 0, _, _ => none
  | fuel + 1, depth, cs =>
    match skipLines (cs.length + 1) cs with
    | ']' :: rest => some ([], rest)
    | cs => do
      let (v, rest) ← valueWithin? fuel depth cs
      match skipLines (rest.length + 1) rest with
      | ',' :: rest =>
        let (vs, rest) ← itemsWithin? fuel depth rest
        pure (v :: vs, rest)
      | ']' :: rest => pure ([v], rest)
      | _ => none

/-- The fields of an inline table up to its closing brace, at least one more. -/
def fieldsWithin? : (fuel depth : Nat) → List (String × Draft) → List Char →
    Option (List (String × Draft) × List Char)
  | 0, _, _, _ => none
  | fuel + 1, depth, done, cs => do
    let (path, rest) ← key? cs
    let rest ← behind? '=' rest
    let (v, rest) ← valueWithin? fuel depth (skipSpaces rest)
    let done ← Draft.setPath v path done
    match skipSpaces rest with
    | ',' :: rest => fieldsWithin? fuel depth done rest
    | '\x7d' :: rest => pure (done, rest)
    | _ => none

end

/-- The value at the front of a text. -/
def value? (cs : List Char) : Option (Toml × List Char) :=
  valueWithin? (2 * cs.length + 2) nestingLimit cs

end StyleGuide.Toml
