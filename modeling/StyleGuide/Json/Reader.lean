import StyleGuide.Json.Basic

/-!
# Reading JSON

`Json.parse?` reads one value from a text. An object that names a field twice keeps the first place
and the last value. The reader takes one unit of fuel for each value it enters, and a text is never
nested deeper than it is long.
-/

namespace StyleGuide.Json

/-- The blanks that JSON allows between tokens. -/
def skipBlank (cs : List Char) : List Char :=
  cs.dropWhile fun c => c = ' ' || c = '\n' || c = '\r' || c = '\t'

/-- The value of a hexadecimal digit. -/
def hexValue? (c : Char) : Option Nat :=
  let n := c.toNat
  if 48 ≤ n && n ≤ 57 then some (n - 48)
  else if 97 ≤ n && n ≤ 102 then some (n - 87)
  else if 65 ≤ n && n ≤ 70 then some (n - 55)
  else none

/-- Four hexadecimal digits. -/
def hex4? : List Char → Option (Nat × List Char)
  | a :: b :: c :: d :: rest => do
    let a ← hexValue? a
    let b ← hexValue? b
    let c ← hexValue? c
    let d ← hexValue? d
    pure (((a * 16 + b) * 16 + c) * 16 + d, rest)
  | _ => none

/-- The character an escape stands for, read behind its backslash. A character beyond U+FFFF is
written as two escapes. -/
def escaped? : List Char → Option (Char × List Char)
  | '"' :: rest => some ('"', rest)
  | '\\' :: rest => some ('\\', rest)
  | '/' :: rest => some ('/', rest)
  | 'n' :: rest => some ('\n', rest)
  | 'r' :: rest => some ('\r', rest)
  | 't' :: rest => some ('\t', rest)
  | 'b' :: rest => some ('\x08', rest)
  | 'f' :: rest => some ('\x0c', rest)
  | 'u' :: rest => do
    let (high, rest) ← hex4? rest
    if 0xD800 ≤ high ∧ high < 0xDC00 then
      match rest with
      | '\\' :: 'u' :: rest =>
        let (low, rest) ← hex4? rest
        if 0xDC00 ≤ low ∧ low < 0xE000 then
          pure (Char.ofNat (0x10000 + (high - 0xD800) * 0x400 + (low - 0xDC00)), rest)
        else none
      | _ => none
    else if 0xDC00 ≤ high ∧ high < 0xE000 then none
    else pure (Char.ofNat high, rest)
  | _ => none

/-- The rest of a text behind its opening quote. -/
def stringTail? : Nat → List Char → List Char → Option (String × List Char)
  | 0, _, _ => none
  | _ + 1, _, [] => none
  | _ + 1, done, '"' :: rest => some (String.ofList done.reverse, rest)
  | fuel + 1, done, '\\' :: rest => do
    let (c, rest) ← escaped? rest
    stringTail? fuel (c :: done) rest
  | fuel + 1, done, c :: rest => if c.toNat < 0x20 then none else stringTail? fuel (c :: done) rest

/-- An integer. Other numbers are not read. -/
def int? (cs : List Char) : Option (Int × List Char) :=
  let (negative, digits) := match cs with
    | '-' :: rest => (true, rest)
    | _ => (false, cs)
  let ds := digits.takeWhile Char.isDigit
  if ds = [] then none
  else
    let n : Nat := ds.foldl (fun n d => n * 10 + (d.toNat - 48)) 0
    some (if negative then -(n : Int) else n, digits.dropWhile Char.isDigit)

/-- The rest of the text if it starts with the given word. -/
def word? (w : String) (cs : List Char) : Option (List Char) :=
  if w.toList.isPrefixOf cs then some (cs.drop w.length) else none

mutual

/-- One value and what stands behind it. -/
def value? : Nat → List Char → Option (Json × List Char)
  | 0, _ => none
  | fuel + 1, cs =>
    match skipBlank cs with
    | [] => none
    | '"' :: rest => do
      let (s, rest) ← stringTail? (rest.length + 1) [] rest
      pure (string s, rest)
    | '[' :: rest =>
      match skipBlank rest with
      | ']' :: rest => some (array [], rest)
      | _ => do
        let (items, rest) ← items? fuel rest
        pure (array items, rest)
    | '\x7b' :: rest =>
      match skipBlank rest with
      | '\x7d' :: rest => some (object [], rest)
      | _ => do
        let (fields, rest) ← fieldList? fuel rest
        pure (ofFields fields, rest)
    | c :: rest =>
      if c = 'n' then (word? "null" (c :: rest)).map (null, ·)
      else if c = 't' then (word? "true" (c :: rest)).map (bool true, ·)
      else if c = 'f' then (word? "false" (c :: rest)).map (bool false, ·)
      else (int? (c :: rest)).map fun (n, rest) => (int n, rest)

/-- The items of an array behind its bracket, at least one. -/
def items? : Nat → List Char → Option (List Json × List Char)
  | 0, _ => none
  | fuel + 1, cs => do
    let (v, rest) ← value? fuel cs
    match skipBlank rest with
    | ',' :: rest =>
      let (vs, rest) ← items? fuel rest
      pure (v :: vs, rest)
    | ']' :: rest => pure ([v], rest)
    | _ => none

/-- The fields of an object behind its brace, at least one. -/
def fieldList? : Nat → List Char → Option (List (String × Json) × List Char)
  | 0, _ => none
  | fuel + 1, cs => do
    match skipBlank cs with
    | '"' :: rest =>
      let (k, rest) ← stringTail? (rest.length + 1) [] rest
      match skipBlank rest with
      | ':' :: rest =>
        let (v, rest) ← value? fuel rest
        match skipBlank rest with
        | ',' :: rest =>
          let (fs, rest) ← fieldList? fuel rest
          pure ((k, v) :: fs, rest)
        | '\x7d' :: rest => pure ([(k, v)], rest)
        | _ => none
      | _ => none
    | _ => none

end

/-- The value a text holds. -/
def parse? (s : String) : Option Json :=
  let cs := s.toList
  match value? (cs.length + 1) cs with
  | some (v, rest) => if skipBlank rest = [] then some v else none
  | none => none

end StyleGuide.Json
