import StyleGuide.Toml.Basic

/-!
# Scalars of TOML

Readers for strings, keys, numbers and dates. A reader takes the text from where it stands and gives
the value with the text behind it, or `none` where the text does not start with one.
-/

namespace StyleGuide.Toml

/-! ## Blanks -/

/-- Blanks within a line. -/
def isSpace (c : Char) : Bool := c = ' ' || c = '\t'

/-- Skip blanks within a line. -/
def skipSpaces (cs : List Char) : List Char := cs.dropWhile isSpace

/-- The rest behind a line break. -/
def newline? : List Char → Option (List Char)
  | '\n' :: rest => some rest
  | '\r' :: '\n' :: rest => some rest
  | _ => none

/-- Characters that may stand in comments and, but for quotes, in strings. -/
def isPlain (c : Char) : Bool :=
  c = '\t' || (0x20 ≤ c.toNat && c.toNat ≤ 0x7E) || 0x80 ≤ c.toNat

/-- Skip a comment up to the end of its line. -/
def skipComment : List Char → List Char
  | '#' :: rest => rest.dropWhile isPlain
  | cs => cs

/-- The rest behind the end of a line, which may have blanks and a comment first. -/
def endOfLine? (cs : List Char) : Option (List Char) :=
  match skipComment (skipSpaces cs) with
  | [] => some []
  | rest => newline? rest

/-! ## Strings -/

/-- The value of a hexadecimal digit. -/
def hexValue? (c : Char) : Option Nat :=
  if c.isDigit then some (c.toNat - 48)
  else if 'a' ≤ c ∧ c ≤ 'f' then some (c.toNat - 87)
  else if 'A' ≤ c ∧ c ≤ 'F' then some (c.toNat - 55)
  else none

/-- The character with the code that `count` hexadecimal digits give. -/
def codePoint? (count : Nat) (cs : List Char) : Option (Char × List Char) := do
  let digits ← (cs.take count).mapM hexValue?
  let n := digits.foldl (fun n d => n * 16 + d) 0
  if digits.length = count ∧ n.isValidChar then some (Char.ofNat n, cs.drop count) else none

/-- The character an escape stands for, behind its backslash. -/
def escaped? : List Char → Option (Char × List Char)
  | 'b' :: rest => some ('\x08', rest)
  | 't' :: rest => some ('\t', rest)
  | 'n' :: rest => some ('\n', rest)
  | 'f' :: rest => some ('\x0c', rest)
  | 'r' :: rest => some ('\r', rest)
  | '"' :: rest => some ('"', rest)
  | '\\' :: rest => some ('\\', rest)
  | 'u' :: rest => codePoint? 4 rest
  | 'U' :: rest => codePoint? 8 rest
  | _ => none

/-- The rest of a basic string behind its quote; `done` holds its characters, last first. -/
def basicTail? : Nat → List Char → List Char → Option (String × List Char)
  | 0, _, _ => none
  | _ + 1, _, [] => none
  | fuel + 1, done, c :: rest =>
    if c = '"' then some (String.ofList done.reverse, rest)
    else if c = '\\' then do
      let (c, rest) ← escaped? rest
      basicTail? fuel (c :: done) rest
    else if isPlain c then basicTail? fuel (c :: done) rest
    else none

/-- The rest of a literal string behind its quote. -/
def literalTail? (cs : List Char) : Option (String × List Char) :=
  let body := cs.takeWhile fun c => c ≠ '\'' && isPlain c
  match cs.drop body.length with
  | '\'' :: rest => some (String.ofList body, rest)
  | _ => none

/-- The rest behind a backslash at the end of a line: all blanks and line breaks that follow. -/
def continuedLine? (cs : List Char) : Option (List Char) :=
  match newline? (skipSpaces cs) with
  | none => none
  | some rest => some (skipBlankLines (rest.length + 1) rest)
where
  /-- Skip blanks and line breaks. -/
  skipBlankLines : Nat → List Char → List Char
    | 0, cs => cs
    | fuel + 1, cs =>
      match newline? (skipSpaces cs) with
      | some rest => skipBlankLines fuel rest
      | none => skipSpaces cs

/-- The end of a string over several lines, from the first of at least three closing quotes. Up to
two quotes more belong to the string. -/
def closeLines? (quote : Char) (done rest : List Char) : Option (String × List Char) :=
  let run := (rest.takeWhile (· = quote)).length
  if run < 3 then none
  else
    let extra := min (run - 3) 2
    some (String.ofList (done.reverse ++ List.replicate extra quote), rest.drop (3 + extra))

/-- The rest of a string over several lines, with escapes or without. A line break in it counts as
a line feed. -/
def linesTail? (quote : Char) (escapes : Bool) :
    Nat → List Char → List Char → Option (String × List Char)
  | 0, _, _ => none
  | _ + 1, _, [] => none
  | fuel + 1, done, c :: rest =>
    if c = quote then
      match closeLines? quote done (c :: rest) with
      | some r => some r
      | none => linesTail? quote escapes fuel (c :: done) rest
    else if escapes = true ∧ c = '\\' then
      match continuedLine? rest with
      | some rest => linesTail? quote escapes fuel done rest
      | none => do
        let (c, rest) ← escaped? rest
        linesTail? quote escapes fuel (c :: done) rest
    else
      match newline? (c :: rest) with
      | some rest => linesTail? quote escapes fuel ('\n' :: done) rest
      | none => if isPlain c then linesTail? quote escapes fuel (c :: done) rest else none

/-- A string over several lines behind its opening quotes. A line break right there is left out. -/
def lines? (quote : Char) (escapes : Bool) (cs : List Char) : Option (String × List Char) :=
  linesTail? quote escapes (cs.length + 1) [] ((newline? cs).getD cs)

/-- A string of any kind. -/
def string? : List Char → Option (String × List Char)
  | '"' :: '"' :: '"' :: rest => lines? '"' true rest
  | '\'' :: '\'' :: '\'' :: rest => lines? '\'' false rest
  | '"' :: rest => basicTail? (rest.length + 1) [] rest
  | '\'' :: rest => literalTail? rest
  | _ => none

/-! ## Keys -/

/-- Characters of a key without quotes. -/
def isBare (c : Char) : Bool := c.isAlphanum || c = '-' || c = '_'

/-- One key, with blanks around it. -/
def simpleKey? (cs : List Char) : Option (String × List Char) :=
  match skipSpaces cs with
  | '"' :: rest => (basicTail? (rest.length + 1) [] rest).map fun (k, rest) => (k, skipSpaces rest)
  | '\'' :: rest => (literalTail? rest).map fun (k, rest) => (k, skipSpaces rest)
  | cs =>
    let k := cs.takeWhile isBare
    if k = [] then none else some (String.ofList k, skipSpaces (cs.drop k.length))

/-- The number of keys that a dotted key has at most. -/
def keyLimit : Nat := 79

/-- Keys with dots between them, at most as many as the limit says. -/
def dottedKey? : (limit : Nat) → List Char → Option (List String × List Char)
  | 0, _ => none
  | limit + 1, cs => do
    let (k, rest) ← simpleKey? cs
    match rest with
    | '.' :: rest =>
      let (ks, rest) ← dottedKey? limit rest
      pure (k :: ks, rest)
    | _ => pure ([k], rest)

/-- A key with all its parts. -/
def key? (cs : List Char) : Option (List String × List Char) := dottedKey? keyLimit cs

/-! ## Numbers -/

/-- Digits that may have single underscores between them. -/
def digitRun? (digit : Char → Bool) : List Char → Option (List Char × List Char)
  | [] => none
  | c :: rest => if digit c then digitTail? digit [c] rest else none
where
  /-- The digits that follow; an underscore has to have one behind it. -/
  digitTail? (digit : Char → Bool) (done : List Char) : List Char → Option (List Char × List Char)
    | [] => some (done.reverse, [])
    | '_' :: c :: rest => if digit c then digitTail? digit (c :: done) rest else none
    | c :: rest =>
      if c = '_' then none
      else if digit c then digitTail? digit (c :: done) rest
      else some (done.reverse, c :: rest)

/-- The digits of a decimal integer: a zero, or a run that does not start with one. -/
def decimal? : List Char → Option (List Char × List Char)
  | '0' :: rest => some (['0'], rest)
  | cs => digitRun? Char.isDigit cs

/-- The value of digits. -/
def digitsValue (base : Nat) (ds : List Char) : Nat :=
  ds.foldl (fun n d => n * base + (hexValue? d).getD 0) 0

/-- Integers are below 2⁶³. -/
def integerLimit : Nat := 9223372036854775808

/-- A number behind `0x`, `0o` or `0b`, below 2⁶³. -/
def based? (base : Nat) (cs : List Char) : Option (Toml × List Char) := do
  let (ds, rest) ← digitRun? (fun c => (hexValue? c).any (· < base)) cs
  if digitsValue base ds < integerLimit then pure (number, rest) else none

/-- The sign in front of a number. -/
def sign (cs : List Char) : Bool × List Char :=
  match cs with
  | '-' :: rest => (true, rest)
  | '+' :: rest => (false, rest)
  | _ => (false, cs)

/-- The part of a float behind its point. -/
def fraction? : List Char → Option (Option (List Char × List Char))
  | '.' :: rest => some (digitRun? Char.isDigit rest)
  | _ => none

/-- The exponent of a float. -/
def exponent? : List Char → Option (Option (Int × List Char))
  | c :: rest =>
    if c = 'e' ∨ c = 'E' then
      let (negative, digits) := sign rest
      some ((digitRun? Char.isDigit digits).map fun (ds, rest) =>
        let n : Int := digitsValue 10 ds
        (if negative then -n else n, rest))
    else none
  | [] => none

/-- Whether `m · 10 ^ e` is below the least number that is rounded up to infinity. -/
def isFinite (m : Nat) (e : Int) : Bool :=
  let bound := Nat.pow 2 1024 - Nat.pow 2 970
  m = 0 ||
    if 0 ≤ e then e ≤ 400 && m * Nat.pow 10 e.toNat < bound
    else m < bound || decide (m < bound * Nat.pow 10 (min (-e).toNat (Nat.log2 m)))

/-- An integer or a float in decimal digits. A positive float has to be finite, an integer to be
below 2⁶³ or not below -2⁶³. -/
def decimalNumber? (cs : List Char) : Option (Toml × List Char) := do
  let (negative, unsigned) := sign cs
  let (whole, rest) ← decimal? unsigned
  let float := fun (frac : List Char) (e : Int) (rest : List Char) =>
    if negative || isFinite (digitsValue 10 (whole ++ frac)) (e - frac.length) then
      some (number, rest)
    else none
  match fraction? rest with
  | some none => none
  | some (some (frac, rest)) =>
    match exponent? rest with
    | some none => none
    | some (some (e, rest)) => float frac e rest
    | none => float frac 0 rest
  | none =>
    match exponent? rest with
    | some none => none
    | some (some (e, rest)) => float [] e rest
    | none =>
      let n := digitsValue 10 whole
      if n < integerLimit ∨ (negative = true ∧ n = integerLimit) then some (number, rest) else none

/-- A number of any kind. -/
def number? (cs : List Char) : Option (Toml × List Char) :=
  match cs with
  | '0' :: 'x' :: rest => based? 16 rest
  | '0' :: 'o' :: rest => based? 8 rest
  | '0' :: 'b' :: rest => based? 2 rest
  | _ =>
    match (sign cs).2 with
    | 'i' :: 'n' :: 'f' :: rest => some (number, rest)
    | 'n' :: 'a' :: 'n' :: rest => some (number, rest)
    | _ => decimalNumber? cs

/-! ## Dates and times -/

/-- A number of exactly `count` digits within bounds. -/
def fixedDigits? (count low high : Nat) (cs : List Char) : Option (Nat × List Char) :=
  let ds := (cs.take count).takeWhile Char.isDigit
  let n := digitsValue 10 ds
  if ds.length = count ∧ low ≤ n ∧ n ≤ high then some (n, cs.drop count) else none

/-- The rest behind a given character. -/
def behind? (c : Char) : List Char → Option (List Char)
  | d :: rest => if d = c then some rest else none
  | [] => none

/-- The days of a month. -/
def monthLength (year month : Nat) : Nat :=
  let leap := year % 4 = 0 ∧ (year % 100 ≠ 0 ∨ year % 400 = 0)
  if month = 2 then if leap then 29 else 28
  else if month = 4 ∨ month = 6 ∨ month = 9 ∨ month = 11 then 30
  else 31

/-- The rest behind a date. -/
def date? (cs : List Char) : Option (List Char) := do
  let (year, rest) ← fixedDigits? 4 0 9999 cs
  let rest ← behind? '-' rest
  let (month, rest) ← fixedDigits? 2 1 12 rest
  let rest ← behind? '-' rest
  let (_, rest) ← fixedDigits? 2 1 (monthLength year month) rest
  pure rest

/-- The rest behind a time of day. -/
def time? (cs : List Char) : Option (List Char) := do
  let (_, rest) ← fixedDigits? 2 0 23 cs
  let rest ← behind? ':' rest
  let (_, rest) ← fixedDigits? 2 0 59 rest
  let rest ← behind? ':' rest
  let (_, rest) ← fixedDigits? 2 0 60 rest
  match rest with
  | '.' :: c :: rest => if c.isDigit then pure (rest.dropWhile Char.isDigit) else none
  | '.' :: [] => none
  | _ => pure rest

/-- The rest behind an offset from universal time, where there is one. -/
def offset? (cs : List Char) : Option (List Char) :=
  match cs with
  | [] => some []
  | c :: rest =>
    if c = 'Z' ∨ c = 'z' then some rest
    else if c = '+' ∨ c = '-' then do
      let (_, rest) ← fixedDigits? 2 0 23 rest
      let rest ← behind? ':' rest
      let (_, rest) ← fixedDigits? 2 0 59 rest
      pure rest
    else some cs

/-- Whether a year and a hyphen stand here. -/
def startsDate (cs : List Char) : Bool :=
  ((fixedDigits? 4 0 9999 cs).bind fun (_, rest) => behind? '-' rest).isSome

/-- Whether an hour and a colon stand here. -/
def startsTime (cs : List Char) : Bool :=
  ((fixedDigits? 2 0 23 cs).bind fun (_, rest) => behind? ':' rest).isSome

/-- A date, a time, or both. -/
def moment? (cs : List Char) : Option (Toml × List Char) :=
  if startsDate cs then do
    let rest ← date? cs
    match rest with
    | c :: later =>
      if (c = 'T' ∨ c = 't' ∨ c = ' ') ∧ startsTime later then do
        let rest ← time? later
        let rest ← offset? rest
        pure (moment, rest)
      else pure (moment, rest)
    | [] => pure (moment, [])
  else (time? cs).map (moment, ·)

end StyleGuide.Toml
