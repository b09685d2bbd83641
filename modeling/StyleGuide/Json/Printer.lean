import StyleGuide.Json.Basic

/-!
# JSON texts

The two written forms of a value: `compact`, without any blank, and `pretty`, with one item a line
and two blanks for each level. Texts are quoted alike in both: quotes, backslashes and control
characters are escaped, the rest stands as it is.
-/

namespace StyleGuide.Json

/-- The hexadecimal digit of a number below sixteen. -/
def hexDigit (n : Nat) : Char := Char.ofNat (if n < 10 then 48 + n else 87 + n)

/-- How a character is written between quotes. -/
def escape (c : Char) : List Char :=
  if c = '"' then ['\\', '"']
  else if c = '\\' then ['\\', '\\']
  else if c = '\n' then ['\\', 'n']
  else if c = '\r' then ['\\', 'r']
  else if c = '\t' then ['\\', 't']
  else if c = '\x08' then ['\\', 'b']
  else if c = '\x0c' then ['\\', 'f']
  else if c.toNat < 0x20 then
    ['\\', 'u', '0', '0', hexDigit (c.toNat / 16), hexDigit (c.toNat % 16)]
  else [c]

/-- A text between quotes. -/
def quote (s : String) : String :=
  String.ofList ('"' :: s.toList.flatMap escape ++ ['"'])

mutual

/-- The value without blanks. -/
def compact : Json → String
  | null => "null"
  | bool b => if b then "true" else "false"
  | int n => toString n
  | decimal text => text
  | string s => quote s
  | array items => "[" ++ compactItems items ++ "]"
  | object fields => "\x7b" ++ compactFields fields ++ "\x7d"

/-- Items with commas between. -/
def compactItems : List Json → String
  | [] => ""
  | [v] => compact v
  | v :: rest => compact v ++ "," ++ compactItems rest

/-- Fields with commas between. -/
def compactFields : List (String × Json) → String
  | [] => ""
  | [(k, v)] => quote k ++ ":" ++ compact v
  | (k, v) :: rest => quote k ++ ":" ++ compact v ++ "," ++ compactFields rest

end

/-- The start of a line at a level. -/
def newLine (level : Nat) : String := "\n" ++ String.ofList (List.replicate (2 * level) ' ')

mutual

/-- The value with one item a line, inside a value at `level`. -/
def prettyAt (level : Nat) : Json → String
  | array [] => "[]"
  | array items => "[" ++ prettyItems (level + 1) items ++ newLine level ++ "]"
  | object [] => "\x7b\x7d"
  | object fields => "\x7b" ++ prettyFields (level + 1) fields ++ newLine level ++ "\x7d"
  | null => "null"
  | bool b => if b then "true" else "false"
  | int n => toString n
  | decimal text => text
  | string s => quote s

/-- Items, each on a line of its own. -/
def prettyItems (level : Nat) : List Json → String
  | [] => ""
  | [v] => newLine level ++ prettyAt level v
  | v :: rest => newLine level ++ prettyAt level v ++ "," ++ prettyItems level rest

/-- Fields, each on a line of its own. -/
def prettyFields (level : Nat) : List (String × Json) → String
  | [] => ""
  | [(k, v)] => newLine level ++ quote k ++ ": " ++ prettyAt level v
  | (k, v) :: rest =>
    newLine level ++ quote k ++ ": " ++ prettyAt level v ++ "," ++ prettyFields level rest

end

/-- The value with one item a line. -/
def pretty (v : Json) : String := prettyAt 0 v

end StyleGuide.Json
