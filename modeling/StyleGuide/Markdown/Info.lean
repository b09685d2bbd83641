import StyleGuide.Json.Reader
import StyleGuide.Markdown.Line

/-!
# Info strings

The text behind an opening fence. A backslash makes punctuation literal, and character references
stand for the characters that they name.

Of the names of characters only those of blank ones are known, since only they can change where the
words of an info string end or which words they are; other names stand for themselves.
-/

namespace StyleGuide.Markdown

/-- The blank characters that have names. -/
def blankNames : List (String × List Char) := [
  ("Tab", ['\t']), ("NewLine", ['\n']), ("nbsp", ['\u00a0']), ("NonBreakingSpace", ['\u00a0']),
  ("ensp", ['\u2002']), ("emsp", ['\u2003']), ("emsp13", ['\u2004']), ("emsp14", ['\u2005']),
  ("numsp", ['\u2007']), ("puncsp", ['\u2008']), ("thinsp", ['\u2009']), ("ThinSpace", ['\u2009']),
  ("hairsp", ['\u200a']), ("VeryThinSpace", ['\u200a']), ("MediumSpace", ['\u205f']),
  ("ThickSpace", ['\u205f', '\u200a'])]

/-- The character of a code point; the replacement character for zero. -/
def ofCodePoint? (n : Nat) : Option Char :=
  if n = 0 then some '\ufffd' else if n.isValidChar then some (.ofNat n) else none

/-- The number that digits of a base stand for. -/
def ofDigits (base : Nat) (digits : List Char) : Nat :=
  digits.foldl (fun n c => n * base + (Json.hexValue? c).getD 0) 0

/-- The character whose number stands here in up to `most` digits, and the text behind it. -/
def numericReference? (base most : Nat) (isDigit : Char → Bool) (cs : List Char) :
    Option (List Char × List Char) :=
  let digits := cs.takeWhile isDigit
  match cs.drop digits.length with
  | ';' :: rest =>
    if digits.isEmpty ∨ most < digits.length then none
    else (ofCodePoint? (ofDigits base digits)).map fun c => ([c], rest)
  | _ => none

theorem numericReference?_length {base most : Nat} {isDigit : Char → Bool}
    {cs text rest : List Char} (h : numericReference? base most isDigit cs = some (text, rest)) :
    rest.length < cs.length := by
  unfold numericReference? at h
  simp only at h
  split at h
  next rest' hd =>
    have hs := (List.drop_suffix (cs.takeWhile isDigit).length cs).length_le
    rw [hd] at hs
    split at h
    · cases h
    · obtain ⟨_, _, hc⟩ := Option.map_eq_some_iff.1 h
      cases hc
      exact Nat.lt_of_succ_le hs
  · cases h

/-- The characters that a reference stands for, given the text behind its ampersand, and the text
behind it. A decimal number has at most seven digits, a hexadecimal one at most six. -/
def characterReference? (cs : List Char) : Option (List Char × List Char) :=
  match cs with
  | '#' :: x :: rest =>
    if x = 'x' ∨ x = 'X' then numericReference? 16 6 (fun c => (Json.hexValue? c).isSome) rest
    else numericReference? 10 7 Char.isDigit (x :: rest)
  | _ =>
    let name := cs.takeWhile Char.isAlphanum
    match cs.drop name.length with
    | ';' :: rest => (blankNames.lookup (String.ofList name)).map fun text => (text, rest)
    | _ => none

theorem characterReference?_length {cs text rest : List Char}
    (h : characterReference? cs = some (text, rest)) : rest.length < cs.length := by
  unfold characterReference? at h
  split at h
  · split at h
    all_goals
      have := numericReference?_length h
      simp only [List.length_cons] at this ⊢
      omega
  · simp only at h
    split at h
    next rest' hd =>
      have hs := (List.drop_suffix (cs.takeWhile Char.isAlphanum).length cs).length_le
      rw [hd] at hs
      obtain ⟨_, _, hc⟩ := Option.map_eq_some_iff.1 h
      cases hc
      exact Nat.lt_of_succ_le hs
    · cases h

/-- The text that a written info string stands for. Carriage returns are dropped. -/
def unescape : List Char → List Char
  | [] => []
  | c :: rest =>
    if c = '\\' then
      match rest with
      | [] => [c]
      | d :: rest => if isPunctuation d then d :: unescape rest else c :: unescape (d :: rest)
    else if c = '&' then
      match _h : characterReference? rest with
      | some (text, behind) =>
        have := characterReference?_length _h
        text ++ unescape behind
      | none => c :: unescape rest
    else if c = '\r' then unescape rest
    else c :: unescape rest
termination_by cs => cs.length
decreasing_by all_goals simp only [List.length_cons]; omega

/-- The info string of a line, without the blank characters around it. -/
def infoString (line : List Char) : List Char :=
  unescape ((line.dropWhile isInlineBlank).reverse.dropWhile isMarkdownBlank).reverse

end StyleGuide.Markdown
