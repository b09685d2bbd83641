/-!
# Lines and the blank space in front of them

A line of a document ends at a line feed, at a carriage return, or at both. A `Cursor` stands in
the front part of a line, where the marks of containers are. Space counts in columns there: a tab
reaches to the next multiple of four, and part of a tab may be used up while the rest is pending.

Places in a document are given by the text from there on, so a place that lies behind another one
is a suffix of it (`Cursor.takeSpaces_suffix`, `behindLine_suffix`).
-/

namespace StyleGuide.Markdown

/-- Whether a character is blank and does not end a line. -/
def isInlineBlank (c : Char) : Bool := c == ' ' || c == '\t' || c == '\x0b' || c == '\x0c'

/-- Whether a character ends a line. -/
def endsLine (c : Char) : Bool := c == '\n' || c == '\r'

/-- Whether a character is a space or a tab. -/
def isSpace (c : Char) : Bool := c == ' ' || c == '\t'

/-- Whether a character is blank in the sense of a document: ASCII only. -/
def isMarkdownBlank (c : Char) : Bool := isInlineBlank c || endsLine c

/-- Whether a character is punctuation of ASCII, which a backslash makes literal. -/
def isPunctuation (c : Char) : Bool := '!' ≤ c && c ≤ '~' && !c.isAlphanum

/-- The text behind the end of a line, if a line ends here. -/
def lineEnd? : List Char → Option (List Char)
  | [] => some []
  | '\r' :: '\n' :: rest => some rest
  | c :: rest => if endsLine c then some rest else none

/-- The text behind a line of which only blank characters are left. -/
def blankLine? (cs : List Char) : Option (List Char) := lineEnd? (cs.dropWhile isInlineBlank)

/-- Whether a line ends here. -/
def atLineEnd : List Char → Bool
  | [] => true
  | c :: _ => endsLine c

/-- What is left of a line. -/
def lineText (cs : List Char) : List Char := cs.takeWhile (!endsLine ·)

/-- The text behind a line. -/
def behindLine (cs : List Char) : List Char :=
  match cs.dropWhile (!endsLine ·) with
  | [] => []
  | '\r' :: '\n' :: rest => rest
  | _ :: rest => rest

/-- The text behind the next line feed. Code is cut into lines there alone. -/
def behindLineFeed (cs : List Char) : List Char := (cs.dropWhile (· != '\n')).drop 1

theorem lineEnd?_suffix {cs rest : List Char} (h : lineEnd? cs = some rest) : rest <:+ cs := by
  unfold lineEnd? at h
  split at h
  · cases h
    exact List.suffix_rfl
  · cases h
    exact ⟨['\r', '\n'], rfl⟩
  · split at h
    · cases h
      exact List.suffix_cons _ _
    · cases h

theorem blankLine?_suffix {cs rest : List Char} (h : blankLine? cs = some rest) : rest <:+ cs :=
  (lineEnd?_suffix h).trans (List.dropWhile_suffix _)

theorem behindLine_suffix (cs : List Char) : behindLine cs <:+ cs := by
  have h := List.dropWhile_suffix (l := cs) (!endsLine ·)
  unfold behindLine
  split
  · exact List.nil_suffix
  next rest hr =>
    rw [hr] at h
    exact List.IsSuffix.trans ⟨['\r', '\n'], rfl⟩ h
  next c rest _ hr =>
    rw [hr] at h
    exact (List.suffix_cons c rest).trans h

theorem behindLineFeed_suffix (cs : List Char) : behindLineFeed cs <:+ cs :=
  (List.drop_suffix _ _).trans (List.dropWhile_suffix _)

theorem behindLine_length {cs : List Char} (h : cs ≠ []) : (behindLine cs).length < cs.length := by
  have hs := (List.dropWhile_suffix (l := cs) (!endsLine ·)).length_le
  unfold behindLine
  split
  · exact List.length_pos_iff.2 h
  next rest hr =>
    rw [hr] at hs
    simp only [List.length_cons] at hs
    omega
  next c rest _ hr =>
    rw [hr] at hs
    simp only [List.length_cons] at hs
    omega

theorem behindLineFeed_length {cs : List Char} (h : cs ≠ []) :
    (behindLineFeed cs).length < cs.length := by
  have hs := (List.dropWhile_suffix (l := cs) (· != '\n')).length_le
  have hp := List.length_pos_iff.2 h
  unfold behindLineFeed
  rw [List.length_drop]
  omega

/-- A place in the front part of a line. -/
structure Cursor where
  /-- The text from here on. -/
  rest : List Char
  /-- The columns since the last tab. -/
  column : Nat
  /-- The columns of the last tab that are not used up. -/
  pending : Nat

namespace Cursor

/-- The start of a line. -/
def ofLine (cs : List Char) : Cursor := ⟨cs, 0, 0⟩

/-- Use up to `n` columns of space, and say how many are missing. -/
def spaces (n column : Nat) : List Char → Nat × Cursor
  | [] => (n, ⟨[], column, 0⟩)
  | c :: rest =>
    if n = 0 then (0, ⟨c :: rest, column, 0⟩)
    else if c = ' ' then spaces (n - 1) (column + 1) rest
    else if c = '\t' then
      let width := 4 - column % 4
      if width ≤ n then spaces (n - width) 0 rest else (0, ⟨rest, 0, width - n⟩)
    else (n, ⟨c :: rest, column, 0⟩)

/-- Use up to `n` columns of space, pending ones first, and say how many are missing. -/
def takeSpaces (n : Nat) (c : Cursor) : Nat × Cursor :=
  if n ≤ c.pending then (0, { c with pending := c.pending - n })
  else spaces (n - c.pending) c.column c.rest

/-- Use up to `n` columns of space, and say how many were used. -/
def indentUpTo (n : Nat) (c : Cursor) : Nat × Cursor :=
  let (missing, c) := c.takeSpaces n
  (n - missing, c)

/-- Step over a character that is no space. -/
def takeChar (x : Char) (c : Cursor) : Option Cursor :=
  match c.rest with
  | [] => none
  | y :: rest => if y = x then some { c with rest, column := c.column + 1 } else none

theorem spaces_suffix (n column : Nat) (cs : List Char) : (spaces n column cs).2.rest <:+ cs := by
  induction cs generalizing n column with
  | nil => exact List.suffix_rfl
  | cons c cs ih =>
    unfold spaces
    split
    · exact List.suffix_rfl
    · split
      · exact (ih _ _).trans (List.suffix_cons _ _)
      · split
        · simp only
          split
          · exact (ih _ _).trans (List.suffix_cons _ _)
          · exact List.suffix_cons _ _
        · exact List.suffix_rfl

theorem takeSpaces_suffix (n : Nat) (c : Cursor) : (c.takeSpaces n).2.rest <:+ c.rest := by
  unfold takeSpaces
  split
  · exact List.suffix_rfl
  · exact spaces_suffix _ _ _

theorem takeChar_length {x : Char} {c d : Cursor} (h : c.takeChar x = some d) :
    d.rest.length < c.rest.length := by
  unfold takeChar at h
  split at h
  · cases h
  · split at h
    · cases h
      simp_all
    · cases h

theorem takeChar_suffix {x : Char} {c d : Cursor} (h : c.takeChar x = some d) :
    d.rest <:+ c.rest := by
  unfold takeChar at h
  split at h
  · cases h
  next y rest hr =>
    split at h
    · cases h
      exact hr ▸ List.suffix_cons y rest
    · cases h

end Cursor

end StyleGuide.Markdown
