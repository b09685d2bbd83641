import StyleGuide.Markdown.Line

/-!
# Marks at the start of a block

What tells, at the first character of a block that is not blank, which block it is: rules,
headings, underlines of headings, fences, and the markers of list items.
-/

namespace StyleGuide.Markdown

/-- A rule holds three or more of one of the characters `*`, `-`, `_`, and spaces. -/
def isRule (cs : List Char) : Bool :=
  match lineText cs with
  | [] => false
  | c :: rest =>
    (c == '*' || c == '-' || c == '_') && rest.all (fun d => d == c || isSpace d) &&
      2 ≤ rest.count c

/-- A heading starts with one to six hashes, and a blank or the end behind them. -/
def isHeading (cs : List Char) : Bool :=
  let hashes := (cs.takeWhile (· == '#')).length
  1 ≤ hashes && hashes ≤ 6 &&
    match cs.drop hashes with
    | [] => true
    | c :: _ => isMarkdownBlank c

/-- The text behind a line that underlines a heading. -/
def underline? (cs : List Char) : Option (List Char) :=
  match cs with
  | '=' :: rest => blankLine? (rest.dropWhile (· == '='))
  | '-' :: rest => blankLine? (rest.dropWhile (· == '-'))
  | _ => none

/-! ## Fences -/

/-- The mark around a block of fenced code. -/
structure Fence where
  /-- A backtick or a tilde. -/
  mark : Char
  /-- How often the mark stands in the opening line, three times or more. -/
  size : Nat
  /-- The columns in front of the opening line. -/
  indent : Nat

/-- The fence that opens here, and the text behind it. No backtick may follow one of backticks in
its line. -/
def fence? (indent : Nat) (cs : List Char) : Option (Fence × List Char) :=
  match cs with
  | [] => none
  | mark :: _ =>
    if mark = '\x60' ∨ mark = '~' then
      let size := (cs.takeWhile (· == mark)).length
      let rest := cs.drop size
      if size < 3 then none
      else if mark = '\x60' ∧ (rest.takeWhile (· != '\n')).contains mark then none
      else some (⟨mark, size, indent⟩, rest)
    else none

/-- The text behind a closing line of a fence, which has at most three columns in front, the mark
at least as often, and no more than spaces behind. The end of the document closes as well. -/
def Fence.closedAt? (f : Fence) (c : Cursor) : Option (List Char) :=
  let (missing, c) := c.takeSpaces (4 - f.indent)
  if missing = 0 then none
  else if c.rest.isEmpty then some []
  else if (c.rest.takeWhile (· == f.mark)).length < f.size then none
  else
    let rest := (c.rest.dropWhile (· == f.mark)).dropWhile (· == ' ')
    if atLineEnd rest then some rest else none

theorem Fence.closedAt?_suffix {f : Fence} {c : Cursor} {rest : List Char}
    (h : f.closedAt? c = some rest) : rest <:+ c.rest := by
  have hs := c.takeSpaces_suffix (4 - f.indent)
  unfold closedAt? at h
  simp only at h
  split at h
  · cases h
  · split at h
    · cases h
      exact List.nil_suffix
    · split at h
      · cases h
      · split at h
        · cases h
          exact ((List.dropWhile_suffix _).trans (List.dropWhile_suffix _)).trans hs
        · cases h

/-! ## Markers of list items -/

/-- The marker in front of a list item. -/
structure Marker where
  /-- A bullet, or what stands behind the number. Items of one list have the same sign. -/
  sign : Char
  number : Nat
  /-- How many characters it has. -/
  width : Nat

namespace Marker

/-- Whether a marker is a bullet. -/
def isBullet (m : Marker) : Bool := m.sign == '-' || m.sign == '+' || m.sign == '*'

/-- The marker that stands here, and the text behind it, which starts with space or is at the end
of the line. A number has at most nine digits. -/
def read? (cs : List Char) : Option (Marker × List Char) :=
  let behind := fun (m : Marker) (rest : List Char) =>
    match rest with
    | [] => some (m, rest)
    | c :: _ => if isSpace c ∨ endsLine c then some (m, rest) else none
  match cs with
  | [] => none
  | c :: rest =>
    if c = '-' ∨ c = '+' ∨ c = '*' then behind ⟨c, 0, 1⟩ rest
    else
      let digits := cs.takeWhile Char.isDigit
      let number := digits.foldl (fun n d => n * 10 + (d.toNat - '0'.toNat)) 0
      match cs.drop digits.length with
      | [] => none
      | sign :: rest =>
        if digits.isEmpty ∨ 9 < digits.length then none
        else if sign = '.' ∨ sign = ')' then behind ⟨sign, number, digits.length + 1⟩ rest
        else none

theorem read?_suffix {cs rest : List Char} {m : Marker} (h : read? cs = some (m, rest)) :
    rest.length < cs.length ∧ rest <:+ cs := by
  have behind : ∀ {n : Marker} {r : List Char}, (match r with
      | [] => some (n, r)
      | c :: _ => if isSpace c ∨ endsLine c then some (n, r) else none) = some (m, rest) →
        rest = r := by
    intro n r h
    split at h
    · cases h
      rfl
    · split at h
      · cases h
        rfl
      · cases h
  unfold read? at h
  simp only at h
  split at h
  · cases h
  next c tail =>
    split at h
    · rw [behind h]
      exact ⟨Nat.lt_succ_self _, List.suffix_cons c tail⟩
    · split at h
      · cases h
      next sign tail' hd =>
        have hs : sign :: tail' <:+ c :: tail := hd ▸ List.drop_suffix _ _
        split at h
        · cases h
        · split at h
          · rw [behind h]
            exact ⟨Nat.lt_of_succ_le hs.length_le, (List.suffix_cons sign tail').trans hs⟩
          · cases h

end Marker

/-- A marker that stands at a cursor and is no rule, with the columns that its item needs from the
start of the marker on. The text of the item starts at most four columns behind the marker; where
it seems to start later, or nothing follows, one column belongs to the marker. -/
def Cursor.marker? (c : Cursor) : Option (Marker × Nat × Cursor) :=
  if isRule c.rest then none
  else
    match Marker.read? c.rest with
    | none => none
    | some (m, rest) =>
      let (_, after) := takeSpaces 1 ⟨rest, c.column + m.width, 0⟩
      if (blankLine? after.rest).isSome then some (m, m.width + 1, after)
      else
        let (more, inner) := after.indentUpTo 4
        if more < 4 then some (m, m.width + 1 + more, inner) else some (m, m.width + 1, after)

theorem Cursor.marker?_suffix {c d : Cursor} {m : Marker} {n : Nat}
    (h : c.marker? = some (m, n, d)) : d.rest.length < c.rest.length ∧ d.rest <:+ c.rest := by
  unfold marker? at h
  split at h
  · cases h
  · split at h
    · cases h
    next m' rest hr =>
      obtain ⟨hl, hs⟩ := Marker.read?_suffix hr
      have h₁ := takeSpaces_suffix 1 ⟨rest, c.column + m'.width, 0⟩
      simp only at h h₁
      split at h
      · cases h
        exact ⟨Nat.lt_of_le_of_lt h₁.length_le hl, h₁.trans hs⟩
      · split at h
        · cases h
          have h₂ := ((takeSpaces_suffix 4 _).trans h₁)
          exact ⟨Nat.lt_of_le_of_lt h₂.length_le hl, h₂.trans hs⟩
        · cases h
          exact ⟨Nat.lt_of_le_of_lt h₁.length_le hl, h₁.trans hs⟩

/-- The text behind a box `[ ]` or `[x]` of a task, which has a blank behind it. -/
def Cursor.taskBox? (c : Cursor) : Option Cursor :=
  let (_, d) := c.takeSpaces 3
  match d.rest with
  | '[' :: x :: ']' :: b :: rest =>
    if (isInlineBlank x ∨ x = 'x' ∨ x = 'X') ∧ isInlineBlank b then
      some ⟨b :: rest, d.column + 3, d.pending⟩
    else none
  | _ => none

theorem Cursor.taskBox?_suffix {c d : Cursor} (h : c.taskBox? = some d) : d.rest <:+ c.rest := by
  have hs := c.takeSpaces_suffix 3
  unfold taskBox? at h
  simp only at h
  split at h
  next x b rest hr =>
    split at h
    · cases h
      rw [hr] at hs
      exact List.IsSuffix.trans ⟨['[', x, ']'], rfl⟩ hs
    · cases h
  · cases h

end StyleGuide.Markdown
