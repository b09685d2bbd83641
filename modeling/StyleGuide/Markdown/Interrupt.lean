import StyleGuide.Markdown.Container
import StyleGuide.Markdown.Html
import StyleGuide.Markdown.Table

/-!
# What ends a paragraph

A paragraph goes on line after line until a line is blank or starts another block (`interrupts`).
The same holds of everything that is read over several lines as a paragraph is, such as labels of
links: `nextLine?` is the place where it goes on.
-/

namespace StyleGuide.Markdown

/-- Whether nothing but two ends of lines, or the end of the document, stands here. -/
def twiceBlank (cs : List Char) : Bool :=
  match blankLine? cs with
  | none => false
  | some rest => (blankLine? rest).isSome

/-- Whether an item of a list starts here that may interrupt a paragraph. Inside the containers of
the paragraph an item has to be a bullet or the first of its list, and hold something. -/
def itemInterrupts (anyItem : Bool) (cs : List Char) : Bool :=
  match Marker.read? cs with
  | none => false
  | some (m, rest) => anyItem || ((m.isBullet || m.number == 1) && !twiceBlank rest)

/-- The text behind a label of a link or footnote, given the text behind its bracket. In a label
that may have line breaks, `next?` gives the place where the line behind a break goes on; one break
may stand between two words. -/
def labelEnd? (next? : List Char → Option (List Char)) : Nat → Bool → Bool → List Char →
    Option (List Char)
  | 0, _, _, _ => none
  | fuel + 1, broken, filled, cs =>
    match cs with
    | [] => none
    | c :: rest =>
      if c = '[' then none
      else if c = ']' then if filled then some rest else none
      else if c = '\\' ∧ (rest.head?.map isPunctuation).getD false = true then
        labelEnd? next? fuel false true rest.tail
      else if endsLine c then
        if broken then none
        else
          ((lineEnd? cs).bind next?).bind (labelEnd? next? fuel true filled)
      else if isInlineBlank c then labelEnd? next? fuel broken filled rest
      else labelEnd? next? fuel false true rest

theorem labelEnd?_suffix {next? : List Char → Option (List Char)}
    (hn : ∀ {cs rest}, next? cs = some rest → rest <:+ cs) {fuel : Nat} {broken filled : Bool}
    {cs rest : List Char} (h : labelEnd? next? fuel broken filled cs = some rest) :
    rest <:+ cs := by
  induction fuel generalizing broken filled cs with
  | zero => cases h
  | succ fuel ih =>
    unfold labelEnd? at h
    cases cs with
    | nil => cases h
    | cons c cs =>
      have here : cs <:+ c :: cs := List.suffix_cons c cs
      simp only at h
      split at h
      · cases h
      split at h
      · split at h
        · cases h
          exact here
        · cases h
      split at h
      · exact ((ih h).trans (List.tail_suffix _)).trans here
      split at h
      · split at h
        · cases h
        · obtain ⟨r, hr, h⟩ := Option.bind_eq_some_iff.1 h
          obtain ⟨s, hs, hr⟩ := Option.bind_eq_some_iff.1 hr
          exact ((ih h).trans (hn hr)).trans (lineEnd?_suffix hs)
      split at h
      · exact (ih h).trans here
      · exact (ih h).trans here

/-- The text behind the mark of a footnote, which is a label in one line. -/
def footnoteMark? (cs : List Char) : Option (List Char) :=
  match cs with
  | '[' :: '^' :: rest =>
    match labelEnd? (fun _ => none) (rest.length + 1) false false rest with
    | some (':' :: rest) => some rest
    | _ => none
  | _ => none

theorem footnoteMark?_suffix {cs rest : List Char} (h : footnoteMark? cs = some rest) :
    rest.length < cs.length ∧ rest <:+ cs := by
  unfold footnoteMark? at h
  split at h
  next tail =>
    split at h
    next r hr =>
      cases h
      have hs := labelEnd?_suffix (fun h => by cases h) hr
      have hl := hs.length_le
      simp only [List.length_cons] at hl ⊢
      refine ⟨by omega, ?_⟩
      exact ((List.suffix_cons ':' _).trans hs).trans ⟨['[', '^'], rfl⟩
    · cases h
  · cases h

/-- Whether a line starts a block other than a table. -/
def startsBlock (anyItem : Bool) (cs : List Char) : Bool :=
  atLineEnd cs || isRule cs || isHeading cs || (fence? 0 cs).isSome || cs.head? == some '>' ||
    itemInterrupts anyItem cs || startsFirmHtml cs || (footnoteMark? cs).isSome

/-- Whether a line starts a table, which it does in the middle of a paragraph only with a pipe. -/
def startsTable (ks : List Container) (cs : List Char) : Bool :=
  let line := lineText cs
  if cs.head? != some '|' || line.length == cs.length then false
  else
    let (all, c) := goOnAll ks (behindLine cs)
    all && alignedColumns? c.rest == some (titleColumns false line)

/-- Whether a line that would go on with a paragraph starts another block. `all` says whether the
containers of the paragraph go on in the line. -/
def interrupts (ks : List Container) (all : Bool) (cs : List Char) : Bool :=
  startsBlock (!all) cs || startsTable ks cs

/-- The place where a paragraph goes on in a line, behind the marks of containers and up to four
columns of space. -/
def nextLine? (ks : List Container) (cs : List Char) : Option (List Char) :=
  let (all, c) := goOnAll ks cs
  let (missing, d) := c.takeSpaces 4
  if missing ≠ 0 ∧ interrupts ks all d.rest = true then none else some d.rest

theorem nextLine?_suffix {ks : List Container} {cs rest : List Char}
    (h : nextLine? ks cs = some rest) : rest <:+ cs := by
  unfold nextLine? at h
  simp only at h
  split at h
  · cases h
  · cases h
    exact (Cursor.takeSpaces_suffix _ _).trans (goOnAll_suffix _ _)

end StyleGuide.Markdown
