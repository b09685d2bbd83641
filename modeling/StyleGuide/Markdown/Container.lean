import StyleGuide.Markdown.Mark

/-!
# Blocks that hold other blocks

Quotes, lists with their items, and footnotes may be open at the end of a line. Whether one goes on
in the next line shows in the front part of that line, the outermost container first.

## Main definitions

* `goOn`: the containers that go on in a line, and the rest of the line.
* `Outline`: the open containers between two lines, with the operations that open and close them.
-/

namespace StyleGuide.Markdown

/-- A block that holds other blocks. -/
inductive Container where
  | quote
  /-- A list whose items have markers of one sign. -/
  | list (sign : Char)
  /-- An item whose lines have so many columns in front. -/
  | item (indent : Nat)
  | footnote
deriving DecidableEq

/-- The cursor behind the mark of a quote. -/
def Cursor.quoteMark? (c : Cursor) : Option Cursor :=
  (c.takeChar '>').map fun d => (d.takeSpaces 1).2

theorem Cursor.quoteMark?_suffix {c d : Cursor} (h : c.quoteMark? = some d) :
    d.rest.length < c.rest.length ∧ d.rest <:+ c.rest := by
  obtain ⟨e, he, rfl⟩ := Option.map_eq_some_iff.1 h
  have hs := takeSpaces_suffix 1 e
  exact ⟨Nat.lt_of_le_of_lt hs.length_le (takeChar_length he), hs.trans (takeChar_suffix he)⟩

/-- The cursor behind what a container has in front of a line that goes on with it. Lines that end
here always go on with items and footnotes. -/
def Container.goesOn? (k : Container) (c : Cursor) : Option Cursor :=
  let indented := fun (n : Nat) =>
    let (missing, d) := c.takeSpaces n
    if missing = 0 ∨ atLineEnd d.rest = true then some d else none
  match k with
  | .quote => (c.takeSpaces 3).2.quoteMark?
  | .list _ => some c
  | .item indent => indented indent
  | .footnote => indented 4

theorem Container.goesOn?_suffix {k : Container} {c d : Cursor} (h : k.goesOn? c = some d) :
    d.rest <:+ c.rest := by
  have indented : ∀ n : Nat, (if (c.takeSpaces n).1 = 0 ∨ atLineEnd (c.takeSpaces n).2.rest = true
      then some (c.takeSpaces n).2 else none) = some d → d.rest <:+ c.rest := by
    intro n h
    split at h
    · cases h
      exact c.takeSpaces_suffix n
    · cases h
  cases k with
  | quote => exact (Cursor.quoteMark?_suffix h).2.trans (c.takeSpaces_suffix 3)
  | list _ =>
    cases h
    exact List.suffix_rfl
  | item indent => exact indented indent h
  | footnote => exact indented 4 h

/-- Of containers, outermost first, the ones that go on at a cursor, and what is left behind their
marks. -/
def goOn : List Container → Cursor → List Container × Cursor
  | [], c => ([], c)
  | k :: inner, c =>
    match k.goesOn? c with
    | none => ([], c)
    | some d =>
      let (kept, e) := goOn inner d
      (k :: kept, e)

theorem goOn_suffix (ks : List Container) (c : Cursor) : (goOn ks c).2.rest <:+ c.rest := by
  induction ks generalizing c with
  | nil => exact List.suffix_rfl
  | cons k ks ih =>
    unfold goOn
    split
    · exact List.suffix_rfl
    next d h =>
      exact (ih d).trans (Container.goesOn?_suffix h)

/-- Whether all containers go on in a line, and the cursor behind their marks. -/
def goOnAll (ks : List Container) (cs : List Char) : Bool × Cursor :=
  let (kept, c) := goOn ks (.ofLine cs)
  (kept.length == ks.length, c)

theorem goOnAll_suffix (ks : List Container) (cs : List Char) :
    (goOnAll ks cs).2.rest <:+ cs := goOn_suffix ks (.ofLine cs)

/-- What is open between two lines. -/
structure Outline where
  /-- The open containers, innermost first. -/
  spine : List Container
  /-- Whether the line before started an item and held nothing else. -/
  emptyItem : Bool
  /-- Whether the line before was blank. -/
  lastBlank : Bool

namespace Outline

/-- Nothing is open before the first line. -/
def start : Outline := ⟨[], false, false⟩

/-- The open containers, outermost first. -/
def containers (o : Outline) : List Container := o.spine.reverse

/-- Open a container inside the others. -/
def push (k : Container) (o : Outline) : Outline := { o with spine := k :: o.spine }

/-- Close the innermost container. -/
def pop (o : Outline) : Outline :=
  match o.spine with
  | [] => o
  | .list _ :: outer => { o with spine := outer, emptyItem := false }
  | _ :: outer => { o with spine := outer }

/-- Close all but the outermost `n` containers. -/
def keep (n : Nat) (o : Outline) : Outline := (o.spine.length - n).repeat pop o

/-- An item that starts with a blank line ends behind it. -/
def closeEmptyItem (o : Outline) : Outline :=
  let o := match o.spine with
    | .item _ :: _ => if o.emptyItem ∧ o.lastBlank then o.pop else o
    | _ => o
  { o with emptyItem := false }

/-- Close a list to which no further item is added. -/
def closeList (o : Outline) : Outline :=
  let o := o.closeEmptyItem
  let o := match o.spine with
    | .list _ :: _ => o.pop
    | _ => o
  { o with lastBlank := false }

/-- Be in a list for items with markers of a sign: the open one if it has that sign, else a new
one. -/
def toList (sign : Char) (o : Outline) : Outline :=
  let o := o.closeEmptyItem
  match o.spine with
  | .list sign' :: _ =>
    if sign' = sign then { o with lastBlank := false } else o.closeList.push (.list sign)
  | _ => o.closeList.push (.list sign)

/-- What is open behind a blank line. An item that has had nothing but blank lines goes on at any
column, so that the next line decides about it. -/
def afterBlank (o : Outline) : Outline :=
  match o.spine with
  | .quote :: _ => o
  | .item _ :: outer =>
    if o.emptyItem then { o with spine := .item 0 :: outer, lastBlank := true }
    else { o with lastBlank := true }
  | _ => { o with lastBlank := true }

end Outline

end StyleGuide.Markdown
