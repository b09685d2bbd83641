import StyleGuide.Markdown.Interrupt

/-!
# Definitions of links

A definition, `[label]: destination "title"`, stands where a paragraph could, and its parts may be
spread over lines as those of a paragraph. `definition?` gives the text behind one.
-/

namespace StyleGuide.Markdown

/-- The text behind the space in front of a part of a definition, with at most one line break, and
whether there was one. -/
def definitionSpace? (ks : List Container) (cs : List Char) : Option (Bool × List Char) :=
  let inner := cs.dropWhile isInlineBlank
  match lineEnd? inner with
  | none => some (false, inner)
  | some behind =>
    match nextLine? ks behind with
    | none => none
    | some next =>
      let next := next.dropWhile isInlineBlank
      if (lineEnd? next).isSome then none else some (true, next)

/-- The text behind a destination in angle brackets. -/
def bracketedEnd? : List Char → Option (List Char)
  | [] => none
  | c :: rest =>
    if c = '>' then some rest
    else if endsLine c ∨ c = '<' then none
    else if c = '\\' then
      match rest with
      | [] => none
      | d :: rest => if isPunctuation d then bracketedEnd? rest else bracketedEnd? (d :: rest)
    else bracketedEnd? rest

/-- The text behind a destination without brackets. Parentheses in it are balanced, at most two
deep. -/
def plainEnd? (depth : Nat) : List Char → Option (List Char)
  | [] => some []
  | c :: rest =>
    if c ≤ ' ' then some (c :: rest)
    else if c = '(' then if 1 < depth then none else plainEnd? (depth + 1) rest
    else if c = ')' then if depth = 0 then some (c :: rest) else plainEnd? (depth - 1) rest
    else if c = '\\' then
      match rest with
      | [] => some []
      | d :: rest => if isPunctuation d then plainEnd? depth rest else plainEnd? depth (d :: rest)
    else plainEnd? depth rest

/-- The text behind a destination, which is not empty. -/
def destinationEnd? (cs : List Char) : Option (List Char) :=
  match cs with
  | '<' :: rest => bracketedEnd? rest
  | _ =>
    match plainEnd? 0 cs with
    | some rest => if rest.length = cs.length then none else some rest
    | none => none

/-- The text behind a title, given what closes it. The fuel counts the characters. -/
def titleEnd? (ks : List Container) (closing : Char) : Nat → List Char → Option (List Char)
  | 0, _ => none
  | fuel + 1, cs =>
    match cs with
    | [] => none
    | c :: rest =>
      if c = closing then some rest
      else if c = '\\' ∧ (rest.head?.map isPunctuation).getD false = true then
        titleEnd? ks closing fuel rest.tail
      else if endsLine c then
        ((lineEnd? cs).bind (nextLine? ks)).bind (titleEnd? ks closing fuel)
      else titleEnd? ks closing fuel rest

/-- The text behind a title with its quotes or parentheses. -/
def title? (ks : List Container) (cs : List Char) : Option (List Char) :=
  match cs with
  | '"' :: rest => titleEnd? ks '"' cs.length rest
  | '\'' :: rest => titleEnd? ks '\'' cs.length rest
  | '(' :: rest => titleEnd? ks ')' cs.length rest
  | _ => none

/-- The text behind the definition of a link. A title that does not end its line belongs to the
definition if it stands in the line of the destination, where it spoils the definition; in a line
of its own it starts a paragraph. -/
def definition? (ks : List Container) (cs : List Char) : Option (List Char) := do
  let label ← match cs with
    | '[' :: rest => labelEnd? (nextLine? ks) (rest.length + 1) false false rest
    | _ => none
  let behindColon ← match label with
    | ':' :: rest => some rest
    | _ => none
  let (_, start) ← definitionSpace? ks behindColon
  let bare ← destinationEnd? start
  match definitionSpace? ks bare with
  | none => some bare
  | some (broken, place) =>
    if broken = false ∧ place.length = bare.length then none
    else
      match title? ks place with
      | none => if broken then some bare else none
      | some titled =>
        if (blankLine? titled).isSome then some titled
        else if broken then some bare
        else none

end StyleGuide.Markdown
