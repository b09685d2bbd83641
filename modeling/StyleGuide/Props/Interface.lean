import StyleGuide.Props.TypeReader

/-!
# Reading interfaces

The properties of a component as its source declares them: the members of the first interface whose
name ends in `Props`, with the default values of the first destructured parameter and the comment in
front of the exported component.

## Main definitions

* `Interface.body?`: the body of the interface, up to a brace at the start of a line.
* `Interface.defaults`: the names with default values.
* `Interface.description`: the comment of the component.
* `Interface.extract`: all of it as a document.
-/

namespace StyleGuide

/-- Why no document is found. -/
inductive ExtractError where
  | noProps
  | invalidDeclaration (text : String)
deriving DecidableEq

/-- What is said when no document is found. -/
def ExtractError.message : ExtractError → String
  | noProps => "No props declaration found"
  | invalidDeclaration text => "Invalid props declaration: " ++ text

namespace Interface

/-- The first value that `f` finds at the start of the text or of one of its ends. -/
def firstMatch {α : Type} (f : List Char → Option α) : List Char → Option α
  | [] => f []
  | c :: rest => (f (c :: rest)).or (firstMatch f rest)

/-- The rest behind a word. -/
def behind? (w : String) (cs : List Char) : Option (List Char) :=
  if w.toList.isPrefixOf cs then some (cs.drop w.length) else none

/-- The rest behind blanks, of which there is at least one. -/
def behindBlanks? (cs : List Char) : Option (List Char) :=
  if cs.head?.any isBlank then some (trimLeft cs) else none

/-! ## The interface -/

/-- The rest behind `interface` and a name that ends in `Props`. -/
def behindHeader? (cs : List Char) : Option (List Char) := do
  let rest ← behindBlanks? (← behind? "interface" cs)
  let name := rest.takeWhile isWord
  if "Props".toList.isSuffixOf name then some (rest.drop name.length) else none

/-- The text before the first closing brace at the start of a line. -/
def beforeClosing? (before : Char) : List Char → Option (List Char)
  | [] => none
  | c :: rest =>
    if c = '\x7d' ∧ before = '\n' then some [] else (beforeClosing? c rest).map (c :: ·)

/-- The body of the first interface whose name ends in `Props`. -/
def body? (source : List Char) : Option (List Char) := do
  let rest ← firstMatch behindHeader? source
  match rest.dropWhile (· ≠ '\x7b') with
  | brace :: rest => beforeClosing? brace rest
  | [] => none

/-! ## Default values -/

/-- The text between the braces of a destructured parameter, read behind its parenthesis. Of a text
that is all blank only the last character counts. -/
def destructured? (cs : List Char) : Option (List Char) := do
  let rest ← behind? "\x7b" (trimLeft cs)
  let inner := rest.takeWhile (· ≠ '\x7d')
  let after ← behind? "\x7d" (rest.drop inner.length)
  let last ← inner.getLast?
  let names := if trimLeft inner = [] then [last] else trimLeft inner
  let after := trimLeft after
  let typed := do
    let rest ← behind? ":" after
    let name := (trimLeft rest).takeWhile isWord
    if name = [] then none
    else behind? ")" (trimLeft ((trimLeft rest).drop name.length))
  if typed.isSome ∨ (behind? ")" after).isSome then some names else none

/-- The name and the default value of one destructured name. -/
def default? (part : List Char) : Option (List Char × List Char) :=
  let name := trim (part.takeWhile (· ≠ '='))
  match part.dropWhile (· ≠ '=') with
  | [] => none
  | _ :: value =>
    let value := trim value
    if name = [] ∨ value = [] ∨ "...".toList.isPrefixOf name then none else some (name, value)

/-- The names with default values in the first destructured parameter. -/
def defaults (source : List Char) : List (List Char × List Char) :=
  match firstMatch (fun cs => (behind? "(" cs).bind destructured?) source with
  | none => []
  | some names => (cut (· == ',') names).filterMap default?

/-- Give the first property of that name its default value. -/
def setDefault (props : List (String × PropDescriptor)) (d : List Char × List Char) :
    List (String × PropDescriptor) :=
  match props with
  | [] => []
  | (name, prop) :: rest =>
    if name = String.ofList d.1 then
      (name, { prop with default := some ⟨String.ofList d.2, !isLiteral d.2⟩ }) :: rest
    else (name, prop) :: setDefault rest d

/-! ## The description -/

/-- The text before the first `*/`, and the text behind it. -/
def beforeEnd? : List Char → Option (List Char × List Char)
  | '*' :: '/' :: rest => some ([], rest)
  | [] => none
  | c :: rest => (beforeEnd? rest).map fun (body, rest) => (c :: body, rest)

/-- Whether an exported component follows. -/
def startsExport (cs : List Char) : Bool :=
  match (behind? "export" (trimLeft cs)).bind behindBlanks? with
  | none => false
  | some rest =>
    let rest := ((behind? "default" rest).bind behindBlanks?).getD rest
    ["function", "const", "class"].any fun w =>
      ((behind? w rest).bind behindBlanks?).isSome

/-- The text of a comment in front of an exported component; the stars at its end belong to the
mark that ends it. -/
def comment? (cs : List Char) : Option (List Char) := do
  let (body, rest) ← beforeEnd? (← behind? "/**" cs)
  if startsExport rest then some (body.reverse.dropWhile (· = '*')).reverse else none

/-- The lines of a comment without the marks in front of them, blank lines left out. -/
def commentLines (body : List Char) : List (List Char) :=
  ((cut (· == '\n') body).map fun line => trim ((trim line).dropWhile (· = '*'))).filter (· ≠ [])

/-- The comment of the exported component; empty when there is none. -/
def description (source : List Char) : List Char :=
  match firstMatch comment? source with
  | none => []
  | some body => joinWith '\n' (commentLines body)

/-! ## The document -/

/-- What the source of a component says about its properties. -/
def extract (source : String) : Except ExtractError PropsDoc :=
  let cs := source.toList
  match body? cs with
  | none => .error .noProps
  | some body =>
    match Member.readAll body with
    | .error text => .error (.invalidDeclaration (String.ofList text))
    | .ok members =>
      let props := members.map fun m => PropType.ofMember m (.read m.type)
      .ok ⟨String.ofList (description cs), (defaults cs).foldl setDefault props⟩

end Interface

end StyleGuide
