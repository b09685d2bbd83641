import StyleGuide.Text.Blank

/-!
# Info strings of examples

The first word of an info string names a language, and the words behind it may say that the code is
only to be shown. Code in a language of the playground that is not only to be shown is run there.
-/

namespace StyleGuide.Examples

/-- The language of a block of code. -/
inductive Language where
  | tsx
  | jsx
  | typeScript
  | javaScript
  | html
  | css
  | json
  | bash
  /-- No language is named. -/
  | unspecified
  /-- A language is named, but not one of those above. -/
  | other
deriving DecidableEq, Repr

namespace Language

/-- The names of languages, in small letters. -/
def names : List (String × Language) := [
  ("tsx", tsx), ("jsx", jsx), ("ts", typeScript), ("typescript", typeScript), ("js", javaScript),
  ("javascript", javaScript), ("html", html), ("css", css), ("json", json), ("bash", bash),
  ("sh", bash), ("shell", bash)]

/-- The language that an info string names, in letters of any case. Only letters of ASCII occur in
names, and no other character has one of those in `names` as its small letter. -/
def ofInfo (info : List Char) : Language :=
  match words info with
  | [] => unspecified
  | word :: _ => (names.lookup (String.ofList (word.map Char.toLower))).getD other

/-- Whether code in this language can be run in the playground. -/
def isPlayground : Language → Bool
  | tsx | jsx | typeScript | javaScript | unspecified => true
  | html | css | json | bash | other => false

end Language

/-- What is done with a block of code. -/
inductive Mode where
  /-- It is run, and shown beside what it renders. -/
  | playground
  /-- It is only shown. -/
  | static
deriving DecidableEq, Repr

/-- What an info string asks for: a word `static` behind the language says that the code is only
shown. -/
def Mode.ofInfo (info : List Char) : Mode :=
  if (words info).tail.any fun word => word.map Char.toLower == "static".toList then .static
  else .playground

/-- Whether the code of a block with this info string is run in the playground. -/
def isPlaygroundInfo (info : List Char) : Bool :=
  (Language.ofInfo info).isPlayground && Mode.ofInfo info == .playground

end StyleGuide.Examples
