/-!
# Globs

A glob is a sequence of tokens that describes relative paths. `*` and `?` stay inside one
component; only the three forms of `**` cross a separator.

## Main definitions

* `Glob.Token`, `Glob`: the tokens, and a sequence of them.
* `Glob.Error`: why a text is no glob, with its message.
-/

namespace StyleGuide.Glob

/-- One token of a glob. -/
inductive Token where
  /-- The character itself. -/
  | literal (c : Char)
  /-- `?`: one byte of a component. -/
  | any
  /-- `*`: any run within a component. -/
  | star
  /-- `**` and the `/` behind it, at the start: no directories or any. -/
  | leadingDirs
  /-- `/**` at the end: everything below. -/
  | everythingBelow
  /-- `/**/` inside: no directories or any. -/
  | innerDirs
  /-- `[…]`: one byte of a class, or one outside of it. -/
  | oneOf (negated : Bool) (ranges : List (Char × Char))
  /-- `{…,…}`: one of several branches. -/
  | choice (branches : List (List Token))
deriving Inhabited

/-- Why a text is no glob. -/
inductive Error where
  | unclosedClass
  | invalidRange (first last : Char)
  | unclosedChoice
  | unopenedChoice
  | danglingEscape
deriving DecidableEq

/-- What is said about a text that is no glob. -/
def Error.message : Error → String
  | unclosedClass => "unclosed character class; missing ']'"
  | invalidRange first last =>
    "invalid range; '" ++ first.toString ++ "' > '" ++ last.toString ++ "'"
  | unclosedChoice =>
    "unclosed alternate group; missing '\x7d' (maybe escape '\x7b' with '[\x7b]'?)"
  | unopenedChoice =>
    "unopened alternate group; missing '\x7b' (maybe escape '\x7d' with '[\x7d]'?)"
  | danglingEscape => "dangling '\\'"

end StyleGuide.Glob

namespace StyleGuide

/-- A sequence of tokens. -/
abbrev Glob := List Glob.Token

end StyleGuide
