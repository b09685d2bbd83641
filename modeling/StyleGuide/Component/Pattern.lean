import StyleGuide.Glob.Reader
import StyleGuide.Glob.Match

/-!
# Patterns

A pattern is a path whose last segments may hold wildcards. The segments before the first wildcard
name the directory to search; the rest is a glob for the paths below it.

Wildcards do not match a leading dot: a hidden name is visited only when a segment of the glob that
starts with a dot matches it.
-/

namespace StyleGuide.Pattern

/-- The characters that make a segment a wildcard. -/
def isWildcard (c : Char) : Bool := c = '*' || c = '?' || c = '[' || c = '\x7b'

/-- The directory to search, and the glob for what is below it. Without a wildcard the whole
pattern is a path. -/
def split (pattern : List Char) : List Char × Option (List Char) :=
  let plain := pattern.takeWhile (!isWildcard ·)
  if plain.length = pattern.length then (pattern, none)
  else
    let segmentStart := (plain.reverse.takeWhile (· ≠ '/')).length
    let slash := plain.length - segmentStart
    if slash = 0 then ([], some pattern)
    else (pattern.take (slash - 1), some (pattern.drop slash))

/-- The segments of a glob that start with a dot. -/
def dotSegments (glob : List Char) : List (List Char) :=
  (cut (· == '/') glob).filter fun s => s.head? == some '.'

/-- Whether a name is visited: it is not hidden, or one of the globs matches it. -/
def allows (dotted : List Glob) (name : Bytes) : Bool :=
  name.head? != some Path.dot || dotted.any (Glob.isMatch · name)

end StyleGuide.Pattern
