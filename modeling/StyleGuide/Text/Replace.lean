/-!
# Replacing one text by another

`replaceAll old new cs` puts `new` in place of every occurrence of `old` in `cs`. Occurrences are
found from the front and do not overlap; what is put in is not searched again.
-/

namespace StyleGuide

/-- Put `new` in place of `old` wherever it occurs. An empty `old` occurs nowhere. -/
def replaceAll (old new : List Char) : List Char → List Char
  | [] => []
  | c :: rest =>
    if old ≠ [] ∧ old.isPrefixOf (c :: rest) = true then
      new ++ replaceAll old new (rest.drop (old.length - 1))
    else c :: replaceAll old new rest
termination_by cs => cs.length
decreasing_by
  all_goals simp only [List.length_cons, List.length_drop]
  all_goals omega

end StyleGuide
