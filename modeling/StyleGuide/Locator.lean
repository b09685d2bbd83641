import StyleGuide.Path.Basic

/-!
# Asset locations

Where the files that belong to a component are expected. A locator only computes paths; whether
the file is there is asked elsewhere.
-/

namespace StyleGuide

/-- A rule that maps a component file to one of its assets, or to its examples document when no
asset is named. -/
abbrev Locator := Path → Option String → Path

namespace Locator

/-- The name of the examples document unless a configuration says otherwise. -/
def defaultExamplesFile : String := "examples.md"

/-- Assets stand beside the component, in its directory. -/
def sibling (examplesFile : String) : Locator := fun component suffix =>
  (component.parent?.getD ⟨[]⟩).join (.ofString (suffix.getD examplesFile))

end Locator

end StyleGuide
