import StyleGuide.Component.Entry

/-!
# The files that a compilation looks at

`Config.sources` lists the paths that are looked at when a configuration is compiled, as far as the
file system at hand shows them: the assets of a component are known once its file is.
-/

namespace StyleGuide

mutual

/-- The documents and specifications of a section and those below it. -/
def SectionDef.mentions : SectionDef → List Path × List ComponentSpec
  | ⟨_, content, spec, none⟩ => (content.toList, spec.toList)
  | ⟨_, content, spec, some sections⟩ =>
    let (contents, specs) := mentionsOf sections
    (content.toList ++ contents, spec.toList ++ specs)

/-- The documents and specifications of sections. -/
def mentionsOf : List SectionDef → List Path × List ComponentSpec
  | [] => ([], [])
  | d :: rest =>
    let (contents, specs) := d.mentions
    let (contents', specs') := mentionsOf rest
    (contents ++ contents', specs ++ specs')

end

namespace Config

/-- The files of a specification, or the directory that they are looked for in. -/
def sourcesOf (fs : FileSystem) (c : Config) (spec : ComponentSpec) : List Path :=
  let roots := match spec with
    | .listed paths => paths.map (c.resolvePath fs)
    | .pattern text => [c.resolvePath fs ⟨Utf8.encodeChars (Pattern.split text.toList).1⟩]
  let files := match resolveComponents fs { c with skipWithoutExample := false } (some spec) with
    | .ok files => files
    | .error _ => []
  roots ++ files.flatMap fun f =>
    [c.locator f none, c.locator f (some Path.designFile), c.locator f (some sliceAsset)]

/-- The paths that a compilation looks at. -/
def sources (fs : FileSystem) (c : Config) : List Path :=
  let (contents, specs) := mentionsOf (c.sections.getD [])
  c.baseDirectory fs :: c.defaultExample.toList ++ contents.map (c.resolvePath fs) ++
    (c.components.toList ++ specs).flatMap (c.sourcesOf fs)

end Config

end StyleGuide
