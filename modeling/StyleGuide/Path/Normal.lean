import StyleGuide.Path.Basic

/-!
# Normal paths

Lexical work on paths: nothing here looks at a file system. A normal path has no `.`, and `..` only
at the start of a relative path; above the root there is only the root.

## Main definitions

* `Path.normalize`: the normal form of a path.
* `Path.absolutize`: the normal form of a path seen from a base directory.
* `Path.relativeTo`: the way from a base directory to a path.
-/

namespace StyleGuide.Path

/-- Read one more component onto a normal path, whose last component comes first. -/
def foldComponent (above : List Component) : Component → List Component
  | .current => above
  | .parent =>
    match above with
    | .name _ :: rest => rest
    | .root :: _ => above
    | _ => .parent :: above
  | c => c :: above

/-- The components of the normal form. -/
def normalComponents (cs : List Component) : List Component :=
  (cs.foldl foldComponent []).reverse

/-- The normal form of a path. -/
def normalize (p : Path) : Path := ofComponents (normalComponents p.components)

/-- The normal form of `p` seen from `base`. -/
def absolutize (base p : Path) : Path :=
  if p.isAbsolute then normalize p else normalize (base.join p)

/-- What is left of two lists behind their longest common start. -/
def dropCommon : List Component → List Component → List Component × List Component
  | a :: as, b :: bs => if a = b then dropCommon as bs else (a :: as, b :: bs)
  | as, bs => (as, bs)

/-- The way from `base` to `p`: up from what only `base` has, then down what only `p` has. -/
def relativeTo (p base : Path) : Path :=
  let (down, up) := dropCommon p.normalize.components base.normalize.components
  ofComponents (up.map (fun _ => .parent) ++ down)

end StyleGuide.Path
