import StyleGuide.Loader

/-!
# Putting in what references stand for

`Registry.resolve` replaces every handle inside a value by what its reference stands for. What is
put in is not searched for handles again. The first handle, in the order in which the value is
written, that has no value makes the whole resolution fail.
-/

namespace StyleGuide.Registry

mutual

/-- The value with everything put in that its handles stand for. -/
def resolve (g : Registry) (fs : FileSystem) : Json → Except ResolveError Json
  | .array items => (resolveItems g fs items).map .array
  | .object fields =>
    match Reference.ofHandle? (.object fields) with
    | some (.ok r) => g.load fs r
    | some (.error e) => .error (.handle e)
    | none => (resolveFields g fs fields).map .object
  | scalar => .ok scalar

/-- The items with everything put in, in order. -/
def resolveItems (g : Registry) (fs : FileSystem) : List Json → Except ResolveError (List Json)
  | [] => .ok []
  | v :: rest => do
    let v ← resolve g fs v
    let rest ← resolveItems g fs rest
    pure (v :: rest)

/-- The fields with everything put in, in order. -/
def resolveFields (g : Registry) (fs : FileSystem) :
    List (String × Json) → Except ResolveError (List (String × Json))
  | [] => .ok []
  | (k, v) :: rest => do
    let v ← resolve g fs v
    let rest ← resolveFields g fs rest
    pure ((k, v) :: rest)

end

end StyleGuide.Registry
