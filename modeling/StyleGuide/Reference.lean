import StyleGuide.Json.Basic
import StyleGuide.Path.Basic

/-!
# References

A compiled style guide does not hold the documents it shows. It refers to them, and a loader puts
the content in later. A reference is handed on as a *handle*, an object whose only field is
`$resource`.

## Main definitions

* `Reference`: the kind of a resource, its path and the parameters for its loader.
* `Reference.request`: the reference as one line of text.
* `Reference.handle` and `Reference.ofHandle?`: the handle of a reference, and back.
-/

namespace StyleGuide

/-- What a reference points at. -/
inductive ResourceKind where
  /-- A document with examples or design notes. -/
  | examples
  /-- The source of a component. -/
  | module
  /-- The properties that a component's source declares. -/
  | props
deriving DecidableEq, Inhabited

namespace ResourceKind

/-- The name a kind is written with. -/
def name : ResourceKind → String
  | examples => "examples"
  | module => "module"
  | props => "props"

/-- The kind with the given name. -/
def ofName? (s : String) : Option ResourceKind :=
  if s = "examples" then some examples
  else if s = "module" then some module
  else if s = "props" then some props
  else none

theorem ofName?_name (k : ResourceKind) : ofName? k.name = some k := by
  cases k <;> simp [name, ofName?]

end ResourceKind

/-- A pointer to a resource that is loaded later. -/
structure Reference where
  kind : ResourceKind
  path : Path
  /-- Parameters for the loader, in the order they were added. -/
  params : List (String × String)
deriving DecidableEq, Inhabited

/-- The ways in which the content of a handle can be malformed. -/
inductive HandleError where
  | missingKind
  | unknownKind (name : String)
  | missingPath
  | invalidParam (key : String)
deriving DecidableEq

/-- What is said about a malformed handle. -/
def HandleError.message : HandleError → String
  | missingKind => "handle is missing a kind"
  | unknownKind name => "unknown resource kind '" ++ name ++ "'"
  | missingPath => "handle is missing a path"
  | invalidParam key => "parameter '" ++ key ++ "' is not a string"

namespace Reference

/-- A reference without parameters. -/
def bare (kind : ResourceKind) (path : Path) : Reference := ⟨kind, path, []⟩

/-- The reference with one more parameter. -/
def withParam (r : Reference) (key value : String) : Reference :=
  { r with params := r.params ++ [(key, value)] }

/-- The value of the first parameter with that key. -/
def param? (r : Reference) (key : String) : Option String := r.params.lookup key

/-- Whether the reference points at the path. -/
def PointsAt (r : Reference) (p : Path) : Prop := r.path.SameAs p

instance (r : Reference) (p : Path) : Decidable (r.PointsAt p) :=
  inferInstanceAs (Decidable (r.path.SameAs p))

/-- Whether two references ask for the same: the kinds, the components of the paths and the
parameters agree. -/
def SameAs (r s : Reference) : Prop :=
  r.kind = s.kind ∧ r.path.SameAs s.path ∧ r.params = s.params

instance (r s : Reference) : Decidable (r.SameAs s) :=
  inferInstanceAs (Decidable (_ ∧ _ ∧ _))

/-- The parameters as they stand in a request, behind the given mark. -/
def requestParams (mark : String) : List (String × String) → String
  | [] => ""
  | (k, v) :: rest => mark ++ k ++ "=" ++ v ++ requestParams "&" rest

/-- The reference as a line `kind?key=value&key=value!path`. -/
def request (r : Reference) : String :=
  r.kind.name ++ requestParams "?" r.params ++ "!" ++ r.path.text

/-- The only field of a handle. -/
def handleKey : String := "$resource"

/-- The handle of a reference. -/
def handle (r : Reference) : Json :=
  .object [(handleKey, .object
    [("kind", .string r.kind.name),
     ("path", .string r.path.text),
     ("params", .ofFields (r.params.map fun (k, v) => (k, .string v)))])]

/-- The parameters that the fields of an object stand for. -/
def readParams : List (String × Json) → Except HandleError (List (String × String))
  | [] => .ok []
  | (k, .string v) :: rest => (readParams rest).map ((k, v) :: ·)
  | (k, _) :: _ => .error (.invalidParam k)

/-- The reference that the content of a handle stands for. -/
def ofBody (body : Json) : Except HandleError Reference := do
  let some kindName := (body.field? "kind").bind Json.string? | throw .missingKind
  let some kind := ResourceKind.ofName? kindName | throw (.unknownKind kindName)
  let some path := (body.field? "path").bind Json.string? | throw .missingPath
  let params ← readParams (((body.field? "params").bind Json.fields?).getD [])
  pure ⟨kind, .ofString path, params⟩

/-- The reference that a value is the handle of. A value is a handle when it is an object with
`$resource` as its only field, well-formed or not. -/
def ofHandle? : Json → Option (Except HandleError Reference)
  | .object [(key, body)] => if key = handleKey then some (ofBody body) else none
  | _ => none

end Reference

end StyleGuide
