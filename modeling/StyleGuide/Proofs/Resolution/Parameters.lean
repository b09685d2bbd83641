import Mathlib.Tactic.Common
import StyleGuide.Proofs.Resolution

/-!
# Parameters that are given more than once

A reference keeps every value that was given to a parameter, and a loader that asks for the
parameter gets the first of them. The object that a handle holds them in keeps only the last one. So
what a handle resolves to is what its reference is loaded as where no parameter has a first value
other than the last.

## Main definitions

* `Reference.settled`: the reference with the last value of each parameter.

## Main results

* `Reference.ofHandle?_handle_settled`: what is read back from the handle of any reference.
* `Registry.resolve_handle_settled`: what the handle of any reference resolves to.
-/

namespace StyleGuide

namespace Reference

/-- The reference with the last value of each parameter. -/
def settled (r : Reference) : Reference := { r with params := lastValues r.params }

variable {r : Reference} {key : String}

/-- The first value that was given to the parameter is the last one. -/
def IsSettled (r : Reference) (key : String) : Prop := r.param? key = r.params.reverse.lookup key

lemma param?_settled (r : Reference) (key : String) :
    r.settled.param? key = r.params.reverse.lookup key := lookup_lastValues

lemma IsSettled.param? (h : r.IsSettled key) : r.settled.param? key = r.param? key := by
  rw [param?_settled, h]

/-- Where no parameter is given twice, there is nothing to choose. -/
theorem settled_of_nodup (h : (r.params.map Prod.fst).Nodup) : r.settled = r := by
  rw [settled, lastValues_eq_self_iff.2 h]

/-- The handle of a reference is read back with the last value of each parameter. -/
theorem ofHandle?_handle_settled (hpath : r.path.IsText) :
    ofHandle? r.handle = some (.ok r.settled) := by
  rw [ofHandle?_handle_eq, Path.ofString_text hpath]
  rfl

end Reference

/-! ## Loaders -/

namespace Registry

variable {x : PropsExtractor} {fs : FileSystem} {r : Reference}

/-- The parameters that a loader asks for. -/
def askedFor : ResourceKind → List String
  | .examples => ["imagePath", "componentName"]
  | .module | .props => []

/-- A loader asks for nothing else, so what it gives is the same where these parameters are. -/
lemma exists_load_settled (h : ∀ key ∈ askedFor r.kind, r.IsSettled key) :
    ∃ v : Except LoadError Json, (standard x).load fs r = v.mapError (.load r.request) ∧
      (standard x).load fs r.settled = v.mapError (.load r.settled.request) := by
  obtain ⟨kind, path, params⟩ := r
  cases kind with
  | examples =>
    have himage := (h "imagePath" (by simp [askedFor])).param?
    have hname := (h "componentName" (by simp [askedFor])).param?
    have hsettled : Loader.examples fs (Reference.settled ⟨.examples, path, params⟩) =
        Loader.examples fs ⟨.examples, path, params⟩ := by
      rw [Loader.examples, Loader.examples, himage, hname]
      rfl
    refine ⟨Loader.examples fs ⟨.examples, path, params⟩, rfl, ?_⟩
    rw [← hsettled]
    rfl
  | module => exact ⟨Loader.module fs ⟨.module, path, params⟩, rfl, rfl⟩
  | props => exact ⟨Loader.props x fs ⟨.props, path, params⟩, rfl, rfl⟩

/-- The handle of a reference resolves to what the reference is loaded as with the last value of
each parameter. That is what the reference itself is loaded as, where no parameter is given twice.
The standard loaders ask for two parameters at most: where the first value of these is the last one,
they give the same, or fail for the same cause, and the failure can differ in the request alone. -/
theorem resolve_handle_settled (x : PropsExtractor) (fs : FileSystem) {r : Reference}
    (hpath : r.path.IsText) :
    (∀ g : Registry, g.resolve fs r.handle = g.load fs r.settled) ∧
    (∀ key, r.settled.param? key = r.params.reverse.lookup key) ∧
    ((r.params.map Prod.fst).Nodup → ∀ g : Registry, g.resolve fs r.handle = g.load fs r) ∧
    ((∀ key ∈ askedFor r.kind, r.IsSettled key) →
      ∃ v : Except LoadError Json, (standard x).load fs r = v.mapError (.load r.request) ∧
        (standard x).resolve fs r.handle = v.mapError (.load r.settled.request)) := by
  have hresolve : ∀ g : Registry, g.resolve fs r.handle = g.load fs r.settled := fun g =>
    resolve_handle (Reference.ofHandle?_handle_settled hpath)
  refine ⟨hresolve, Reference.param?_settled r, fun hnodup g => ?_, fun hasked => ?_⟩
  · rw [hresolve, Reference.settled_of_nodup hnodup]
  · rw [hresolve]
    exact exists_load_settled hasked

/-- A document that shows an image. -/
def imageFile : FileSystem where
  entries := [([Utf8.encode "a.md"], .file (Utf8.encode "__IMAGE_PATH__"))]
  current := []

/-- The document, with a parameter that is given twice beside the path of images. -/
def imageReference (key : String) : Reference :=
  (((Reference.bare .examples (.ofString "/a.md")).withParam "imagePath" "first").withParam
    key "next").withParam key "last"

lemma isText_imageReference (key : String) : (imageReference key).path.IsText := ⟨"/a.md", rfl⟩

/-- The parts of the document that shows the image of that name. -/
def imageParts (name : String) : Json :=
  .array [.object [("type", .string "markdown"), ("content", .string name)]]

/-- The document is loaded as the parts it has with the parameters filled in. -/
lemma load_imageFile {params : List (String × String)} {name : String}
    (h : Examples.chunks "__IMAGE_PATH__"
      ⟨params.lookup "imagePath", params.lookup "componentName"⟩ = [.markdown name.toList]) :
    (standard x).load imageFile ⟨.examples, .ofString "/a.md", params⟩ =
      .ok (imageParts name) := by
  have htext : imageFile.readText (.ofString "/a.md") = .ok "__IMAGE_PATH__" := by decide +kernel
  simp [load, standard, register, Loader.examples, Loader.source, Reference.param?, htext, h,
    Except.mapError, bind, Except.bind, pure, Except.pure, Examples.Chunk.toJson, imageParts]

/-- Where no loader asks for the repeated parameter, the handle resolves to what is loaded. -/
theorem resolve_handle_theme :
    (∀ key ∈ askedFor .examples, (imageReference "theme").IsSettled key) ∧
    (standard .interface).load imageFile (imageReference "theme") = .ok (imageParts "first") ∧
    (standard .interface).resolve imageFile (imageReference "theme").handle =
      .ok (imageParts "first") := by
  have hsettled : ∀ key ∈ askedFor .examples, (imageReference "theme").IsSettled key := by
    simp only [askedFor, List.forall_mem_cons]
    exact ⟨rfl, rfl, by simp⟩
  have hload : (standard .interface).load imageFile (imageReference "theme") =
      .ok (imageParts "first") := load_imageFile (by decide +kernel)
  obtain ⟨v, hv, hresolve⟩ := (resolve_handle_settled .interface imageFile
    (isText_imageReference "theme")).2.2.2 hsettled
  rw [hload] at hv
  rw [mapError_eq_ok_iff.1 hv.symm] at hresolve
  exact ⟨hsettled, hload, hresolve⟩

/-- Where the path of images is itself repeated, the reference is loaded with the first path, and
its handle is resolved with the last one. -/
theorem resolve_handle_imagePath :
    (imageReference "imagePath").path.IsText ∧
    (standard .interface).load imageFile (imageReference "imagePath") = .ok (imageParts "first") ∧
    (standard .interface).resolve imageFile (imageReference "imagePath").handle =
      .ok (imageParts "last") := by
  refine ⟨isText_imageReference _, load_imageFile (by decide +kernel), ?_⟩
  rw [resolve_handle (Reference.ofHandle?_handle_settled (isText_imageReference _))]
  exact load_imageFile (by decide +kernel)

end Registry

end StyleGuide
