import StyleGuide.Proofs.Json.Merge
import StyleGuide.Proofs.Path.Text
import StyleGuide.Reference

/-!
# Reading handles back

A handle keeps the reference whole when the path is a text and no parameter is given twice.

## Main definitions

* `Reference.IsWritable`: the references that a handle keeps.

## Main results

* `Reference.ofHandle?_handle_eq`: what is read back from the handle of any reference.
* `Reference.ofHandle?_handle`: the handle of such a reference is read back as the reference.
* `Reference.ofHandle?_eq_none_iff`: what is no handle.
* `Reference.ofHandle?_object`: an object with more fields than one, or none, is no handle.
-/

namespace StyleGuide

namespace Reference

/-- The references that a handle keeps whole. -/
structure IsWritable (r : Reference) : Prop where
  path : r.path.IsText
  params : (r.params.map Prod.fst).Nodup

lemma IsWritable.bare (kind : ResourceKind) (path : String) :
    (Reference.bare kind (.ofString path)).IsWritable := ⟨⟨path, rfl⟩, List.nodup_nil⟩

lemma readParams_map (params : List (String × String)) :
    readParams (params.map fun (k, v) => (k, .string v)) = .ok params := by
  induction params with
  | nil => rfl
  | cons p params ih =>
    rw [List.map_cons, readParams, ih]
    rfl

/-- What has no kind is no reference. -/
lemma ofBody_of_missingKind {body : Json} (h : (body.field? "kind").bind Json.string? = none) :
    ofBody body = .error .missingKind := by
  rw [ofBody, h]
  rfl

/-- The content of a handle keeps the kind and the text of the path. -/
lemma ofBody_eq {r : Reference} {params : List (String × String)}
    (h : readParams (Json.mergeFields (r.params.map fun (k, v) => (k, .string v))) = .ok params) :
    ofBody (.object
      [("kind", .string r.kind.name), ("path", .string r.path.text),
        ("params", .ofFields (r.params.map fun (k, v) => (k, .string v)))]) =
      .ok ⟨r.kind, .ofString r.path.text, params⟩ := by
  simp only [ofBody, Json.field?, List.lookup_cons, Json.ofFields]
  simp only [BEq.rfl, String.reduceBEq, Option.bind_some, Option.getD_some, bind_pure_comp,
    ResourceKind.ofName?_name, Json.string?, Json.fields?, h]
  rfl

/-- The handle of any reference is read back with the text of the path and the last value of each
parameter. -/
theorem ofHandle?_handle_eq (r : Reference) :
    ofHandle? r.handle = some (.ok ⟨r.kind, .ofString r.path.text, lastValues r.params⟩) := by
  have hparams : readParams (Json.mergeFields (r.params.map fun (k, v) => (k, .string v))) =
      .ok (lastValues r.params) := by
    rw [Json.mergeFields_eq_lastValues, lastValues_map, readParams_map]
  rw [handle, ofHandle?, if_pos rfl, ofBody_eq hparams]

/-- The handle of a reference is read back as the reference. -/
theorem ofHandle?_handle {r : Reference} (h : r.IsWritable) :
    ofHandle? r.handle = some (.ok r) := by
  rw [ofHandle?_handle_eq, Path.ofString_text h.path, lastValues_eq_self_iff.2 h.params]

/-- Only an object whose single field has the name of a handle's field is taken for a handle. -/
lemma ofHandle?_eq_none_or (fields : List (String × Json)) :
    ofHandle? (.object fields) = none ∨
      ∃ body, fields = [(handleKey, body)] ∧ ofHandle? (.object fields) = some (ofBody body) := by
  match fields with
  | [] => exact .inl rfl
  | [(key, body)] =>
    by_cases hkey : key = handleKey
    · subst hkey
      exact .inr ⟨body, rfl, by rw [ofHandle?, if_pos rfl]⟩
    · exact .inl (by rw [ofHandle?, if_neg hkey])
  | _ :: _ :: _ => exact .inl rfl

lemma ofHandle?_eq_none_iff {fields : List (String × Json)} :
    ofHandle? (.object fields) = none ↔ ¬ ∃ body, fields = [(handleKey, body)] := by
  rcases ofHandle?_eq_none_or fields with h | ⟨body, rfl, h⟩
  · refine iff_of_true h ?_
    rintro ⟨body, rfl⟩
    cases h
  · rw [h]
    exact iff_of_false (by simp) fun hno => hno ⟨body, rfl⟩

/-- Only an object with a single field can be a handle. -/
theorem ofHandle?_object {fields : List (String × Json)} (h : fields.length ≠ 1) :
    ofHandle? (.object fields) = none := by
  match fields with
  | [] => rfl
  | [_] => exact absurd rfl h
  | _ :: _ :: _ => rfl

end Reference

end StyleGuide
