import StyleGuide.Proofs.Reference

/-!
# What a handle keeps of a reference

The kind is kept as it is. The path is written as a text, so that malformed bytes are lost, and of a
parameter that is given more than once only the last value is left. Every reference is read back
from its handle with these losses, and there are none just where the reference can be written.

## Main results

* `Reference.ofHandle?_handle_image`: what is read back, and when it is the reference itself.
-/

namespace StyleGuide.Reference

/-- From the handle of a reference, whatever its path and its parameters are, a reference is read:
of the same kind, with the path as it is written, each malformed piece replaced, and with each
parameter once, at its first place and with its last value. It is the reference itself, and also the
same up to the components of the paths, just where the path is a text and no parameter is given
twice. -/
theorem ofHandle?_handle_image (r : Reference) :
    ∃ s, ofHandle? r.handle = some (.ok s) ∧ s.kind = r.kind ∧ s.path = .ofString r.path.text ∧
      s.params = lastValues r.params ∧
      (s.SameAs r ↔ r.path.IsText ∧ (r.params.map Prod.fst).Nodup) ∧
      (s = r ↔ r.path.IsText ∧ (r.params.map Prod.fst).Nodup) := by
  refine ⟨_, ofHandle?_handle_eq r, rfl, rfl, rfl, ?_, ?_⟩
  · rw [← Path.sameAs_text_iff, ← lastValues_eq_self_iff]
    exact and_iff_right rfl
  · obtain ⟨kind, path, params⟩ := r
    rw [← Path.ofString_text_eq_iff, ← lastValues_eq_self_iff, Reference.mk.injEq]
    exact and_iff_right rfl

end StyleGuide.Reference
