import Mathlib.Data.Set.List
import StyleGuide.Proofs.Path.Normal
import StyleGuide.Proofs.Text.Utf8

/-!
# Paths that are texts

A path is any sequence of bytes without a zero, but it is written as a text, with the malformed
bytes replaced. The separator is a byte that stands for nothing else, so a path is malformed just
where one of its names is.

## Main definitions

* `Path.IsText`: the paths that are the UTF-8 form of a text.

## Main results

* `Path.ofString_text`: such a path is kept when it is written as a text.
* `Path.isText_iff`: it depends on the names in a path whether it is one.
* `Path.sameAs_text_iff`: a path that is written as a text keeps its components just where it is
  one.
-/

namespace StyleGuide.Path

/-- The paths that are the UTF-8 form of a text. -/
def IsText (p : Path) : Prop := ∃ s, p = ofString s

variable {p q : Path}

lemma ofString_text (h : p.IsText) : ofString p.text = p := by
  obtain ⟨s, rfl⟩ := h
  exact congrArg ofString (Utf8.decodeLossy_encode s)

lemma ofString_text_eq_iff : ofString p.text = p ↔ p.IsText :=
  ⟨fun h => ⟨p.text, h.symm⟩, ofString_text⟩

lemma eq_of_text (hp : p.IsText) (hq : q.IsText) (h : p.text = q.text) : p = q := by
  rw [← ofString_text hp, ← ofString_text hq, h]

/-! ## The segments of a text -/

lemma encodeChars_joinWith (pieces : List (List Char)) :
    Utf8.encodeChars (joinWith '/' pieces) = joinWith slash (pieces.map Utf8.encodeChars) := by
  induction pieces with
  | nil => rfl
  | cons piece pieces ih =>
    cases pieces with
    | nil => rfl
    | cons next pieces =>
      rw [joinWith, List.map_cons, List.map_cons, joinWith, ← List.map_cons, ← ih]
      simp [Utf8.encodeChars]
      rfl

/-- A text is cut at its slashes, and each piece is a text again. -/
lemma segments_ofString (s : String) :
    (ofString s).segments = (cut (· == '/') s.toList).map Utf8.encodeChars := by
  have hslash : ∀ piece ∈ (cut (· == '/') s.toList).map Utf8.encodeChars, slash ∉ piece := by
    refine List.forall_mem_map.2 fun piece hpiece => ?_
    refine Utf8.not_mem_encodeChars (by decide) fun hmem => ?_
    have hcut := not_mem_of_mem_cut _ hpiece hmem
    exact absurd hcut (by decide)
  calc (ofString s).segments
      = cut (· == slash) (Utf8.encodeChars (joinWith '/' (cut (· == '/') s.toList))) := by
        rw [joinWith_cut]
        rfl
    _ = (cut (· == '/') s.toList).map Utf8.encodeChars := by
        rw [encodeChars_joinWith, cut_joinWith (by simp [cut_ne_nil]) hslash]

/-- A path is a text when all its segments are. -/
lemma isText_of_segments (h : ∀ s ∈ p.segments, ∃ cs, Utf8.encodeChars cs = s) : p.IsText := by
  obtain ⟨pieces, hpieces⟩ : p.segments ∈ Set.range (List.map Utf8.encodeChars) := by
    rw [Set.range_list_map]
    exact h
  refine ⟨String.ofList (joinWith '/' pieces), ?_⟩
  have hbytes : p.bytes = Utf8.encodeChars (joinWith '/' pieces) := by
    rw [encodeChars_joinWith, hpieces, segments, joinWith_cut]
  rw [ofString, Utf8.encode, String.toList_ofList, ← hbytes]

/-- A path is a text when all its names are. -/
theorem isText_iff : p.IsText ↔ ∀ n, .name n ∈ p.components → ∃ s, n = Utf8.encode s := by
  constructor
  · rintro ⟨s, rfl⟩ n hn
    obtain ⟨hmem, -⟩ := name_mem_parts_iff.1 (name_mem_components_iff.1 hn)
    rw [segments_ofString, List.mem_map] at hmem
    obtain ⟨piece, -, rfl⟩ := hmem
    exact ⟨String.ofList piece, by rw [Utf8.encode, String.toList_ofList]⟩
  · intro h
    refine isText_of_segments fun s hs => ?_
    by_cases hname : s ≠ [] ∧ s ≠ [dot] ∧ s ≠ [dot, dot]
    · obtain ⟨text, rfl⟩ := h s (name_mem_components_iff.2 (name_mem_parts_iff.2 ⟨hs, hname⟩))
      exact ⟨text.toList, rfl⟩
    · have hdots : s = [] ∨ s = [dot] ∨ s = [dot, dot] := by tauto
      rcases hdots with rfl | rfl | rfl
      exacts [⟨[], rfl⟩, ⟨['.'], rfl⟩, ⟨['.', '.'], rfl⟩]

/-- What a path is written as has the same components just where the path is a text. -/
theorem sameAs_text_iff : (ofString p.text).SameAs p ↔ p.IsText := by
  constructor
  · intro h
    have hwritten : (ofString p.text).IsText := ⟨p.text, rfl⟩
    rw [isText_iff] at hwritten ⊢
    rwa [h] at hwritten
  · intro h
    rw [ofString_text h]
    rfl

end StyleGuide.Path
