import StyleGuide.Proofs.Compilation.Entries

/-!
# The value of a style guide keeps the style guide

A style guide is handed on as a value, and the value is all that is left of it. No two style guides
have the same value: a handle is read back as its reference, `null` stands only for what is absent,
and an array or an object stands only for what is there, be it empty.

## Main definitions

* `ComponentEntry.HasTextPaths`: the paths of an entry are texts.
* `Tree.IsWritable`: the value keeps all paths and all parameters of a style guide.

## Main results

* `Reference.eq_of_handle`, `ComponentEntry.eq_of_toJson`, `Section.eq_of_toJson`: the parts.
* `Tree.toJson_eq_iff`: style guides with the same value are the same.
-/

namespace StyleGuide

/-- The paths of an entry are the UTF-8 forms of texts. -/
structure ComponentEntry.HasTextPaths (e : ComponentEntry) : Prop where
  filepath : e.filepath.IsText
  relativePath : e.relativePath.IsText

/-- Entries and references that a value keeps whole: their paths are texts, and no reference has a
parameter twice. -/
structure AreWritable (entries : List ComponentEntry) (references : List Reference) : Prop where
  entries : ∀ e ∈ entries, e.HasTextPaths
  references : ∀ r ∈ references, r.IsWritable

/-- The value of the style guide keeps all its paths and parameters. -/
def Tree.IsWritable (t : Tree) : Prop := AreWritable t.entries t.references

lemma areWritable_append_iff {es es' : List ComponentEntry} {rs rs' : List Reference} :
    AreWritable (es ++ es') (rs ++ rs') ↔ AreWritable es rs ∧ AreWritable es' rs' := by
  constructor
  · rintro ⟨he, hr⟩
    rw [List.forall_mem_append] at he hr
    exact ⟨⟨he.1, hr.1⟩, he.2, hr.2⟩
  · rintro ⟨⟨he, hr⟩, he', hr'⟩
    exact ⟨List.forall_mem_append.2 ⟨he, he'⟩, List.forall_mem_append.2 ⟨hr, hr'⟩⟩

/-! ## What is written for a part -/

lemma eq_of_map_eq {α β : Type} {f : α → β} {xs ys : List α}
    (h : ∀ x ∈ xs, ∀ y ∈ ys, f x = f y → x = y) (hmap : xs.map f = ys.map f) : xs = ys := by
  induction xs generalizing ys with
  | nil => simpa [eq_comm] using hmap
  | cons x xs ih =>
    cases ys with
    | nil => cases hmap
    | cons y ys =>
      rw [List.map_cons, List.map_cons, List.cons.injEq] at hmap
      have hrest : xs = ys := ih (fun x hx y hy => h x (by simp [hx]) y (by simp [hy])) hmap.2
      rw [h x (by simp) y (by simp) hmap.1, hrest]

namespace Json

/-- What is absent is told from what is there, unless `null` is written for that. -/
lemma eq_of_ofOption {α : Type} {f : α → Json} {v v' : Option α}
    (hne : ∀ a, f a ≠ .null) (h : ∀ a ∈ v, ∀ a' ∈ v', f a = f a' → a = a')
    (heq : ofOption f v = ofOption f v') : v = v' := by
  cases v with
  | none =>
    cases v' with
    | none => rfl
    | some a' => exact absurd heq.symm (hne a')
  | some a =>
    cases v' with
    | none => exact absurd heq (hne a)
    | some a' => rw [h a rfl a' rfl heq]

end Json

namespace Reference

lemma handle_ne_null (r : Reference) : r.handle ≠ .null := by
  simp [handle]

/-- A handle has a field. -/
lemma handle_ne_empty (r : Reference) : r.handle ≠ .object [] := by
  simp [handle]

/-- The handle says which reference it is that of. -/
theorem eq_of_handle {r s : Reference} (hr : r.IsWritable) (hs : s.IsWritable)
    (h : r.handle = s.handle) : r = s := by
  have hread := ofHandle?_handle hr
  rw [h, ofHandle?_handle hs] at hread
  cases hread
  rfl

end Reference

lemma eq_of_ofOption_handle {r r' : Option Reference}
    (hr : ∀ s ∈ r.toList, s.IsWritable) (hr' : ∀ s ∈ r'.toList, s.IsWritable)
    (h : Json.ofOption Reference.handle r = Json.ofOption Reference.handle r') : r = r' :=
  Json.eq_of_ofOption Reference.handle_ne_null
    (fun s hs s' hs' => Reference.eq_of_handle (hr s (by simpa using hs))
      (hr' s' (by simpa using hs'))) h

lemma PropsSource.eq_of_toJson {p p' : PropsSource} (hp : ∀ r ∈ p.references, r.IsWritable)
    (hp' : ∀ r ∈ p'.references, r.IsWritable)
    (h : p.toJsonWith Reference.handle = p'.toJsonWith Reference.handle) : p = p' := by
  cases p with
  | extracted r =>
    cases p' with
    | extracted r' =>
      rw [Reference.eq_of_handle (hp r (by simp [references])) (hp' r' (by simp [references])) h]
    | none => exact absurd h r.handle_ne_empty
  | none =>
    cases p' with
    | extracted r' => exact absurd h.symm r'.handle_ne_empty
    | none => rfl

/-! ## Entries -/

theorem ComponentEntry.eq_of_toJson {e e' : ComponentEntry} (he : e.HasTextPaths)
    (he' : e'.HasTextPaths) (hr : ∀ r ∈ e.references, r.IsWritable)
    (hr' : ∀ r ∈ e'.references, r.IsWritable) (h : e.toJson = e'.toJson) : e = e' := by
  simp only [references, List.mem_append, or_imp, forall_and] at hr hr'
  simp only [toJson, toJsonWith, Json.object.injEq, List.cons.injEq, Prod.mk.injEq,
    Json.string.injEq, Json.bool.injEq, true_and, and_true] at h
  obtain ⟨hfile, hname, hrelative, hline, himage, hslice, hdesign, hexamples, hmodule, hprops⟩ := h
  obtain ⟨filepath, displayName, relativePath, pathLine, imagePath, hasSlice, examples, design,
    module, props⟩ := e
  rw [ComponentEntry.mk.injEq]
  exact ⟨Path.eq_of_text he.filepath he'.filepath hfile, hname,
    Path.eq_of_text he.relativePath he'.relativePath hrelative, hline, himage, hslice,
    eq_of_ofOption_handle hr.1.1.2 hr'.1.1.2 hexamples,
    eq_of_ofOption_handle hr.1.1.1 hr'.1.1.1 hdesign,
    eq_of_ofOption_handle hr.1.2 hr'.1.2 hmodule, PropsSource.eq_of_toJson hr.2 hr'.2 hprops⟩

lemma eq_of_entriesJson {components components' : Option (List ComponentEntry)}
    (hw : AreWritable (components.getD []) (entriesReferences components))
    (hw' : AreWritable (components'.getD []) (entriesReferences components'))
    (h : Json.ofOption (entriesJsonWith Reference.handle) components =
      Json.ofOption (entriesJsonWith Reference.handle) components') : components = components' := by
  refine Json.eq_of_ofOption (by simp [entriesJsonWith]) ?_ h
  rintro entries rfl entries' rfl hentries
  refine eq_of_map_eq (fun e he e' he' heq => ?_) (Json.array.inj hentries)
  exact ComponentEntry.eq_of_toJson (hw.entries e he) (hw'.entries e' he')
    (fun r hr => hw.references r (List.mem_flatMap.2 ⟨e, he, hr⟩))
    (fun r hr => hw'.references r (List.mem_flatMap.2 ⟨e', he', hr⟩)) heq

/-! ## Sections -/

/-- A section is an object of four fields, the last of which holds the sections below it. -/
lemma Section.toJson_eq (s : Section) :
    s.toJson = .object
      [("name", .string s.name), ("content", .ofOption Reference.handle s.content),
        ("components", .ofOption (entriesJsonWith Reference.handle) s.components),
        ("sections", .ofOption (fun below => .array (sectionsJson below)) s.sections)] := by
  obtain ⟨name, content, components, _ | sections⟩ := s <;> rfl

/-- What a value says of a section, those below it apart. -/
lemma Section.fields_eq_of_toJson {s s' : Section} (hw : AreWritable s.entries s.references)
    (hw' : AreWritable s'.entries s'.references) (h : s.toJson = s'.toJson) :
    s.name = s'.name ∧ s.content = s'.content ∧ s.components = s'.components ∧
      Json.ofOption (fun below => .array (sectionsJson below)) s.sections =
        Json.ofOption (fun below => .array (sectionsJson below)) s'.sections := by
  rw [Section.entries_eq, Section.references_eq, areWritable_append_iff] at hw hw'
  obtain ⟨⟨hentries, hown⟩, -⟩ := hw
  obtain ⟨⟨hentries', hown'⟩, -⟩ := hw'
  rw [List.forall_mem_append] at hown hown'
  simp only [Section.toJson_eq, Json.object.injEq, List.cons.injEq, Prod.mk.injEq,
    Json.string.injEq, true_and, and_true] at h
  obtain ⟨hname, hcontent, hcomponents, hsections⟩ := h
  exact ⟨hname, eq_of_ofOption_handle hown.1 hown'.1 hcontent,
    eq_of_entriesJson ⟨hentries, hown.2⟩ ⟨hentries', hown'.2⟩ hcomponents, hsections⟩

mutual

/-- By induction on the first of the two sections and what lies below it. -/
theorem Section.eq_of_toJson : ∀ s s' : Section, AreWritable s.entries s.references →
    AreWritable s'.entries s'.references → s.toJson = s'.toJson → s = s'
  | ⟨_, _, _, sections⟩, ⟨_, _, _, sections'⟩, hw, hw', h => by
    obtain ⟨hname, hcontent, hcomponents, hsections⟩ := Section.fields_eq_of_toJson hw hw' h
    rw [Section.entries_eq, Section.references_eq, areWritable_append_iff] at hw hw'
    have hbelow := eq_of_sectionsJson? sections sections' hw.2 hw'.2 hsections
    rw [Section.mk.injEq]
    exact ⟨hname, hcontent, hcomponents, hbelow⟩

theorem eq_of_sectionsJson : ∀ sections sections' : List Section,
    AreWritable (sectionsEntries sections) (sectionsReferences sections) →
    AreWritable (sectionsEntries sections') (sectionsReferences sections') →
    sectionsJson sections = sectionsJson sections' → sections = sections'
  | [], [], _, _, _ => rfl
  | [], _ :: _, _, _, h => by cases h
  | _ :: _, [], _, _, h => by cases h
  | s :: rest, s' :: rest', hw, hw', h => by
    obtain ⟨hs, hrest⟩ := areWritable_append_iff.1 hw
    obtain ⟨hs', hrest'⟩ := areWritable_append_iff.1 hw'
    obtain ⟨hhead, htail⟩ := List.cons.inj h
    rw [Section.eq_of_toJson s s' hs hs' hhead, eq_of_sectionsJson rest rest' hrest hrest' htail]

/-- No sections are told from an empty list of sections. -/
theorem eq_of_sectionsJson? : ∀ sections sections' : Option (List Section),
    AreWritable (sectionsEntries (sections.getD [])) (sectionsReferences (sections.getD [])) →
    AreWritable (sectionsEntries (sections'.getD [])) (sectionsReferences (sections'.getD [])) →
    Json.ofOption (fun below => .array (sectionsJson below)) sections =
      Json.ofOption (fun below => .array (sectionsJson below)) sections' → sections = sections'
  | none, none, _, _, _ => rfl
  | none, some _, _, _, h => by cases h
  | some _, none, _, _, h => by cases h
  | some below, some below', hw, hw', h => by
    rw [eq_of_sectionsJson below below' hw hw' (Json.array.inj h)]

end

/-! ## The whole style guide -/

lemma Presentation.eq_of_toJson {p p' : Presentation} (h : p.toJson = p'.toJson) : p = p' := by
  obtain ⟨title, highlightTheme, showCode⟩ := p
  simp only [toJson, Json.object.injEq, List.cons.injEq, Prod.mk.injEq, Json.string.injEq,
    Json.bool.injEq, true_and, and_true] at h
  rw [Presentation.mk.injEq]
  exact h

/-- Style guides that their values keep whole have the same value only where they are the same:
what is absent differs from what is empty, at every level, and no two ways to nest sections and
entries look alike. -/
theorem Tree.toJson_eq_iff {t t' : Tree} (hw : t.IsWritable) (hw' : t'.IsWritable) :
    t.toJson = t'.toJson ↔ t = t' := by
  constructor
  · intro h
    obtain ⟨hown, hbelow⟩ := areWritable_append_iff.1 hw
    obtain ⟨hown', hbelow'⟩ := areWritable_append_iff.1 hw'
    simp only [toJson, toJsonWith, Json.object.injEq, List.cons.injEq, Prod.mk.injEq, true_and,
      and_true] at h
    obtain ⟨hpresentation, hcomponents, hsections⟩ := h
    obtain ⟨presentation, components, sections⟩ := t
    rw [Tree.mk.injEq]
    exact ⟨Presentation.eq_of_toJson hpresentation, eq_of_entriesJson hown hown' hcomponents,
      eq_of_sectionsJson? _ _ hbelow hbelow' hsections⟩
  · rintro rfl
    rfl

/-- A component with examples and without properties. -/
def cardEntry : ComponentEntry where
  filepath := .ofString "/Card.js"
  displayName := "Card"
  relativePath := .ofString "Card.js"
  pathLine := "Card.js"
  imagePath := ""
  hasSlice := false
  examples := some ⟨.examples, .ofString "/a.md", [("imagePath", ""), ("componentName", "Card")]⟩
  design := none
  module := none
  props := .none

/-- A style guide with this component in a section. -/
def cardGuide (below : Option (List Section)) : Tree where
  presentation := ⟨"Guide", "dark", false⟩
  components := none
  sections := some [⟨"Forms", none, some [cardEntry], below⟩]

lemma isWritable_cardGuide (below : Option (List Section)) (h : below.getD [] = []) :
    (cardGuide below).IsWritable := by
  have hentries : (cardGuide below).entries = [cardEntry] := by
    simp [Tree.entries, cardGuide, sectionsEntries, Section.entries_eq, h]
  have hreferences : (cardGuide below).references =
      [⟨.examples, .ofString "/a.md", [("imagePath", ""), ("componentName", "Card")]⟩] := by
    simp [Tree.references, cardGuide, sectionsReferences, Section.references_eq, h,
      entriesReferences, ComponentEntry.references, cardEntry, PropsSource.references]
  rw [Tree.IsWritable, hentries, hreferences]
  refine ⟨?_, ?_⟩
  · simpa using ⟨⟨"/Card.js", rfl⟩, "Card.js", rfl⟩
  · simpa using ⟨⟨"/a.md", rfl⟩, by simp⟩

/-- Without sections below it, a section is told from the same one with an empty list of them. -/
theorem toJson_cardGuide_ne : (cardGuide none).IsWritable ∧ (cardGuide (some [])).IsWritable ∧
    (cardGuide none).toJson ≠ (cardGuide (some [])).toJson := by
  have hnone := isWritable_cardGuide none rfl
  have hempty := isWritable_cardGuide (some []) rfl
  refine ⟨hnone, hempty, ?_⟩
  rw [ne_eq, Tree.toJson_eq_iff hnone hempty]
  simp [cardGuide]

end StyleGuide
