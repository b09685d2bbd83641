import StyleGuide.Proofs.Reference
import StyleGuide.Proofs.Sequence
import StyleGuide.Resolution
import StyleGuide.Tree

/-!
# Resolving a style guide

A style guide that is handed on holds handles, and resolving it puts values in their place. The walk
over the value that has been written down meets the references of the tree, each in its turn, and
nothing else that looks like a handle: every other object has more fields than one, or none. It does
not matter what stands in the place of the references, as long as it is known what becomes of that.

## Main definitions

* `Tree.references`: the references of a tree, in the order in which they are written.
* `Registry.Resolves`: resolving a value resolves some references in order, and then gives a value.

## Main results

* `Registry.resolves_toJsonWith`: resolving a tree resolves what stands for its references.
* `Registry.resolve_toJson`: resolving a tree puts the loaded values in the place of its references.
-/

namespace StyleGuide

/-! ## The references of a tree -/

/-- The reference by which the properties are found. -/
def PropsSource.references : PropsSource → List Reference
  | .extracted r => [r]
  | .none => []

/-- The references of an entry, in the order in which they are written. -/
def ComponentEntry.references (e : ComponentEntry) : List Reference :=
  e.design.toList ++ e.examples.toList ++ e.module.toList ++ e.props.references

/-- The references of entries. -/
def entriesReferences (components : Option (List ComponentEntry)) : List Reference :=
  (components.getD []).flatMap (·.references)

mutual

/-- The references of a section: those of its own, and then those of the sections below it. -/
def Section.references : Section → List Reference
  | ⟨_, content, components, sections⟩ =>
    content.toList ++ entriesReferences components ++
      match sections with
      | none => []
      | some sections => sectionsReferences sections

/-- The references of sections. -/
def sectionsReferences : List Section → List Reference
  | [] => []
  | s :: rest => s.references ++ sectionsReferences rest

end

/-- The references of a tree, in the order in which they are written. -/
def Tree.references (t : Tree) : List Reference :=
  entriesReferences t.components ++ sectionsReferences (t.sections.getD [])

/-! ## Loading in order -/

section Load

variable {ε α β γ : Type} {f : α → Except ε β}

lemma map_mapM_append {δ : Type} (xs ys : List α) (a : γ) (b : δ) {ζ : Type} (h : γ → δ → ζ) :
    (do
      let a ← (xs.mapM f).map fun _ => a
      let b ← (ys.mapM f).map fun _ => b
      pure (h a b)) = ((xs ++ ys).mapM f).map fun _ => h a b := by
  rw [List.mapM_append]
  cases xs.mapM f with
  | error e => rfl
  | ok as => cases ys.mapM f <;> rfl

end Load

namespace Registry

variable (g : Registry) (fs : FileSystem)

section Resolves

variable (load : Reference → Except ResolveError Json)

/-- Resolving the value `j` loads the references, in order, and then gives the value `v`. -/
def Resolves (refs : List Reference) (j v : Json) : Prop :=
  g.resolve fs j = (refs.mapM load).map fun _ => v

/-- The same for the items of an array. -/
def ResolvesItems (refs : List Reference) (items values : List Json) : Prop :=
  g.resolveItems fs items = (refs.mapM load).map fun _ => values

/-- The same for the fields of an object. -/
def ResolvesFields (refs : List Reference) (fields values : List (String × Json)) : Prop :=
  g.resolveFields fs fields = (refs.mapM load).map fun _ => values

end Resolves

/-- A handle keeps the reference, and what `value` gives for it is what is loaded, if it is. -/
structure Fits (value : Reference → Json) (r : Reference) : Prop where
  isWritable : r.IsWritable
  loaded : ∀ v, g.load fs r = .ok v → value r = v

variable {g fs} {load : Reference → Except ResolveError Json} {refs more : List Reference}

/-! ## The parts of a value -/

lemma resolves_null : g.Resolves fs load [] .null .null := rfl

lemma resolves_bool (b : Bool) : g.Resolves fs load [] (.bool b) (.bool b) := rfl

lemma resolves_string (s : String) : g.Resolves fs load [] (.string s) (.string s) := rfl

lemma resolvesItems_nil : g.ResolvesItems fs load [] [] [] := rfl

lemma ResolvesItems.cons {j v : Json} {items values : List Json} (hj : g.Resolves fs load refs j v)
    (hitems : g.ResolvesItems fs load more items values) :
    g.ResolvesItems fs load (refs ++ more) (j :: items) (v :: values) := by
  unfold ResolvesItems
  rw [resolveItems, hj, hitems]
  exact map_mapM_append refs more v values List.cons

lemma resolvesFields_nil : g.ResolvesFields fs load [] [] [] := rfl

lemma ResolvesFields.cons {k : String} {j v : Json} {fields values : List (String × Json)}
    (hj : g.Resolves fs load refs j v) (hfields : g.ResolvesFields fs load more fields values) :
    g.ResolvesFields fs load (refs ++ more) ((k, j) :: fields) ((k, v) :: values) := by
  unfold ResolvesFields
  rw [resolveFields, hj, hfields]
  exact map_mapM_append refs more v values fun v values => (k, v) :: values

lemma ResolvesItems.array {items values : List Json}
    (h : g.ResolvesItems fs load refs items values) :
    g.Resolves fs load refs (.array items) (.array values) := by
  unfold Resolves
  rw [resolve, h]
  cases refs.mapM load <;> rfl

/-- An object with a single field could be taken for a handle. -/
lemma ResolvesFields.object {fields values : List (String × Json)} (hlen : fields.length ≠ 1)
    (h : g.ResolvesFields fs load refs fields values) :
    g.Resolves fs load refs (.object fields) (.object values) := by
  unfold Resolves
  rw [resolve, Reference.ofHandle?_object hlen, h]
  cases refs.mapM load <;> rfl

/-! ## The parts of a tree -/

variable {write value : Reference → Json}

/-- A value that resolves to a known one, if to any, can stand for a reference. -/
lemma resolves_single {r : Reference} (hload : g.resolve fs (write r) = load r)
    (hvalue : ∀ v, load r = .ok v → value r = v) :
    g.Resolves fs load [r] (write r) (value r) := by
  rw [Resolves, hload, List.mapM_cons, List.mapM_nil]
  cases hr : load r with
  | error e => rfl
  | ok v =>
    rw [hvalue v hr]
    rfl

/-- A handle gives way to what is loaded for the reference that is read from it. -/
lemma resolve_handle {r r' : Reference} (h : Reference.ofHandle? r.handle = some (.ok r')) :
    g.resolve fs r.handle = g.load fs r' := by
  rw [Reference.handle] at h ⊢
  simp only [resolve, h]

lemma resolves_handle {r : Reference} (h : g.Fits fs value r) :
    g.Resolves fs (g.load fs) [r] r.handle (value r) :=
  resolves_single (resolve_handle (Reference.ofHandle?_handle h.isWritable)) h.loaded

lemma resolves_ofOption {r? : Option Reference}
    (h : ∀ r ∈ r?.toList, g.Resolves fs load [r] (write r) (value r)) :
    g.Resolves fs load r?.toList (.ofOption write r?) (.ofOption value r?) := by
  cases r? with
  | none => exact resolves_null
  | some r => exact h r (by simp)

lemma resolves_props {p : PropsSource}
    (h : ∀ r ∈ p.references, g.Resolves fs load [r] (write r) (value r)) :
    g.Resolves fs load p.references (p.toJsonWith write) (p.toJsonWith value) := by
  cases p with
  | extracted r => exact h r (by simp [PropsSource.references])
  | none => exact resolvesFields_nil.object (by simp)

lemma resolves_entry {e : ComponentEntry}
    (h : ∀ r ∈ e.references, g.Resolves fs load [r] (write r) (value r)) :
    g.Resolves fs load e.references (e.toJsonWith write) (e.toJsonWith value) := by
  simp only [ComponentEntry.references, List.mem_append, or_imp, forall_and] at h
  obtain ⟨⟨⟨hdesign, hexamples⟩, hmodule⟩, hprops⟩ := h
  have hrefs : e.references = [] ++ ([] ++ ([] ++ ([] ++ ([] ++ ([] ++ (e.design.toList ++
      (e.examples.toList ++ (e.module.toList ++ (e.props.references ++ []))))))))) := by
    simp [ComponentEntry.references]
  rw [hrefs]
  apply ResolvesFields.object (by simp)
  exact .cons (resolves_string _) (.cons (resolves_string _) (.cons (resolves_string _)
    (.cons (resolves_string _) (.cons (resolves_string _) (.cons (resolves_bool _)
      (.cons (resolves_ofOption hdesign) (.cons (resolves_ofOption hexamples)
        (.cons (resolves_ofOption hmodule) (.cons (resolves_props hprops)
          resolvesFields_nil)))))))))

lemma resolvesItems_entries {entries : List ComponentEntry}
    (h : ∀ r ∈ entries.flatMap (·.references), g.Resolves fs load [r] (write r) (value r)) :
    g.ResolvesItems fs load (entries.flatMap (·.references))
      (entries.map (·.toJsonWith write)) (entries.map (·.toJsonWith value)) := by
  induction entries with
  | nil => exact resolvesItems_nil
  | cons e entries ih =>
    simp only [List.flatMap_cons, List.mem_append, or_imp, forall_and] at h
    exact .cons (resolves_entry h.1) (ih h.2)

lemma resolves_entries {components : Option (List ComponentEntry)}
    (h : ∀ r ∈ entriesReferences components, g.Resolves fs load [r] (write r) (value r)) :
    g.Resolves fs load (entriesReferences components)
      (.ofOption (entriesJsonWith write) components)
      (.ofOption (entriesJsonWith value) components) := by
  cases components with
  | none => exact resolves_null
  | some entries => exact (resolvesItems_entries h).array

/-- A section is an object of four fields, the last of which holds the sections below it. -/
lemma resolves_sectionObject {name : String} {content : Option Reference}
    {components : Option (List ComponentEntry)} {j v : Json}
    (hcontent : ∀ r ∈ content.toList, g.Resolves fs load [r] (write r) (value r))
    (hcomponents : ∀ r ∈ entriesReferences components,
      g.Resolves fs load [r] (write r) (value r))
    (hsections : g.Resolves fs load refs j v) :
    g.Resolves fs load (content.toList ++ entriesReferences components ++ refs)
      (.object
        [("name", .string name), ("content", .ofOption write content),
          ("components", .ofOption (entriesJsonWith write) components), ("sections", j)])
      (.object
        [("name", .string name), ("content", .ofOption value content),
          ("components", .ofOption (entriesJsonWith value) components), ("sections", v)]) := by
  have hrefs : content.toList ++ entriesReferences components ++ refs =
      [] ++ (content.toList ++ (entriesReferences components ++ (refs ++ []))) := by simp
  rw [hrefs]
  apply ResolvesFields.object (by simp)
  exact .cons (resolves_string _) (.cons (resolves_ofOption hcontent)
    (.cons (resolves_entries hcomponents) (.cons hsections resolvesFields_nil)))

mutual

theorem resolves_section : ∀ s : Section,
    (∀ r ∈ s.references, g.Resolves fs load [r] (write r) (value r)) →
    g.Resolves fs load s.references (s.toJsonWith write) (s.toJsonWith value)
  | ⟨_, _, _, none⟩, h => by
    simp only [Section.references, List.mem_append, or_imp, forall_and] at h
    exact resolves_sectionObject h.1.1 h.1.2 resolves_null
  | ⟨_, _, _, some sections⟩, h => by
    simp only [Section.references, List.mem_append, or_imp, forall_and] at h
    exact resolves_sectionObject h.1.1 h.1.2 (resolvesItems_sections sections h.2).array

theorem resolvesItems_sections : ∀ sections : List Section,
    (∀ r ∈ sectionsReferences sections, g.Resolves fs load [r] (write r) (value r)) →
    g.ResolvesItems fs load (sectionsReferences sections)
      (sectionsJsonWith write sections) (sectionsJsonWith value sections)
  | [], _ => resolvesItems_nil
  | s :: rest, h => by
    simp only [sectionsReferences, List.mem_append, or_imp, forall_and] at h
    exact .cons (resolves_section s h.1) (resolvesItems_sections rest h.2)

end

/-- The value of a tree resolves what stands for the references of the tree, each in its turn. -/
theorem resolves_toJsonWith {t : Tree}
    (h : ∀ r ∈ t.references, g.Resolves fs load [r] (write r) (value r)) :
    g.Resolves fs load t.references (t.toJsonWith write) (t.toJsonWith value) := by
  obtain ⟨presentation, components, sections⟩ := t
  simp only [Tree.references, List.mem_append, or_imp, forall_and] at h
  have hconfig : g.Resolves fs load [] presentation.toJson presentation.toJson :=
    ResolvesFields.object (by simp) (.cons (resolves_string _) (.cons (resolves_string _)
      (.cons (resolves_bool _) resolvesFields_nil)))
  have hsections : g.Resolves fs load (sectionsReferences (sections.getD []))
      (.ofOption (fun s => .array (sectionsJsonWith write s)) sections)
      (.ofOption (fun s => .array (sectionsJsonWith value s)) sections) := by
    cases sections with
    | none => exact resolves_null
    | some sections => exact (resolvesItems_sections sections h.2).array
  have hrefs : Tree.references ⟨presentation, components, sections⟩ =
      [] ++ (entriesReferences components ++ (sectionsReferences (sections.getD []) ++ [])) := by
    simp [Tree.references]
  rw [hrefs]
  exact ResolvesFields.object (by simp) (.cons hconfig (.cons (resolves_entries h.1)
    (.cons hsections resolvesFields_nil)))

/-- The value of a tree loads the references of the tree, each in its turn. -/
lemma resolves_tree {t : Tree} (h : ∀ r ∈ t.references, g.Fits fs value r) :
    g.Resolves fs (g.load fs) t.references t.toJson (t.toJsonWith value) :=
  resolves_toJsonWith fun r hr => resolves_handle (h r hr)

/-! ## The whole tree -/

lemma mapM_load_eq_ok (h : ∀ r ∈ refs, g.load fs r = .ok (value r)) :
    refs.mapM (g.load fs) = .ok (refs.map value) := mapM_eq_pure_map h

lemma exists_load_of_mapM {values : List Json} (h : refs.mapM (g.load fs) = .ok values) :
    ∀ r ∈ refs, ∃ v, g.load fs r = .ok v := exists_mapM_eq_ok_iff.1 ⟨values, h⟩

lemma mapM_load_eq_error {before after : List Reference} {r : Reference} {e : ResolveError}
    (hbefore : ∀ s ∈ before, ∃ v, g.load fs s = .ok v) (hr : g.load fs r = .error e) :
    (before ++ r :: after).mapM (g.load fs) = .error e :=
  mapM_eq_error_iff.2 ⟨before, r, after, rfl, hbefore, hr⟩

/-- Resolving a tree whose references can be written down puts the loaded values in the place of its
references, and changes nothing else. It fails with the error of the first reference that cannot be
loaded. -/
theorem resolve_toJson {t : Tree} (h : ∀ r ∈ t.references, r.IsWritable) :
    ((∃ v, g.resolve fs t.toJson = .ok v) ↔ ∀ r ∈ t.references, ∃ v, g.load fs r = .ok v) ∧
    (∀ value, (∀ r ∈ t.references, g.load fs r = .ok (value r)) →
      g.resolve fs t.toJson = .ok (t.toJsonWith value)) ∧
    (∀ before r after e, t.references = before ++ r :: after →
      (∀ s ∈ before, ∃ v, g.load fs s = .ok v) → g.load fs r = .error e →
      g.resolve fs t.toJson = .error e) := by
  have hok : ∀ value, (∀ r ∈ t.references, g.load fs r = .ok (value r)) →
      g.resolve fs t.toJson = .ok (t.toJsonWith value) := by
    intro value hvalue
    have hfits : ∀ r ∈ t.references, g.Fits fs value r := fun r hr =>
      ⟨h r hr, fun v hv => by simpa [hvalue r hr] using hv⟩
    rw [resolves_tree hfits, mapM_load_eq_ok hvalue]
    rfl
  -- Where a reference has no value, anything can be written for it.
  have hfits : ∀ r ∈ t.references, g.Fits fs (fun r => (g.load fs r).toOption.getD .null) r :=
    fun r hr => ⟨h r hr, fun v hv => by simp [hv, Except.toOption]⟩
  have hload := resolves_tree hfits
  refine ⟨⟨fun hresolved => ?_, fun hall => ?_⟩, hok,
    fun before r after e hrefs hbefore hr => ?_⟩
  · obtain ⟨v, hv⟩ := hresolved
    rw [hload] at hv
    cases hmapM : t.references.mapM (g.load fs) with
    | error e =>
      rw [hmapM] at hv
      cases hv
    | ok values => exact exists_load_of_mapM hmapM
  · refine ⟨_, hok (fun r => (g.load fs r).toOption.getD .null) fun r hr => ?_⟩
    obtain ⟨v, hv⟩ := hall r hr
    simp [hv, Except.toOption]
  · rw [hload, hrefs, mapM_load_eq_error hbefore hr]
    rfl

/-- A tree with a reference in a section below another one. The outer section has a title that looks
like a handle. -/
def nestedContent : Tree where
  presentation := ⟨"Guide", "dark", false⟩
  components := none
  sections := some [⟨"$resource", none, some [],
    some [⟨"inner", some ⟨.examples, .ofString "a.md", [("imagePath", "/img")]⟩, none, none⟩]⟩]

/-- With loaders that give the paths, the reference gives way to its path. -/
theorem resolve_nestedContent :
    (Registry.mk fun _ => some fun _ r => .ok (.string r.path.text)).resolve default
        nestedContent.toJson =
      .ok (nestedContent.toJsonWith fun r => .string r.path.text) := by
  have hrefs : nestedContent.references =
      [⟨.examples, .ofString "a.md", [("imagePath", "/img")]⟩] := rfl
  have hwritable : ∀ r ∈ nestedContent.references, r.IsWritable := by
    simp only [hrefs, List.mem_singleton, forall_eq]
    exact ⟨⟨"a.md", rfl⟩, by simp⟩
  exact (resolve_toJson hwritable).2.1 _ fun r _ => rfl

end Registry

end StyleGuide
