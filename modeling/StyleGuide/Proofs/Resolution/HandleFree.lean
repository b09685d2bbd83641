import Mathlib.Tactic.Common
import StyleGuide.Proofs.Json.Everywhere
import StyleGuide.Proofs.Resolution

/-!
# Values without handles

A value in which nothing looks like a handle resolves to itself. Where an object looks like a handle
but has nothing under the name `kind`, resolving fails, and always in the same way.

## Main definitions

* `Json.HandleFree`: nothing inside a value looks like a handle.
* `Json.Inert`: nothing inside a value is the handle of a reference.

## Main results

* `Json.Inert.settles`: resolving an inert value changes nothing, or fails.
* `Tree.everywhere_toJsonWith_iff`: the objects inside the value of a tree.
-/

namespace StyleGuide

open Reference (handleKey ofHandle? ofBody)

namespace Json

/-- Nothing inside a value looks like a handle. -/
def HandleFree (v : Json) : Prop := v.Everywhere fun fields => ofHandle? (.object fields) = none

/-- What stands under the name of a handle's field has no kind, so that nothing inside a value is
the handle of a reference. -/
def Inert (v : Json) : Prop :=
  v.Everywhere fun fields => ∀ f ∈ fields, f.1 = handleKey → f.2.field? "kind" = none

variable {fields : List (String × Json)} {v : Json}

/-- Taking repeated names together makes no handle of a reference. -/
theorem Inert.merged (h : v.Inert) : v.merged.Inert := by
  unfold Inert at h ⊢
  induction h with
  | array _ ih =>
    rw [Json.merged, mergedItems_eq_map, everywhere_array_iff]
    simpa using ih
  | object here _ ih =>
    rw [Json.merged, everywhere_object_iff]
    constructor
    · intro f hf hkey
      obtain ⟨f', hf', rfl⟩ := exists_of_mem_merged hf
      exact field?_merged (here f' hf' hkey)
    · intro f hf
      obtain ⟨f', hf', rfl⟩ := exists_of_mem_merged hf
      exact ih f' hf'
  | null => exact .null
  | bool b => exact .bool b
  | int n => exact .int n
  | decimal text => exact .decimal text
  | string s => exact .string s

end Json

/-! ## Resolving inert values -/

namespace Json

variable {items : List Json} {fields : List (String × Json)} {v : Json} (g : Registry)
  (fs : FileSystem)

/-- Resolving a value changes nothing when it has no handles, and else finds one without a kind. -/
def Settles (v : Json) : Prop :=
  (v.HandleFree ∧ g.resolve fs v = .ok v) ∨
    (¬ v.HandleFree ∧ g.resolve fs v = .error (.handle .missingKind))

variable {g fs}

lemma settles_items (h : ∀ v ∈ items, Settles g fs v) :
    ((∀ v ∈ items, v.HandleFree) ∧ g.resolveItems fs items = .ok items) ∨
      ((¬ ∀ v ∈ items, v.HandleFree) ∧
        g.resolveItems fs items = .error (.handle .missingKind)) := by
  induction items with
  | nil => exact .inl ⟨by simp, rfl⟩
  | cons v items ih =>
    rw [List.forall_mem_cons] at h
    rw [List.forall_mem_cons, Registry.resolveItems]
    rcases h.1 with ⟨hv, hres⟩ | ⟨hv, hres⟩
    · rw [hres]
      rcases ih h.2 with ⟨hitems, hres'⟩ | ⟨hitems, hres'⟩
      · exact .inl ⟨⟨hv, hitems⟩, by rw [hres']; rfl⟩
      · exact .inr ⟨fun hall => hitems hall.2, by rw [hres']; rfl⟩
    · exact .inr ⟨fun hall => hv hall.1, by rw [hres]; rfl⟩

lemma settles_fields (h : ∀ f ∈ fields, Settles g fs f.2) :
    ((∀ f ∈ fields, f.2.HandleFree) ∧ g.resolveFields fs fields = .ok fields) ∨
      ((¬ ∀ f ∈ fields, f.2.HandleFree) ∧
        g.resolveFields fs fields = .error (.handle .missingKind)) := by
  induction fields with
  | nil => exact .inl ⟨by simp, rfl⟩
  | cons f fields ih =>
    rw [List.forall_mem_cons] at h
    rw [List.forall_mem_cons, Registry.resolveFields]
    rcases h.1 with ⟨hv, hres⟩ | ⟨hv, hres⟩
    · rw [hres]
      rcases ih h.2 with ⟨hfields, hres'⟩ | ⟨hfields, hres'⟩
      · exact .inl ⟨⟨hv, hfields⟩, by rw [hres']; rfl⟩
      · exact .inr ⟨fun hall => hfields hall.2, by rw [hres']; rfl⟩
    · exact .inr ⟨fun hall => hv hall.1, by rw [hres]; rfl⟩

/-- Resolving an inert value changes nothing, or fails at an object without a kind. -/
theorem Inert.settles (h : v.Inert) : Settles g fs v := by
  unfold Inert at h
  induction h with
  | array _ ih =>
    rw [Settles, HandleFree, everywhere_array_iff, Registry.resolve]
    rcases settles_items ih with ⟨hitems, hres⟩ | ⟨hitems, hres⟩
    · exact .inl ⟨hitems, by rw [hres]; rfl⟩
    · exact .inr ⟨hitems, by rw [hres]; rfl⟩
  | @object fields here _ ih =>
    -- A lone field of a handle's name fails at once; all else is left to the values of the fields.
    rw [Settles, HandleFree, everywhere_object_iff, Registry.resolve]
    rcases Reference.ofHandle?_eq_none_or fields with hnone | ⟨body, rfl, hsome⟩
    · rw [hnone]
      rcases settles_fields ih with ⟨hfields, hres⟩ | ⟨hfields, hres⟩
      · exact .inl ⟨⟨rfl, hfields⟩, by rw [hres]; rfl⟩
      · exact .inr ⟨fun hall => hfields hall.2, by rw [hres]; rfl⟩
    · have hkind : body.field? "kind" = none := here _ (List.mem_singleton_self _) rfl
      have hbody : Reference.ofBody body = .error .missingKind :=
        Reference.ofBody_of_missingKind (by rw [hkind, Option.bind_none])
      rw [hsome, hbody]
      refine .inr ⟨?_, rfl⟩
      rintro ⟨hnone, -⟩
      cases hnone
  | null => exact .inl ⟨.null, rfl⟩
  | bool b => exact .inl ⟨.bool b, rfl⟩
  | int n => exact .inl ⟨.int n, rfl⟩
  | decimal text => exact .inl ⟨.decimal text, rfl⟩
  | string s => exact .inl ⟨.string s, rfl⟩

end Json

/-! ## The objects inside the value of a tree -/

section Tree

open Json (Everywhere everywhere_array_iff everywhere_object_iff)

variable {P : List (String × Json) → Prop} {value : Reference → Json}

@[simp] lemma everywhere_string {s : String} : (Json.string s).Everywhere P ↔ True :=
  iff_true_intro (.string s)

@[simp] lemma everywhere_bool {b : Bool} : (Json.bool b).Everywhere P ↔ True :=
  iff_true_intro (.bool b)

@[simp] lemma everywhere_null : Json.null.Everywhere P ↔ True := iff_true_intro .null

lemma everywhere_ofOption_iff {r? : Option Reference} :
    (Json.ofOption value r?).Everywhere P ↔ ∀ r ∈ r?.toList, (value r).Everywhere P := by
  cases r? <;> simp [Json.ofOption]

/-- What holds of the fields of every object that is neither a handle nor has a field named like
that of a handle. -/
def HoldsOfPlain (P : List (String × Json) → Prop) : Prop :=
  ∀ fields : List (String × Json), fields.length ≠ 1 → handleKey ∉ fields.map Prod.fst → P fields

lemma holdsOfPlain_handleFree : HoldsOfPlain fun fields => ofHandle? (.object fields) = none :=
  fun _ hlen _ => Reference.ofHandle?_object hlen

lemma holdsOfPlain_inert :
    HoldsOfPlain fun fields => ∀ f ∈ fields, f.1 = handleKey → f.2.field? "kind" = none :=
  fun _ _ hkeys _ hf hkey => absurd (hkey ▸ List.mem_map_of_mem hf) hkeys

lemma everywhere_props_iff (hP : HoldsOfPlain P) {p : PropsSource} :
    (p.toJsonWith value).Everywhere P ↔ ∀ r ∈ p.references, (value r).Everywhere P := by
  cases p with
  | extracted r => simp [PropsSource.toJsonWith, PropsSource.references]
  | none =>
    have hempty := hP [] (by simp) (by simp)
    simp [PropsSource.toJsonWith, PropsSource.references, everywhere_object_iff, hempty]

lemma everywhere_entry_iff (hP : HoldsOfPlain P) {e : ComponentEntry} :
    (e.toJsonWith value).Everywhere P ↔ ∀ r ∈ e.references, (value r).Everywhere P := by
  rw [ComponentEntry.toJsonWith, everywhere_object_iff, and_iff_right (hP _ (by simp)
    (by simp [handleKey]))]
  simp [everywhere_ofOption_iff, everywhere_props_iff hP, ComponentEntry.references, or_imp,
    forall_and]

lemma everywhere_entries_iff (hP : HoldsOfPlain P) {components : Option (List ComponentEntry)} :
    (Json.ofOption (entriesJsonWith value) components).Everywhere P ↔
      ∀ r ∈ entriesReferences components, (value r).Everywhere P := by
  cases components with
  | none => simp [Json.ofOption, entriesReferences]
  | some entries =>
    have harray : (entriesJsonWith value entries).Everywhere P ↔
        ∀ e ∈ entries, ∀ r ∈ e.references, (value r).Everywhere P := by
      rw [entriesJsonWith, everywhere_array_iff, List.forall_mem_map]
      exact forall₂_congr fun e _ => everywhere_entry_iff hP
    rw [Json.ofOption, Option.elim, harray]
    simp only [entriesReferences, Option.getD_some, List.mem_flatMap]
    grind

lemma everywhere_sectionObject_iff (hP : HoldsOfPlain P) {name : String}
    {content : Option Reference} {components : Option (List ComponentEntry)} {j : Json} :
    (Json.object
        [("name", .string name), ("content", .ofOption value content),
          ("components", .ofOption (entriesJsonWith value) components),
          ("sections", j)]).Everywhere P ↔
      (∀ r ∈ content.toList ++ entriesReferences components, (value r).Everywhere P) ∧
        j.Everywhere P := by
  rw [everywhere_object_iff, and_iff_right (hP _ (by simp) (by simp [handleKey]))]
  simp [everywhere_ofOption_iff, everywhere_entries_iff hP, or_imp, forall_and, and_assoc]

mutual

theorem everywhere_section_iff (hP : HoldsOfPlain P) : ∀ s : Section,
    (s.toJsonWith value).Everywhere P ↔ ∀ r ∈ s.references, (value r).Everywhere P
  | ⟨_, _, _, none⟩ => by
    rw [Section.toJsonWith, everywhere_sectionObject_iff hP]
    simp [Section.references]
  | ⟨_, _, _, some sections⟩ => by
    rw [Section.toJsonWith, everywhere_sectionObject_iff hP, everywhere_array_iff,
      everywhere_sections_iff hP sections, ← List.forall_mem_append]
    rfl

theorem everywhere_sections_iff (hP : HoldsOfPlain P) : ∀ sections : List Section,
    (∀ v ∈ sectionsJsonWith value sections, v.Everywhere P) ↔
      ∀ r ∈ sectionsReferences sections, (value r).Everywhere P
  | [] => by simp [sectionsJsonWith, sectionsReferences]
  | s :: rest => by
    rw [sectionsJsonWith, List.forall_mem_cons, everywhere_section_iff hP s,
      everywhere_sections_iff hP rest, sectionsReferences, List.forall_mem_append]

end

/-- The objects of the tree itself are no handles. -/
theorem Tree.everywhere_toJsonWith_iff (hP : HoldsOfPlain P) {t : Tree} :
    (t.toJsonWith value).Everywhere P ↔ ∀ r ∈ t.references, (value r).Everywhere P := by
  obtain ⟨presentation, components, sections⟩ := t
  have hconfig : presentation.toJson.Everywhere P := by
    rw [Presentation.toJson, everywhere_object_iff]
    exact ⟨hP _ (by simp) (by simp [handleKey]), by simp⟩
  have hsections : (Json.ofOption (fun s => .array (sectionsJsonWith value s))
      sections).Everywhere P ↔
        ∀ r ∈ sectionsReferences (sections.getD []), (value r).Everywhere P := by
    cases sections with
    | none => simp [Json.ofOption, sectionsReferences]
    | some sections => exact everywhere_array_iff.trans (everywhere_sections_iff hP sections)
  rw [Tree.toJsonWith, everywhere_object_iff,
    and_iff_right (hP _ (by simp) (by simp [handleKey]))]
  simp [hconfig, hsections, everywhere_entries_iff hP, Tree.references, or_imp, forall_and]

end Tree

end StyleGuide
