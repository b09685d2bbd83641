import StyleGuide.Proofs.Props.Value
import StyleGuide.Proofs.Resolution.HandleFree

/-!
# Handles in the documentation of properties

The documentation of properties is an object whose names come from a source. No part of it is the
handle of a reference, for a descriptor has no kind. It looks like one all the same where the only
name of its properties, or of the members of a shape, is that of a handle's field.

## Main definitions

* `PropType.HandleFree`, `PropsDoc.HandleFree`: no names that could be taken for those of a handle.

## Main results

* `PropsDoc.inert_merged_toJson`: the documentation of properties is inert.
* `PropsDoc.handleFree_merged_toJson_iff`: whether anything in it looks like a handle.
-/

namespace StyleGuide

open Reference (handleKey ofHandle?)

/-! ## No handle of a reference -/

namespace Json

@[simp] lemma inert_string (s : String) : (string s).Inert := .string s

@[simp] lemma inert_bool (b : Bool) : (bool b).Inert := .bool b

/-- An object none of whose names is that of a handle's field is inert when its fields are. -/
lemma inert_object {fields : List (String × Json)} (hkeys : handleKey ∉ fields.map Prod.fst)
    (h : ∀ f ∈ fields, f.2.Inert) : (object fields).Inert :=
  .object (fun _ hf hkey => absurd (hkey ▸ List.mem_map_of_mem hf) hkeys) h

/-- Whatever the names are, a record of values without a kind is inert. -/
lemma inert_record {fields : List (String × Json)}
    (h : ∀ f ∈ fields, f.2.Inert ∧ f.2.field? "kind" = none) : (object fields).Inert :=
  .object (fun f hf _ => (h f hf).2) fun f hf => (h f hf).1

end Json

lemma DefaultValue.inert_toJson (d : DefaultValue) : d.toJson.Inert :=
  Json.inert_object (by simp [handleKey]) (by simp)

lemma EnumValue.inert_toJson (v : EnumValue) : v.toJson.Inert :=
  Json.inert_object (by simp [handleKey]) (by simp)

lemma optionalField_inert {α : Type} {name : String} {f : α → Json} {v : Option α}
    (h : ∀ a ∈ v, (f a).Inert) :
    ∀ field ∈ optionalField name f v, field.1 = name ∧ field.2.Inert := by
  cases v with
  | none => simp [optionalField]
  | some a => simpa [optionalField] using h

/-- The names of a descriptor's fields are known, and what is in them is inert. -/
lemma Descriptor.mem_fields {d : Descriptor Json} (htype : ∀ v ∈ d.type, v.Inert)
    (hflow : ∀ v ∈ d.flowType, v.Inert) {f : String × Json} (hf : f ∈ d.fields) :
    f.1 ∈ ["type", "flowType", "required", "defaultValue", "description"] ∧ f.2.Inert := by
  simp only [Descriptor.fields, List.mem_append, List.mem_singleton] at hf
  rcases hf with (((hf | hf) | rfl) | hf) | rfl
  · obtain ⟨hname, hinert⟩ := optionalField_inert htype f hf
    exact ⟨by simp [hname], hinert⟩
  · obtain ⟨hname, hinert⟩ := optionalField_inert hflow f hf
    exact ⟨by simp [hname], hinert⟩
  · simp
  · obtain ⟨hname, hinert⟩ := optionalField_inert (fun d _ => d.inert_toJson) f hf
    exact ⟨by simp [hname], hinert⟩
  · simp

/-- A descriptor is inert and has no kind. -/
lemma Descriptor.inert_fields {d : Descriptor Json} (htype : ∀ v ∈ d.type, v.Inert)
    (hflow : ∀ v ∈ d.flowType, v.Inert) :
    (Json.object d.fields).Inert ∧ (Json.object d.fields).field? "kind" = none := by
  have hmem := fun f (hf : f ∈ d.fields) => Descriptor.mem_fields htype hflow hf
  constructor
  · refine Json.inert_object (fun hkey => ?_) fun f hf => (hmem f hf).2
    obtain ⟨f, hf, hname⟩ := List.mem_map.1 hkey
    have := (hmem f hf).1
    simp [hname, handleKey] at this
  · rw [Json.field?_eq_none_iff]
    intro f hf hname
    have := (hmem f hf).1
    simp [hname] at this

mutual

theorem PropType.inert_toJson : ∀ t : PropType, t.toJson.Inert
  | .primitive _ => Json.inert_object (by simp [handleKey]) (by simp)
  | .arrayOf item =>
    Json.inert_object (by simp [handleKey]) (by simpa using item.inert_toJson)
  | .instanceOf _ => Json.inert_object (by simp [handleKey]) (by simp)
  | .enumOf values => by
    refine Json.inert_object (by simp [handleKey]) ?_
    have harray : (Json.array (values.map (·.toJson))).Inert :=
      .array (List.forall_mem_map.2 fun v _ => v.inert_toJson)
    simpa using harray
  | .enumText _ => Json.inert_object (by simp [handleKey]) (by simp)
  | .unionOf members => by
    refine Json.inert_object (by simp [handleKey]) ?_
    have harray : (Json.array (typesJson members)).Inert := .array (inert_typesJson members)
    simpa using harray
  | .unionText _ => Json.inert_object (by simp [handleKey]) (by simp)
  | .shape fields => by
    refine Json.inert_object (by simp [handleKey]) ?_
    have hrecord := Json.inert_record (inert_fieldsJson fields)
    simpa using hrecord

theorem inert_typesJson : ∀ ts : List PropType, ∀ v ∈ typesJson ts, v.Inert
  | [] => by simp [typesJson]
  | t :: rest => by
    rw [typesJson, List.forall_mem_cons]
    exact ⟨t.inert_toJson, inert_typesJson rest⟩

theorem inert_typeJson? : ∀ t? : Option PropType, ∀ v ∈ typeJson? t?, v.Inert
  | none => by simp [typeJson?]
  | some t => by simpa [typeJson?] using t.inert_toJson

theorem inert_descriptorJson : ∀ d : Descriptor PropType,
    (descriptorJson d).Inert ∧ (descriptorJson d).field? "kind" = none
  | ⟨type, flowType, _, _, _⟩ =>
    Descriptor.inert_fields (inert_typeJson? type) (inert_typeJson? flowType)

theorem inert_fieldsJson : ∀ fields : List (String × Descriptor PropType),
    ∀ f ∈ fieldsJson fields, f.2.Inert ∧ f.2.field? "kind" = none
  | [] => by simp [fieldsJson]
  | (_, d) :: rest => by
    rw [fieldsJson, List.forall_mem_cons]
    exact ⟨inert_descriptorJson d, inert_fieldsJson rest⟩

end

/-- The documentation of properties is inert, whatever the properties are called. -/
theorem PropsDoc.inert_merged_toJson (d : PropsDoc) : d.toJson.merged.Inert := by
  apply Json.Inert.merged
  refine Json.inert_object (by simp [handleKey]) ?_
  simpa using Json.inert_record (inert_fieldsJson d.props)

/-! ## Nothing that looks like a handle -/

/-- There is a name, and all names are that of a handle's field. -/
def NamesHandle (names : List String) : Prop := names ≠ [] ∧ ∀ n ∈ names, n = handleKey

/-- No shape inside a type names its members like a handle. Of the members of one name only the last
one counts. -/
inductive PropType.HandleFree : PropType → Prop
  | primitive (name : String) : HandleFree (.primitive name)
  | arrayOf {item : PropType} (h : HandleFree item) : HandleFree (.arrayOf item)
  | instanceOf (className : String) : HandleFree (.instanceOf className)
  | enumOf (values : List EnumValue) : HandleFree (.enumOf values)
  | enumText (raw : String) : HandleFree (.enumText raw)
  | unionOf {members : List PropType} (h : ∀ t ∈ members, HandleFree t) :
    HandleFree (.unionOf members)
  | unionText (raw : String) : HandleFree (.unionText raw)
  | shape {fields : List (String × PropDescriptor)} (here : ¬ NamesHandle (fields.map Prod.fst))
      (h : ∀ name d, fields.reverse.lookup name = some d → ∀ t ∈ d.types, HandleFree t) :
    HandleFree (.shape fields)

/-- Neither the properties nor the members of a shape are named like a handle. -/
def PropsDoc.HandleFree (d : PropsDoc) : Prop :=
  ¬ NamesHandle (d.props.map Prod.fst) ∧
    ∀ name p, d.props.reverse.lookup name = some p → ∀ t ∈ p.types, t.HandleFree

namespace Json

@[simp] lemma handleFree_string (s : String) : (string s).HandleFree := .string s

@[simp] lemma handleFree_bool (b : Bool) : (bool b).HandleFree := .bool b

lemma handleFree_merged_array_iff {items : List Json} :
    (array items).merged.HandleFree ↔ ∀ v ∈ items, v.merged.HandleFree := by
  rw [merged, HandleFree, everywhere_array_iff, mergedItems_eq_map, List.forall_mem_map]
  rfl

/-- An object looks like a handle where all its names are that of a handle's field. -/
lemma handleFree_merged_object_iff {fields : List (String × Json)} :
    (object fields).merged.HandleFree ↔ ¬ NamesHandle (fields.map Prod.fst) ∧
      ∀ name v, fields.reverse.lookup name = some v → v.merged.HandleFree := by
  have hhere : ofHandle? (object (mergeFields (mergedFields fields))) = none ↔
      ¬ NamesHandle (fields.map Prod.fst) := by
    rw [Reference.ofHandle?_eq_none_iff, mergeFields_eq_singleton_iff, mergedFields_eq_map]
    simp [NamesHandle]
  have hlast : ∀ f, f ∈ mergeFields (mergedFields fields) ↔
      ∃ v, fields.reverse.lookup f.1 = some v ∧ v.merged = f.2 := by
    intro f
    rw [mem_mergeFields_iff, mergedFields_eq_map, ← List.map_reverse, lookup_map,
      Option.map_eq_some_iff]
  rw [merged, HandleFree, everywhere_object_iff, hhere]
  refine and_congr_right fun _ => ⟨fun h name v hv => ?_, fun h f hf => ?_⟩
  · exact h (name, v.merged) ((hlast _).2 ⟨v, hv, rfl⟩)
  · obtain ⟨v, hv, heq⟩ := (hlast f).1 hf
    exact heq ▸ h f.1 v hv

/-- An object with known names, none given twice, looks like a handle only inside its fields. -/
lemma handleFree_merged_record_iff {fields : List (String × Json)}
    (hnodup : (fields.map Prod.fst).Nodup) (hkeys : handleKey ∉ fields.map Prod.fst) :
    (object fields).merged.HandleFree ↔ ∀ f ∈ fields, f.2.merged.HandleFree := by
  have hhere : ¬ NamesHandle (fields.map Prod.fst) := by
    rintro ⟨hne, hall⟩
    obtain ⟨n, hn⟩ := List.exists_mem_of_ne_nil _ hne
    exact hkeys (hall n hn ▸ hn)
  have hlast : ∀ f, f ∈ fields ↔ fields.reverse.lookup f.1 = some f.2 := fun f => by
    rw [← mem_mergeFields_iff, mergeFields_of_nodup hnodup]
  rw [handleFree_merged_object_iff, and_iff_right hhere]
  exact ⟨fun h f hf => h f.1 f.2 ((hlast f).1 hf), fun h name v hv => h _ ((hlast (name, v)).2 hv)⟩

end Json

lemma DefaultValue.handleFree_merged_toJson (d : DefaultValue) : d.toJson.merged.HandleFree := by
  rw [DefaultValue.toJson, Json.handleFree_merged_record_iff (by simp) (by simp [handleKey])]
  simp [Json.merged]

lemma EnumValue.handleFree_merged_toJson (v : EnumValue) : v.toJson.merged.HandleFree := by
  rw [EnumValue.toJson, Json.handleFree_merged_record_iff (by simp) (by simp [handleKey])]
  simp [Json.merged]

/-- A type is an object with a name and what the name does not say. -/
lemma handleFree_merged_named_iff {name : String} {v : Json} :
    (Json.object [("name", .string name), ("value", v)]).merged.HandleFree ↔
      v.merged.HandleFree := by
  rw [Json.handleFree_merged_record_iff (by simp) (by simp [handleKey])]
  simp [Json.merged]

lemma Descriptor.handleFree_fields_iff {d : Descriptor Json} :
    (Json.object d.fields).merged.HandleFree ↔ ∀ v ∈ d.types, v.merged.HandleFree := by
  obtain ⟨type, flowType, required, default, description⟩ := d
  have hdefault : ∀ v ∈ default, v.toJson.merged.HandleFree := fun v _ =>
    v.handleFree_merged_toJson
  rw [Json.handleFree_merged_record_iff (Descriptor.nodup_fields _)]
  · cases type <;> cases flowType <;> cases default <;>
      simp_all [Descriptor.fields, Descriptor.types, optionalField, Json.merged]
  · cases type <;> cases flowType <;> cases default <;>
      simp [Descriptor.fields, optionalField, handleKey]

/-- Of the members of one name only the last one counts. -/
lemma handleFree_members_iff {fields : List (String × PropDescriptor)}
    (h : ∀ f ∈ fields,
      (descriptorJson f.2).merged.HandleFree ↔ ∀ t ∈ f.2.types, t.HandleFree) :
    (Json.object (fieldsJson fields)).merged.HandleFree ↔ ¬ NamesHandle (fields.map Prod.fst) ∧
      ∀ name d, fields.reverse.lookup name = some d → ∀ t ∈ d.types, t.HandleFree := by
  have hlast : ∀ name d, fields.reverse.lookup name = some d →
      ((descriptorJson d).merged.HandleFree ↔ ∀ t ∈ d.types, t.HandleFree) :=
    fun name d hd => h (name, d) (mem_of_lookup_reverse hd)
  rw [Json.handleFree_merged_object_iff, fieldsJson_eq_map, ← List.map_reverse]
  simp only [lookup_map, Option.map_eq_some_iff]
  refine and_congr (by simp [NamesHandle]) ⟨fun h name d hd => ?_, ?_⟩
  · exact (hlast name d hd).1 (h name _ ⟨d, hd, rfl⟩)
  · rintro h name _ ⟨d, hd, rfl⟩
    exact (hlast name d hd).2 (h name d hd)

mutual

theorem PropType.handleFree_toJson_iff : ∀ t : PropType, t.toJson.merged.HandleFree ↔ t.HandleFree
  | .primitive name => by
    refine iff_of_true ?_ (.primitive name)
    rw [PropType.toJson, Json.handleFree_merged_record_iff (by simp) (by simp [handleKey])]
    simp [Json.merged]
  | .arrayOf item => by
    rw [PropType.toJson, handleFree_merged_named_iff, item.handleFree_toJson_iff]
    constructor
    · exact .arrayOf
    · rintro (_ | h)
      exact h
  | .instanceOf className => by
    rw [PropType.toJson, handleFree_merged_named_iff]
    exact iff_of_true (.string className) (.instanceOf className)
  | .enumOf values => by
    rw [PropType.toJson, handleFree_merged_named_iff, Json.handleFree_merged_array_iff,
      List.forall_mem_map]
    exact iff_of_true (fun v _ => v.handleFree_merged_toJson) (.enumOf values)
  | .enumText raw => by
    rw [PropType.toJson, handleFree_merged_named_iff]
    exact iff_of_true (.string raw) (.enumText raw)
  | .unionOf members => by
    rw [PropType.toJson, handleFree_merged_named_iff, Json.handleFree_merged_array_iff,
      handleFree_typesJson_iff members]
    constructor
    · exact .unionOf
    · rintro (_ | _ | _ | _ | _ | h)
      exact h
  | .unionText raw => by
    rw [PropType.toJson, handleFree_merged_named_iff]
    exact iff_of_true (.string raw) (.unionText raw)
  | .shape fields => by
    rw [PropType.toJson, handleFree_merged_named_iff,
      handleFree_members_iff (handleFree_fieldsJson_iff fields)]
    constructor
    · rintro ⟨here, h⟩
      exact .shape here h
    · rintro (_ | _ | _ | _ | _ | _ | _ | ⟨here, h⟩)
      exact ⟨here, h⟩

theorem handleFree_typesJson_iff : ∀ ts : List PropType,
    (∀ v ∈ typesJson ts, v.merged.HandleFree) ↔ ∀ t ∈ ts, t.HandleFree
  | [] => by simp [typesJson]
  | t :: rest => by
    rw [typesJson, List.forall_mem_cons, List.forall_mem_cons, t.handleFree_toJson_iff,
      handleFree_typesJson_iff rest]

theorem handleFree_typeJson?_iff : ∀ t? : Option PropType,
    (∀ v ∈ (typeJson? t?).toList, v.merged.HandleFree) ↔ ∀ t ∈ t?.toList, t.HandleFree
  | none => by simp [typeJson?]
  | some t => by simpa [typeJson?] using t.handleFree_toJson_iff

theorem handleFree_descriptorJson_iff : ∀ d : Descriptor PropType,
    (descriptorJson d).merged.HandleFree ↔ ∀ t ∈ d.types, t.HandleFree
  | ⟨type, flowType, _, _, _⟩ => by
    rw [descriptorJson, Descriptor.handleFree_fields_iff, Descriptor.types, Descriptor.types,
      List.forall_mem_append, List.forall_mem_append, handleFree_typeJson?_iff type,
      handleFree_typeJson?_iff flowType]

theorem handleFree_fieldsJson_iff : ∀ fields : List (String × Descriptor PropType),
    ∀ f ∈ fields, (descriptorJson f.2).merged.HandleFree ↔ ∀ t ∈ f.2.types, t.HandleFree
  | [] => by simp
  | (_, d) :: rest => by
    rw [List.forall_mem_cons]
    exact ⟨handleFree_descriptorJson_iff d, handleFree_fieldsJson_iff rest⟩

end

/-- The documentation of properties looks like a handle where its properties or the members of a
shape are named like one. -/
theorem PropsDoc.handleFree_merged_toJson_iff {d : PropsDoc} :
    d.toJson.merged.HandleFree ↔ d.HandleFree := by
  rw [PropsDoc.toJson, Json.handleFree_merged_record_iff (by simp) (by simp [handleKey])]
  have hmembers := handleFree_members_iff (handleFree_fieldsJson_iff d.props)
  simpa [Json.merged, PropsDoc.HandleFree] using hmembers

end StyleGuide
