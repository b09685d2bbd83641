import StyleGuide.Proofs.Json.Everywhere
import StyleGuide.Props.Doc

/-!
# The value of a document keeps the document

Every type is written as an object with a name, and with a value unless the name says everything. A
type that is known by its name alone can have any name, also that of another kind of type, and is
told from these by what is not there. So no two types are written alike, and no two documents are
where no names are taken together.

## Main definitions

* `Descriptor.types`: the types that are known of a property.
* `PropType.NamesDistinct`, `PropsDoc.NamesDistinct`: no two properties, and no two members of a
  shape, have the same name.

## Main results

* `PropType.eq_of_toJson`: types with the same value are the same.
* `PropsDoc.merged_toJson_inj`: so are documents in which names are distinct.
-/

namespace StyleGuide

/-- The types that are known of a property. -/
def Descriptor.types {τ : Type} (d : Descriptor τ) : List τ := d.type.toList ++ d.flowType.toList

lemma typesJson_eq_map (ts : List PropType) : typesJson ts = ts.map (·.toJson) := by
  induction ts with
  | nil => rfl
  | cons t ts ih => rw [typesJson, ih, List.map_cons]

lemma fieldsJson_eq_map (fields : List (String × PropDescriptor)) :
    fieldsJson fields = fields.map fun f => (f.1, descriptorJson f.2) := by
  induction fields with
  | nil => rfl
  | cons f fields ih =>
    obtain ⟨name, d⟩ := f
    rw [fieldsJson, ih, List.map_cons]

/-! ## Equal values -/

lemma EnumValue.toJson_injective : Function.Injective EnumValue.toJson := by
  rintro ⟨value, computed⟩ ⟨value', computed'⟩ h
  simpa [toJson] using h

lemma DefaultValue.toJson_injective : Function.Injective DefaultValue.toJson := by
  rintro ⟨value, computed⟩ ⟨value', computed'⟩ h
  simpa [toJson] using h

/-- Each part of a descriptor is found under its name, and is absent where there is nothing. -/
lemma Descriptor.lookup_fields (d : Descriptor Json) :
    d.fields.lookup "type" = d.type ∧ d.fields.lookup "flowType" = d.flowType ∧
      d.fields.lookup "required" = some (.bool d.required) ∧
      d.fields.lookup "defaultValue" = d.default.map (·.toJson) ∧
      d.fields.lookup "description" = some (.string d.description) := by
  obtain ⟨type, flowType, required, default, description⟩ := d
  cases type <;> cases flowType <;> cases default <;>
    simp [fields, optionalField, List.lookup_cons]

/-- Descriptors with the same fields are the same. -/
lemma Descriptor.fields_injective : Function.Injective Descriptor.fields := by
  intro d d' h
  obtain ⟨htype, hflow, hrequired, hdefault, hdescription⟩ := d.lookup_fields
  obtain ⟨htype', hflow', hrequired', hdefault', hdescription'⟩ := d'.lookup_fields
  rw [h] at htype hflow hrequired hdefault hdescription
  obtain ⟨type, flowType, required, default, description⟩ := d
  obtain ⟨type', flowType', required', default', description'⟩ := d'
  rw [Descriptor.mk.injEq]
  exact ⟨htype.symm.trans htype', hflow.symm.trans hflow',
    Json.bool.inj (Option.some.inj (hrequired.symm.trans hrequired')),
    Option.map_injective DefaultValue.toJson_injective (hdefault.symm.trans hdefault'),
    Json.string.inj (Option.some.inj (hdescription.symm.trans hdescription'))⟩

mutual

/-- A type of another kind has another name, or has no value where this one has one, or has a value
that is not of the same form. -/
theorem PropType.eq_of_toJson : ∀ t t' : PropType, t.toJson = t'.toJson → t = t'
  | .primitive name, t', h => by
    cases t' with
    | primitive name' => simpa [PropType.toJson] using h
    | _ => simp [PropType.toJson] at h
  | .arrayOf item, t', h => by
    cases t' with
    | arrayOf item' =>
      have hitem : item.toJson = item'.toJson := by simpa [PropType.toJson] using h
      rw [PropType.eq_of_toJson item item' hitem]
    | _ => simp [PropType.toJson] at h
  | .instanceOf className, t', h => by
    cases t' with
    | instanceOf className' => simpa [PropType.toJson] using h
    | _ => simp [PropType.toJson] at h
  | .enumOf values, t', h => by
    cases t' with
    | enumOf values' =>
      have hvalues : values.map (·.toJson) = values'.map (·.toJson) := by
        simpa [PropType.toJson] using h
      rw [List.map_injective_iff.2 EnumValue.toJson_injective hvalues]
    | _ => simp [PropType.toJson] at h
  | .enumText raw, t', h => by
    cases t' with
    | enumText raw' => simpa [PropType.toJson] using h
    | _ => simp [PropType.toJson] at h
  | .unionOf members, t', h => by
    cases t' with
    | unionOf members' =>
      have hmembers : typesJson members = typesJson members' := by simpa [PropType.toJson] using h
      rw [eq_of_typesJson members members' hmembers]
    | _ => simp [PropType.toJson] at h
  | .unionText raw, t', h => by
    cases t' with
    | unionText raw' => simpa [PropType.toJson] using h
    | _ => simp [PropType.toJson] at h
  | .shape fields, t', h => by
    cases t' with
    | shape fields' =>
      have hfields : fieldsJson fields = fieldsJson fields' := by simpa [PropType.toJson] using h
      rw [eq_of_fieldsJson fields fields' hfields]
    | _ => simp [PropType.toJson] at h

theorem eq_of_typesJson : ∀ ts ts' : List PropType, typesJson ts = typesJson ts' → ts = ts'
  | [], [], _ => rfl
  | [], _ :: _, h => by cases h
  | _ :: _, [], h => by cases h
  | t :: rest, t' :: rest', h => by
    obtain ⟨hhead, htail⟩ := List.cons.inj h
    rw [PropType.eq_of_toJson t t' hhead, eq_of_typesJson rest rest' htail]

theorem eq_of_typeJson? : ∀ t? t?' : Option PropType, typeJson? t? = typeJson? t?' → t? = t?'
  | none, none, _ => rfl
  | none, some _, h => by cases h
  | some _, none, h => by cases h
  | some t, some t', h => by rw [PropType.eq_of_toJson t t' (Option.some.inj h)]

theorem eq_of_descriptorJson : ∀ d d' : Descriptor PropType,
    descriptorJson d = descriptorJson d' → d = d'
  | ⟨type, flowType, _, _, _⟩, ⟨type', flowType', _, _, _⟩, h => by
    have hfields := Descriptor.fields_injective (Json.object.inj h)
    obtain ⟨htype, hflow, hrest⟩ := Descriptor.mk.inj hfields
    rw [Descriptor.mk.injEq]
    exact ⟨eq_of_typeJson? type type' htype, eq_of_typeJson? flowType flowType' hflow, hrest⟩

theorem eq_of_fieldsJson : ∀ fields fields' : List (String × Descriptor PropType),
    fieldsJson fields = fieldsJson fields' → fields = fields'
  | [], [], _ => rfl
  | [], _ :: _, h => by cases h
  | _ :: _, [], h => by cases h
  | (name, d) :: rest, (name', d') :: rest', h => by
    obtain ⟨hhead, htail⟩ := List.cons.inj h
    obtain ⟨hname, hd⟩ := Prod.mk.inj hhead
    rw [hname, eq_of_descriptorJson d d' hd, eq_of_fieldsJson rest rest' htail]

end

/-- Documents with the same value are the same, as long as the value keeps all names. -/
lemma PropsDoc.toJson_injective : Function.Injective PropsDoc.toJson := by
  rintro ⟨description, props⟩ ⟨description', props'⟩ h
  have hfields : description = description' ∧ fieldsJson props = fieldsJson props' := by
    simpa [toJson] using h
  rw [hfields.1, eq_of_fieldsJson props props' hfields.2]

/-! ## Distinct names -/

/-- No shape inside a type, at whatever depth, has two members of the same name. -/
inductive PropType.NamesDistinct : PropType → Prop
  | primitive (name : String) : NamesDistinct (.primitive name)
  | arrayOf {item : PropType} (h : NamesDistinct item) : NamesDistinct (.arrayOf item)
  | instanceOf (className : String) : NamesDistinct (.instanceOf className)
  | enumOf (values : List EnumValue) : NamesDistinct (.enumOf values)
  | enumText (raw : String) : NamesDistinct (.enumText raw)
  | unionOf {members : List PropType} (h : ∀ t ∈ members, NamesDistinct t) :
    NamesDistinct (.unionOf members)
  | unionText (raw : String) : NamesDistinct (.unionText raw)
  | shape {fields : List (String × PropDescriptor)} (here : (fields.map Prod.fst).Nodup)
      (h : ∀ f ∈ fields, ∀ t ∈ f.2.types, NamesDistinct t) : NamesDistinct (.shape fields)

/-- No two properties have the same name, and no two members of a shape inside their types. -/
structure PropsDoc.NamesDistinct (d : PropsDoc) : Prop where
  here : (d.props.map Prod.fst).Nodup
  types : ∀ p ∈ d.props, ∀ t ∈ p.2.types, t.NamesDistinct

namespace Json

@[simp] lemma namesDistinct_string (s : String) : (string s).NamesDistinct := .string s

@[simp] lemma namesDistinct_bool (b : Bool) : (bool b).NamesDistinct := .bool b

@[simp] lemma namesDistinct_array_iff {items : List Json} :
    (array items).NamesDistinct ↔ ∀ v ∈ items, v.NamesDistinct := everywhere_array_iff

@[simp] lemma namesDistinct_object_iff {fields : List (String × Json)} :
    (object fields).NamesDistinct ↔
      (fields.map Prod.fst).Nodup ∧ ∀ f ∈ fields, f.2.NamesDistinct := everywhere_object_iff

end Json

@[simp] lemma EnumValue.namesDistinct_toJson (v : EnumValue) : v.toJson.NamesDistinct := by
  simp [toJson]

@[simp] lemma DefaultValue.namesDistinct_toJson (v : DefaultValue) : v.toJson.NamesDistinct := by
  simp [toJson]

lemma Descriptor.nodup_fields (d : Descriptor Json) : (d.fields.map Prod.fst).Nodup := by
  obtain ⟨type, flowType, required, default, description⟩ := d
  cases type <;> cases flowType <;> cases default <;> simp [fields, optionalField]

lemma namesDistinct_descriptorJson {d : PropDescriptor}
    (h : ∀ t ∈ d.types, t.toJson.NamesDistinct) : (descriptorJson d).NamesDistinct := by
  obtain ⟨type, flowType, required, default, description⟩ := d
  rw [descriptorJson, Json.namesDistinct_object_iff]
  refine ⟨Descriptor.nodup_fields _, ?_⟩
  cases type <;> cases flowType <;> cases default <;>
    simp_all [Descriptor.fields, Descriptor.types, optionalField, typeJson?]

lemma namesDistinct_fieldsJson {fields : List (String × PropDescriptor)}
    (here : (fields.map Prod.fst).Nodup)
    (h : ∀ f ∈ fields, ∀ t ∈ f.2.types, t.toJson.NamesDistinct) :
    (Json.object (fieldsJson fields)).NamesDistinct := by
  rw [fieldsJson_eq_map, Json.namesDistinct_object_iff, List.map_map, List.forall_mem_map]
  exact ⟨here, fun f hf => namesDistinct_descriptorJson (h f hf)⟩

/-- Where names are distinct, no object inside the value of a type names a field twice. -/
lemma PropType.NamesDistinct.toJson {t : PropType} (h : t.NamesDistinct) :
    t.toJson.NamesDistinct := by
  induction h with
  | shape here _ ih => simp [PropType.toJson, namesDistinct_fieldsJson here ih]
  | unionOf _ ih => simpa [PropType.toJson, typesJson_eq_map] using ih
  | _ => simp_all [PropType.toJson]

lemma PropsDoc.NamesDistinct.toJson {d : PropsDoc} (h : d.NamesDistinct) :
    d.toJson.NamesDistinct := by
  have hprops := namesDistinct_fieldsJson h.here fun p hp t ht => (h.types p hp t ht).toJson
  simp [PropsDoc.toJson, hprops]

/-- Documents in which names are distinct have the same value only where they are the same. -/
theorem PropsDoc.merged_toJson_inj {d d' : PropsDoc} (h : d.NamesDistinct)
    (h' : d'.NamesDistinct) : d.toJson.merged = d'.toJson.merged ↔ d = d' := by
  rw [h.toJson.merged_eq, h'.toJson.merged_eq]
  exact PropsDoc.toJson_injective.eq_iff

/-- A document with this type deep inside the type of its only property. -/
def nestedDoc (t : PropType) : PropsDoc where
  description := "A card."
  props :=
    [("style",
      { type := some (.shape
          [("tones",
            { type := some (.arrayOf (.unionOf [t, .primitive "string"]))
              flowType := none
              required := true
              default := none
              description := "" })])
        flowType := some (.primitive "Style")
        required := false
        default := some ⟨"plain", true⟩
        description := "Looks" })]

lemma namesDistinct_nestedDoc {t : PropType} (h : t.NamesDistinct) :
    (nestedDoc t).NamesDistinct := by
  have hunion : (PropType.unionOf [t, .primitive "string"]).NamesDistinct :=
    .unionOf (List.forall_mem_cons.2 ⟨h, List.forall_mem_singleton.2 (.primitive "string")⟩)
  refine ⟨by simp [nestedDoc], ?_⟩
  simp only [nestedDoc, Descriptor.types, List.forall_mem_singleton]
  refine List.forall_mem_cons.2 ⟨.shape (by simp) ?_, List.forall_mem_singleton.2 (.primitive _)⟩
  simpa [Descriptor.types] using PropType.NamesDistinct.arrayOf hunion

/-- An enumeration without literals is told from a type that is only called like one. -/
theorem PropsDoc.merged_toJson_nestedDoc_ne :
    (nestedDoc (.enumOf [])).NamesDistinct ∧ (nestedDoc (.primitive "enum")).NamesDistinct ∧
      (nestedDoc (.enumOf [])).toJson.merged ≠ (nestedDoc (.primitive "enum")).toJson.merged := by
  have henum := namesDistinct_nestedDoc (.enumOf [])
  have hprimitive := namesDistinct_nestedDoc (.primitive "enum")
  refine ⟨henum, hprimitive, ?_⟩
  rw [ne_eq, PropsDoc.merged_toJson_inj henum hprimitive]
  simp [nestedDoc]

end StyleGuide
