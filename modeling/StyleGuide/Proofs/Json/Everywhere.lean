import StyleGuide.Proofs.Json.Merge

/-!
# What holds of every object inside a value

An object that is read or built names no field twice, at whatever depth it stands. The values of
which this holds are those that taking repeated names together leaves as they are.

## Main definitions

* `Json.Everywhere`: all objects inside a value have fields of a kind.
* `Json.NamesDistinct`: no object inside a value names a field twice.

## Main results

* `Json.namesDistinct_iff`: taking repeated names together changes nothing in such a value, and in
  no other one.
-/

namespace StyleGuide.Json

/-- The fields of every object inside a value satisfy `P`. -/
inductive Everywhere (P : List (String × Json) → Prop) : Json → Prop
  | null : Everywhere P .null
  | bool (b : Bool) : Everywhere P (.bool b)
  | int (n : Int) : Everywhere P (.int n)
  | decimal (text : String) : Everywhere P (.decimal text)
  | string (s : String) : Everywhere P (.string s)
  | array {items : List Json} (h : ∀ v ∈ items, Everywhere P v) : Everywhere P (.array items)
  | object {fields : List (String × Json)} (here : P fields)
      (h : ∀ f ∈ fields, Everywhere P f.2) : Everywhere P (.object fields)

/-- No object inside a value names a field twice. -/
def NamesDistinct (v : Json) : Prop := v.Everywhere fun fields => (fields.map Prod.fst).Nodup

variable {P : List (String × Json) → Prop} {items : List Json} {fields : List (String × Json)}
  {v : Json}

lemma everywhere_array_iff : (array items).Everywhere P ↔ ∀ v ∈ items, v.Everywhere P := by
  constructor
  · rintro (_ | _ | _ | _ | _ | h)
    exact h
  · exact .array

lemma everywhere_object_iff :
    (object fields).Everywhere P ↔ P fields ∧ ∀ f ∈ fields, f.2.Everywhere P := by
  constructor
  · intro h
    cases h with
    | object here h => exact ⟨here, h⟩
  · rintro ⟨here, h⟩
    exact .object here h

/-! ## Fields with repeated names -/

lemma mergedItems_eq_map (items : List Json) : mergedItems items = items.map merged := by
  induction items with
  | nil => rfl
  | cons v items ih => rw [mergedItems, ih, List.map_cons]

lemma mergedFields_eq_map (fields : List (String × Json)) :
    mergedFields fields = fields.map fun f => (f.1, f.2.merged) := by
  induction fields with
  | nil => rfl
  | cons f fields ih => rw [mergedFields, ih, List.map_cons]

lemma field?_eq_none_iff {name : String} :
    (object fields).field? name = none ↔ ∀ f ∈ fields, f.1 ≠ name := by
  rw [field?, List.lookup_eq_none_iff]
  exact forall₂_congr fun f _ => by rw [bne_iff_ne, ne_comm]

/-- A field of a merged object is a field of the object. -/
lemma exists_of_mem_merged {f : String × Json} (h : f ∈ mergeFields (mergedFields fields)) :
    ∃ f' ∈ fields, f = (f'.1, f'.2.merged) := by
  have hmem := mem_of_mem_mergeFields h
  rw [mergedFields_eq_map, List.mem_map] at hmem
  obtain ⟨f', hf', rfl⟩ := hmem
  exact ⟨f', hf', rfl⟩

/-- Taking repeated names together leaves the last value of each. -/
lemma field?_merged_object {name : String} :
    (object fields).merged.field? name = (fields.reverse.lookup name).map merged := by
  rw [merged, field?, mergeFields_eq_lastValues, lookup_lastValues, mergedFields_eq_map,
    ← List.map_reverse, lookup_map]

lemma field?_merged {name : String} (h : v.field? name = none) : v.merged.field? name = none := by
  cases v with
  | object fields =>
    rw [field?_eq_none_iff] at h
    rw [merged, field?_eq_none_iff]
    intro f hf
    obtain ⟨f', hf', rfl⟩ := exists_of_mem_merged hf
    exact h f' hf'
  | _ => rfl

/-! ## Values without repeated names -/

/-- Where no name is given twice, taking repeated names together changes nothing. -/
lemma NamesDistinct.merged_eq (h : v.NamesDistinct) : v.merged = v := by
  unfold NamesDistinct at h
  induction h with
  | array _ ih =>
    rw [merged, mergedItems_eq_map, List.map_congr_left ih, List.map_id']
  | object here _ ih =>
    rw [merged, mergedFields_eq_map, List.map_congr_left fun f hf => by rw [ih f hf], List.map_id',
      mergeFields_of_nodup here]
  | _ => rfl

mutual

/-- Taking repeated names together leaves none of them. -/
theorem namesDistinct_merged : ∀ v : Json, v.merged.NamesDistinct
  | .array items => everywhere_array_iff.2 (namesDistinct_mergedItems items)
  | .object fields => by
    rw [merged]
    refine everywhere_object_iff.2 ⟨nodup_mergeFields _, fun f hf => ?_⟩
    exact namesDistinct_mergedFields fields f (mem_of_mem_mergeFields hf)
  | .null => .null
  | .bool b => .bool b
  | .int n => .int n
  | .decimal text => .decimal text
  | .string s => .string s

theorem namesDistinct_mergedItems : ∀ items : List Json,
    ∀ v ∈ mergedItems items, v.NamesDistinct
  | [] => by simp [mergedItems]
  | v :: rest => by
    rw [mergedItems, List.forall_mem_cons]
    exact ⟨namesDistinct_merged v, namesDistinct_mergedItems rest⟩

theorem namesDistinct_mergedFields : ∀ fields : List (String × Json),
    ∀ f ∈ mergedFields fields, f.2.NamesDistinct
  | [] => by simp [mergedFields]
  | (_, v) :: rest => by
    rw [mergedFields, List.forall_mem_cons]
    exact ⟨namesDistinct_merged v, namesDistinct_mergedFields rest⟩

end

/-- The values without repeated names are those that stay what they are. -/
theorem namesDistinct_iff : v.NamesDistinct ↔ v.merged = v :=
  ⟨NamesDistinct.merged_eq, fun h => h ▸ namesDistinct_merged v⟩

end StyleGuide.Json
