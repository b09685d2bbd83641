import Mathlib.Data.List.Basic
import Mathlib.Data.List.Induction
import Mathlib.Data.List.Nodup
import Mathlib.Tactic.Common
import StyleGuide.Json.Basic

/-!
# Fields with repeated names

Taking the fields of an object together leaves each name once, with the value that it has last.

## Main definitions

* `lastValues`: each name once, with the value that it has last.

## Main results

* `lookup_lastValues`: of each name the last value is found.
* `Json.mergeFields_eq_lastValues`: what taking repeated names together leaves.
* `Json.mem_mergeFields_iff`: the fields that are left are the last ones of their names.
* `Json.mergeFields_of_nodup`: where no name is given twice, nothing changes.
* `Json.mergeFields_eq_singleton_iff`: a single field is left when all fields have one name.
-/

namespace StyleGuide

/-! ## The last value of a name -/

/-- Each name once, at its first place, with the value that it has last. -/
def lastValues {α : Type} (fields : List (String × α)) : List (String × α) :=
  (fields.map Prod.fst).eraseDups.filterMap fun name =>
    (fields.reverse.lookup name).map fun value => (name, value)

lemma lookup_cons_eq {κ α : Type} [BEq κ] [LawfulBEq κ] [DecidableEq κ] {name k : κ} {a : α}
    {fields : List (κ × α)} :
    ((k, a) :: fields).lookup name = if name = k then some a else fields.lookup name := by
  rw [List.lookup_cons]
  by_cases hk : name = k
  · simp [hk]
  · rw [beq_false_of_ne hk, if_neg hk]

section LastValues

variable {α β : Type} {fields : List (String × α)} {name : String}

/-- What is found last of a name is there. -/
lemma mem_of_lookup_reverse {a : α} (h : fields.reverse.lookup name = some a) :
    (name, a) ∈ fields := by
  obtain ⟨after, before, heq, -⟩ := List.lookup_eq_some_iff.1 h
  exact List.mem_reverse.1 (by simp [heq])

/-- A name that is given has a last value. -/
lemma exists_lookup_reverse (h : name ∈ fields.map Prod.fst) :
    ∃ a, fields.reverse.lookup name = some a := by
  obtain ⟨p, hp, rfl⟩ := List.mem_map.1 h
  exact Option.isSome_iff_exists.1
    (List.lookup_isSome_iff.2 ⟨p, List.mem_reverse.2 hp, beq_self_eq_true _⟩)

lemma lookup_reverse_of_not_mem (h : name ∉ fields.map Prod.fst) :
    fields.reverse.lookup name = none := by
  rw [List.lookup_eq_none_iff]
  intro p hp
  rw [bne_iff_ne]
  rintro rfl
  exact h (List.mem_map_of_mem (List.mem_reverse.1 hp))

/-- Where no name is given twice, each value is found. -/
lemma lookup_eq_some_iff_mem (h : (fields.map Prod.fst).Nodup) {a : α} :
    fields.lookup name = some a ↔ (name, a) ∈ fields := by
  induction fields with
  | nil => simp
  | cons p fields ih =>
    obtain ⟨k, v⟩ := p
    simp only [List.map_cons, List.nodup_cons] at h
    rw [lookup_cons_eq, List.mem_cons, Prod.mk.injEq]
    by_cases hk : name = k
    · subst hk
      have hother : (name, a) ∉ fields := fun hmem => h.1 (List.mem_map_of_mem hmem)
      simp [hother, eq_comm]
    · simp [hk, ih h.2]

lemma lookup_reverse_cons {k : String} {a : α} :
    ((k, a) :: fields).reverse.lookup name =
      (fields.reverse.lookup name).or (if name = k then some a else none) := by
  rw [List.reverse_cons, List.lookup_append, lookup_cons_eq, List.lookup_nil]

/-- The first value of a name that is given once is the last one. -/
lemma lookup_reverse_of_count_le_one (h : (fields.map Prod.fst).count name ≤ 1) :
    fields.reverse.lookup name = fields.lookup name := by
  induction fields with
  | nil => rfl
  | cons p fields ih =>
    obtain ⟨k, a⟩ := p
    rw [lookup_reverse_cons, lookup_cons_eq]
    by_cases hk : name = k
    · subst hk
      rw [List.map_cons, List.count_cons_self] at h
      have hmem : name ∉ fields.map Prod.fst := List.count_eq_zero.1 (by omega)
      simp [lookup_reverse_of_not_mem hmem]
    · rw [List.map_cons, List.count_cons_of_ne (Ne.symm hk)] at h
      simp [ih h, hk]

lemma lookup_map (f : α → β) (fields : List (String × α)) (name : String) :
    (fields.map fun p => (p.1, f p.2)).lookup name = (fields.lookup name).map f := by
  induction fields with
  | nil => rfl
  | cons p fields ih =>
    rw [List.map_cons, List.lookup_cons, List.lookup_cons, ih]
    cases name == p.1 <;> rfl

lemma nodup_eraseDups [BEq α] [LawfulBEq α] (xs : List α) : xs.eraseDups.Nodup := by
  match xs with
  | [] => simp
  | x :: xs =>
    rw [List.eraseDups_cons, List.nodup_cons, List.mem_eraseDups]
    exact ⟨by simp, nodup_eraseDups _⟩
termination_by xs.length
decreasing_by exact Nat.lt_succ_of_le (List.length_filter_le _ _)

lemma eraseDups_eq_self [BEq α] [LawfulBEq α] {xs : List α} (h : xs.Nodup) :
    xs.eraseDups = xs := by
  induction h with
  | nil => simp
  | cons hx _ ih =>
    rw [List.eraseDups_cons, List.filter_eq_self.2 fun y hy => by simpa using (hx y hy).symm, ih]

lemma map_fst_lastValues :
    (lastValues fields).map Prod.fst = (fields.map Prod.fst).eraseDups := by
  rw [lastValues, List.map_filterMap]
  calc (fields.map Prod.fst).eraseDups.filterMap _
      = (fields.map Prod.fst).eraseDups.filterMap some :=
        List.filterMap_congr fun name hname => by
          obtain ⟨a, ha⟩ := exists_lookup_reverse (List.mem_eraseDups.1 hname)
          rw [ha]
          rfl
    _ = (fields.map Prod.fst).eraseDups := List.filterMap_some

/-- Nothing is lost just where no name is given twice. -/
theorem lastValues_eq_self_iff : lastValues fields = fields ↔ (fields.map Prod.fst).Nodup := by
  constructor
  · intro h
    rw [← h, map_fst_lastValues]
    exact nodup_eraseDups _
  · intro h
    have hreverse : (fields.reverse.map Prod.fst).Nodup := by
      rwa [List.map_reverse, List.nodup_reverse]
    rw [lastValues, eraseDups_eq_self h, List.filterMap_map]
    calc fields.filterMap _
        = fields.filterMap some := List.filterMap_congr fun p hp => by
          rw [Function.comp_apply, (lookup_eq_some_iff_mem hreverse).2 (List.mem_reverse.2 hp)]
          rfl
      _ = fields := List.filterMap_some

/-- The values do not matter for which of them is kept. -/
lemma lastValues_map (f : α → β) :
    lastValues (fields.map fun p => (p.1, f p.2)) =
      (lastValues fields).map fun p => (p.1, f p.2) := by
  rw [lastValues, lastValues, List.map_filterMap, List.map_map]
  refine congrArg₂ List.filterMap (funext fun name => ?_) rfl
  rw [← List.map_reverse, lookup_map, Option.map_map, Option.map_map]
  rfl

lemma lookup_filterMap (value : String → Option α) (names : List String) :
    (names.filterMap fun n => (value n).map fun a => (n, a)).lookup name =
      if name ∈ names then value name else none := by
  induction names with
  | nil => rfl
  | cons n names ih =>
    by_cases hname : name = n
    · subst hname
      cases hn : value name with
      | none => simp [hn, ih]
      | some a => simp [hn]
    · cases hn : value n with
      | none => simp [hn, ih, hname]
      | some a => simp [hn, ih, hname, lookup_cons_eq]

/-- Of each name the last value is found. -/
theorem lookup_lastValues : (lastValues fields).lookup name = fields.reverse.lookup name := by
  rw [lastValues, lookup_filterMap]
  split_ifs with hname
  · rfl
  · rw [List.mem_eraseDups] at hname
    exact (lookup_reverse_of_not_mem hname).symm

example : lastValues [("a", 1), ("b", 2), ("a", 3)] = [("a", 3), ("b", 2)] := by decide

end LastValues

namespace Json

variable {fields : List (String × Json)} {name : String} {value : Json}

/-! ## Setting one field -/

lemma setField_of_not_mem (h : name ∉ fields.map Prod.fst) :
    setField name value fields = fields ++ [(name, value)] := by
  induction fields with
  | nil => rfl
  | cons f fields ih =>
    obtain ⟨k, v⟩ := f
    simp only [List.map_cons, List.mem_cons, not_or] at h
    rw [setField, if_neg (Ne.symm h.1), ih h.2, List.cons_append]

lemma map_fst_setField_of_mem (h : name ∈ fields.map Prod.fst) :
    (setField name value fields).map Prod.fst = fields.map Prod.fst := by
  induction fields with
  | nil => cases h
  | cons f fields ih =>
    obtain ⟨k, v⟩ := f
    rw [setField]
    split_ifs with hk
    · rfl
    · rw [List.map_cons, List.map_cons, ih ((List.mem_cons.1 h).resolve_left (Ne.symm hk))]

lemma nodup_setField (h : (fields.map Prod.fst).Nodup) :
    ((setField name value fields).map Prod.fst).Nodup := by
  by_cases hname : name ∈ fields.map Prod.fst
  · rwa [map_fst_setField_of_mem hname]
  · rw [setField_of_not_mem hname, List.map_append, List.nodup_append]
    exact ⟨h, by simp, fun k hk k' hk' => by grind⟩

/-- The other fields stay what they are. -/
lemma mem_setField_iff (h : (fields.map Prod.fst).Nodup) {f : String × Json} :
    f ∈ setField name value fields ↔ f = (name, value) ∨ f.1 ≠ name ∧ f ∈ fields := by
  induction fields with
  | nil => simp [setField]
  | cons g fields ih =>
    obtain ⟨k, v⟩ := g
    simp only [List.map_cons, List.nodup_cons] at h
    obtain ⟨hk, hfields⟩ := h
    rw [setField]
    split
    · subst k
      have hother : ∀ f ∈ fields, f.1 ≠ name := by
        rintro f hf rfl
        exact hk (List.mem_map_of_mem hf)
      grind
    · grind

/-! ## Taking repeated names together -/

@[simp] lemma mergeFields_nil : mergeFields [] = [] := rfl

lemma mergeFields_append_singleton {f : String × Json} :
    mergeFields (fields ++ [f]) = setField f.1 f.2 (mergeFields fields) := by
  rw [mergeFields, List.foldl_append]
  rfl

lemma nodup_mergeFields (fields : List (String × Json)) :
    ((mergeFields fields).map Prod.fst).Nodup := by
  induction fields using List.reverseRecOn with
  | nil => simp
  | append_singleton fields f ih =>
    rw [mergeFields_append_singleton]
    exact nodup_setField ih

/-- The fields that are left are the last ones of their names. -/
theorem mem_mergeFields_iff {f : String × Json} :
    f ∈ mergeFields fields ↔ fields.reverse.lookup f.1 = some f.2 := by
  -- The last field is the one that is set at the end, and the one that is found first.
  induction fields using List.reverseRecOn with
  | nil => simp
  | append_singleton fields g ih =>
    rw [mergeFields_append_singleton, mem_setField_iff (nodup_mergeFields fields), ih,
      List.reverse_append, List.reverse_singleton, List.singleton_append, List.lookup_cons]
    obtain ⟨k, v⟩ := f
    by_cases hk : k = g.1 <;> grind

/-- Where no name is given twice, there is nothing to take together. -/
lemma mergeFields_of_nodup (h : (fields.map Prod.fst).Nodup) : mergeFields fields = fields := by
  induction fields using List.reverseRecOn with
  | nil => rfl
  | append_singleton fields f ih =>
    rw [List.map_append, List.nodup_append] at h
    obtain ⟨hfields, -, hdisjoint⟩ := h
    rw [mergeFields_append_singleton, ih hfields, setField_of_not_mem]
    intro hmem
    exact hdisjoint _ hmem _ (by simp) rfl

lemma mem_of_mem_mergeFields {f : String × Json} (h : f ∈ mergeFields fields) : f ∈ fields :=
  mem_of_lookup_reverse (mem_mergeFields_iff.1 h)

/-- No name is lost. -/
lemma mem_map_fst_mergeFields_iff :
    name ∈ (mergeFields fields).map Prod.fst ↔ name ∈ fields.map Prod.fst := by
  constructor
  · intro h
    obtain ⟨f, hf, rfl⟩ := List.mem_map.1 h
    exact List.mem_map_of_mem (mem_of_mem_mergeFields hf)
  · intro h
    obtain ⟨f, hf, rfl⟩ := List.mem_map.1 h
    obtain ⟨v, hv⟩ := exists_lookup_reverse (List.mem_map_of_mem hf)
    exact List.mem_map.2 ⟨(f.1, v), mem_mergeFields_iff.2 hv, rfl⟩

/-- A single field is left when all fields have one name. -/
theorem mergeFields_eq_singleton_iff :
    (∃ v, mergeFields fields = [(name, v)]) ↔
      fields ≠ [] ∧ ∀ n ∈ fields.map Prod.fst, n = name := by
  have hnames : ∀ n, n ∈ (mergeFields fields).map Prod.fst ↔ n ∈ fields.map Prod.fst := fun _ =>
    mem_map_fst_mergeFields_iff
  constructor
  · rintro ⟨v, hv⟩
    simp only [hv, List.map_cons, List.map_nil, List.mem_singleton] at hnames
    refine ⟨?_, fun n hn => (hnames n).2 hn⟩
    rintro rfl
    cases hv
  · rintro ⟨hne, hall⟩
    have hnodup := nodup_mergeFields fields
    match hmerged : mergeFields fields with
    | [] =>
      obtain ⟨f, hf⟩ := List.exists_mem_of_ne_nil fields hne
      have := (hnames f.1).2 (List.mem_map_of_mem hf)
      simp [hmerged] at this
    | [(k, v)] =>
      have hk : k = name := hall k ((hnames k).1 (by simp [hmerged]))
      exact ⟨v, by rw [hk]⟩
    | (k, v) :: (k', v') :: rest =>
      have hk : k = name := hall k ((hnames k).1 (by simp [hmerged]))
      have hk' : k' = name := hall k' ((hnames k').1 (by simp [hmerged]))
      simp [hmerged, hk, hk'] at hnodup

/-- The names that are left stand in the order in which they first occur. -/
lemma map_fst_mergeFields (fields : List (String × Json)) :
    (mergeFields fields).map Prod.fst = (fields.map Prod.fst).eraseDups := by
  induction fields using List.reverseRecOn with
  | nil => rfl
  | append_singleton fields f ih =>
    rw [mergeFields_append_singleton, List.map_append, List.eraseDups_append]
    by_cases hmem : f.1 ∈ fields.map Prod.fst
    · rw [map_fst_setField_of_mem (mem_map_fst_mergeFields_iff.2 hmem), ih]
      simp [List.removeAll, hmem]
    · rw [setField_of_not_mem (mt mem_map_fst_mergeFields_iff.1 hmem), List.map_append, ih]
      simp [List.removeAll, hmem, List.eraseDups_cons]

/-- Taking repeated names together leaves each name once, with the value that it has last. -/
theorem mergeFields_eq_lastValues (fields : List (String × Json)) :
    mergeFields fields = lastValues fields := by
  rw [lastValues, ← map_fst_mergeFields, List.filterMap_map]
  symm
  calc (mergeFields fields).filterMap _
      = (mergeFields fields).filterMap some := List.filterMap_congr fun f hf => by
        rw [Function.comp_apply, mem_mergeFields_iff.1 hf]
        rfl
    _ = mergeFields fields := List.filterMap_some

end Json

end StyleGuide
