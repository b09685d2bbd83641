import Mathlib.Data.List.Induction
import StyleGuide.Path.Normal
import StyleGuide.Proofs.Text.Cut

/-!
# What a normal path leads to

Reading one path from another puts its parts behind those of the other, unless it is absolute. A
normal path has the parts that are left when every `..` has taken back a name, and it does not
matter whether that is done at once or for a part of the way first.

## Main definitions

* `Path.parts`: the components that say where a path leads.
* `Path.IsStack`: what the components of a normal path look like, the last one first.

## Main results

* `Path.parts_join`: the parts of a path that is read from another one.
* `Path.normalize_join_normalize`: a path can be normalized before it is read from another one.
* `Path.isAbsolute_normalize`: the normal form of an absolute path is absolute.
-/

namespace StyleGuide.Path

/-! ## The parts of a path -/

/-- The components that say where a path leads. A leading `.` does not. -/
def parts (p : Path) : List Component :=
  (if p.isAbsolute then [.root] else []) ++ p.segments.filterMap Component.ofSegment?

lemma ofSegment?_nil : Component.ofSegment? [] = none := rfl

lemma ofSegment?_ne_root (s : Bytes) : Component.ofSegment? s ≠ some .root := by
  unfold Component.ofSegment?
  split
  · simp
  · split <;> simp

/-- What is empty or made of one dot or two is no name. -/
lemma ofSegment?_eq_name_iff {s n : Bytes} :
    Component.ofSegment? s = some (.name n) ↔
      s = n ∧ s ≠ [] ∧ s ≠ [dot] ∧ s ≠ [dot, dot] := by
  unfold Component.ofSegment?
  grind

/-- The names on the way of a path are pieces of it. -/
lemma name_mem_parts_iff {p : Path} {n : Bytes} :
    .name n ∈ p.parts ↔ n ∈ p.segments ∧ n ≠ [] ∧ n ≠ [dot] ∧ n ≠ [dot, dot] := by
  have hroot : Component.name n ∉ (if p.isAbsolute then [Component.root] else []) := by
    split <;> simp
  rw [parts, List.mem_append, or_iff_right hroot, List.mem_filterMap]
  simp only [ofSegment?_eq_name_iff]
  grind

/-- A leading `.` or `/` is no name. -/
lemma name_mem_components_iff {p : Path} {n : Bytes} :
    .name n ∈ p.components ↔ .name n ∈ p.parts := by
  unfold components parts
  grind

@[simp] lemma parts_nil : (⟨[]⟩ : Path).parts = [] := rfl

lemma normalComponents_components (p : Path) :
    normalComponents p.components = normalComponents p.parts := by
  unfold components parts
  split
  · rfl
  · split <;> rfl

lemma normalize_eq (p : Path) : p.normalize = ofComponents (normalComponents p.parts) := by
  rw [normalize, normalComponents_components]

lemma normalize_congr {p q : Path} (h : p.parts = q.parts) : p.normalize = q.normalize := by
  rw [normalize_eq, normalize_eq, h]

lemma isAbsolute_iff (p : Path) : p.isAbsolute = true ↔ p.parts.head? = some .root := by
  unfold parts
  split_ifs with h
  · simpa
  · simp only [h, List.nil_append, false_iff, Bool.false_eq_true]
    intro hhead
    obtain ⟨s, -, hs⟩ := List.mem_filterMap.1 (List.mem_of_head? hhead)
    exact ofSegment?_ne_root s hs

/-! ## Reading a path from another one -/

lemma isAbsolute_join_eq (p q : Path) : (p.join q).isAbsolute = (p.isAbsolute || q.isAbsolute) := by
  unfold join
  split
  · simp_all
  next hq =>
    split
    · obtain ⟨_ | ⟨b, bs⟩⟩ := p <;> simp_all [isAbsolute]
    · obtain ⟨_ | ⟨b, bs⟩⟩ := p <;> simp_all [isAbsolute]

/-- The pieces of a path that is read from another one stand behind those of the other. -/
lemma filterMap_segments_join {p q : Path} (hq : q.isAbsolute = false) :
    (p.join q).segments.filterMap Component.ofSegment? =
      p.segments.filterMap Component.ofSegment? ++ q.segments.filterMap Component.ofSegment? := by
  rw [join, hq, if_neg (by simp)]
  by_cases hp : p.bytes = []
  · simp [segments, hp, cut, ofSegment?_nil]
  by_cases hlast : p.bytes.getLast? = some slash
  · obtain ⟨front, hfront⟩ := List.getLast?_eq_some_iff.1 hlast
    rw [if_pos (.inr hlast)]
    simp only [segments, hfront, List.append_assoc, List.cons_append, List.nil_append]
    rw [cut_append_cons _ _ (by simp), cut_append_cons _ _ (by simp)]
    simp [cut, ofSegment?_nil]
  · rw [if_neg (by simp [hp, hlast])]
    simp only [segments]
    rw [cut_append_cons _ _ (by simp), List.filterMap_append]

/-- An absolute path leads to the same place from everywhere; the parts of another one stand behind
those of the path that it is read from. -/
theorem parts_join (p q : Path) :
    (p.join q).parts = if q.isAbsolute then q.parts else p.parts ++ q.parts := by
  split_ifs with hq
  · rw [join, if_pos hq]
  · rw [Bool.not_eq_true] at hq
    rw [parts, isAbsolute_join_eq, filterMap_segments_join hq, parts, parts, hq]
    simp

lemma parts_join_nil (p : Path) : (p.join ⟨[]⟩).parts = p.parts := by
  rw [parts_join, if_neg (by decide), parts_nil, List.append_nil]

lemma isAbsolute_congr {p q : Path} (h : p.parts = q.parts) : p.isAbsolute = q.isAbsolute := by
  rw [Bool.eq_iff_iff, isAbsolute_iff, isAbsolute_iff, h]

/-- Where a path leads depends on the parts of both paths only. -/
lemma parts_join_congr {p p' q q' : Path} (hp : p.parts = p'.parts) (hq : q.parts = q'.parts) :
    (p.join q).parts = (p'.join q').parts := by
  rw [parts_join, parts_join, isAbsolute_congr hq, hp, hq]

/-! ## Normal components -/

/-- A component that is written as itself. -/
def IsPlain (c : Component) : Prop := (⟨c.bytes⟩ : Path).parts = [c]

lemma isPlain_root : IsPlain .root := rfl

lemma isPlain_parent : IsPlain .parent := rfl

lemma isPlain_of_ofSegment? {s : Bytes} {c : Component} (hs : slash ∉ s)
    (h : Component.ofSegment? s = some c) : IsPlain c := by
  have habsolute : (⟨s⟩ : Path).isAbsolute = false := by
    cases s with
    | nil => rfl
    | cons b s => simpa [isAbsolute] using fun hb : b = slash => hs (hb ▸ List.mem_cons_self)
  have hsegments : (⟨s⟩ : Path).segments = [s] := by
    refine cut_eq_singleton fun b hb => ?_
    have : b ≠ slash := fun hslash => hs (hslash ▸ hb)
    simpa using this
  have hparts : (⟨s⟩ : Path).parts = [c] := by simp [parts, habsolute, hsegments, h]
  unfold Component.ofSegment? at h
  split at h
  · cases h
  · split at h
    · cases h
      exact isPlain_parent
    · cases h
      exact hparts

lemma isPlain_of_mem_parts {p : Path} {c : Component} (h : c ∈ p.parts) : IsPlain c := by
  rcases List.mem_append.1 h with h | h
  · split at h
    · cases List.mem_singleton.1 h
      exact isPlain_root
    · cases h
  · obtain ⟨s, hs, hc⟩ := List.mem_filterMap.1 h
    refine isPlain_of_ofSegment? (fun hslash => ?_) hc
    simpa using not_mem_of_mem_cut _ hs hslash

lemma isAbsolute_of_isPlain {c : Component} (h : IsPlain c) (hc : c ≠ .root) :
    (⟨c.bytes⟩ : Path).isAbsolute = false := by
  rw [← Bool.not_eq_true, isAbsolute_iff, h]
  simpa using hc

/-- Plain components are the parts of the path that is written with them. -/
theorem parts_ofComponents {cs : List Component} (h : ∀ c ∈ cs, IsPlain c)
    (hroot : ∀ c ∈ cs.tail, c ≠ .root) : (ofComponents cs).parts = cs := by
  induction cs using List.reverseRecOn with
  | nil => rfl
  | append_singleton cs c ih =>
    simp only [List.mem_append, List.mem_singleton, or_imp, forall_and, forall_eq] at h
    have hofComponents : ofComponents (cs ++ [c]) = (ofComponents cs).join ⟨c.bytes⟩ := by
      simp [ofComponents]
    rw [hofComponents, parts_join]
    cases cs with
    | nil =>
      have hparts : (⟨c.bytes⟩ : Path).parts = [c] := h.2
      simp [hparts, ofComponents]
    | cons d cs =>
      simp only [List.cons_append, List.tail_cons, List.mem_append, List.mem_singleton, or_imp,
        forall_and, forall_eq] at hroot
      rw [isAbsolute_of_isPlain h.2 hroot.2, if_neg (by simp), ih h.1 hroot.1, h.2]

/-- Plain components, the last one first, with the root at the bottom if there is one. -/
structure IsStack (absolute : Bool) (stack : List Component) : Prop where
  plain : ∀ c ∈ stack, IsPlain c
  upper : ∀ c ∈ stack.dropLast, c ≠ .root
  bottom : stack.getLast? = some .root ↔ absolute = true

lemma IsStack.foldComponent {absolute : Bool} {stack : List Component} (h : IsStack absolute stack)
    {c : Component} (hc : IsPlain c) (hroot : c ≠ .root) :
    IsStack absolute (foldComponent stack c) := by
  obtain ⟨hplain, hupper, hbottom⟩ := h
  have hpush : IsStack absolute (c :: stack) := by
    refine ⟨by simpa using ⟨hc, hplain⟩, ?_, ?_⟩
    · cases stack <;> simp_all
    · cases stack <;> simp_all
  have hpop : ∀ n rest, stack = .name n :: rest → IsStack absolute rest := by
    rintro n rest rfl
    refine ⟨fun d hd => hplain d (List.mem_cons_of_mem _ hd), fun d hd => ?_, ?_⟩
    · cases rest <;> simp_all
    · cases rest <;> simp_all
  cases c with
  | root => exact absurd rfl hroot
  | current => exact ⟨hplain, hupper, hbottom⟩
  | name n => exact hpush
  | parent =>
    unfold Path.foldComponent
    simp only
    split
    · exact hpop _ _ rfl
    · exact ⟨hplain, hupper, hbottom⟩
    · exact hpush

lemma IsStack.foldl {absolute : Bool} {stack : List Component} (h : IsStack absolute stack)
    {cs : List Component} (hcs : ∀ c ∈ cs, IsPlain c) (hroot : .root ∉ cs) :
    IsStack absolute (cs.foldl Path.foldComponent stack) := by
  induction cs generalizing stack with
  | nil => exact h
  | cons c cs ih =>
    simp only [List.mem_cons, not_or, forall_eq_or_imp] at hcs hroot
    exact ih (h.foldComponent hcs.1 (Ne.symm hroot.1)) hcs.2 hroot.2

/-- The components of a normal path. -/
lemma isStack_parts (p : Path) : IsStack p.isAbsolute (p.parts.foldl Path.foldComponent []) := by
  have hrest : .root ∉ p.segments.filterMap Component.ofSegment? := by
    simpa using fun s _ => ofSegment?_ne_root s
  have hplain : ∀ c ∈ p.segments.filterMap Component.ofSegment?, IsPlain c := fun c hc =>
    isPlain_of_mem_parts (List.mem_append_right _ hc)
  unfold parts
  rw [List.foldl_append]
  split_ifs with h
  · rw [h]
    have hstart : IsStack true [.root] := ⟨by simp [isPlain_root], by simp, by simp⟩
    exact hstart.foldl hplain hrest
  · rw [Bool.not_eq_true] at h
    rw [h]
    have hstart : IsStack false [] := ⟨by simp, by simp, by simp⟩
    exact hstart.foldl hplain hrest

/-- The parts of a normal path are its normal components. -/
theorem parts_normalize (p : Path) : p.normalize.parts = normalComponents p.parts := by
  have h := isStack_parts p
  rw [normalize_eq]
  refine parts_ofComponents (fun c hc => h.plain c (List.mem_reverse.1 hc)) fun c hc => ?_
  rw [normalComponents, List.tail_reverse, List.mem_reverse] at hc
  exact h.upper c hc

/-- The normal form of a path is absolute when the path is. -/
theorem isAbsolute_normalize (p : Path) : p.normalize.isAbsolute = p.isAbsolute := by
  rw [Bool.eq_iff_iff, isAbsolute_iff, parts_normalize, normalComponents, List.head?_reverse]
  exact (isStack_parts p).bottom

/-! ## Normalizing in parts -/

lemma foldl_reverse_foldComponent (above stack : List Component) (c : Component) :
    (foldComponent stack c).reverse.foldl foldComponent above =
      foldComponent (stack.reverse.foldl foldComponent above) c := by
  cases c with
  | current => rfl
  | root => simp [foldComponent]
  | name n => simp [foldComponent]
  | parent => rcases stack with _ | ⟨_ | _ | _ | _, _⟩ <;> simp [foldComponent]

/-- It does not matter whether `..` takes back a name at once or later. -/
theorem foldl_reverse_foldl (above cs : List Component) :
    (cs.foldl foldComponent []).reverse.foldl foldComponent above =
      cs.foldl foldComponent above := by
  induction cs using List.reverseRecOn with
  | nil => rfl
  | append_singleton cs c ih =>
    simp only [List.foldl_append, List.foldl_cons, List.foldl_nil]
    rw [foldl_reverse_foldComponent, ih]

lemma normalComponents_append_normalComponents (as bs : List Component) :
    normalComponents (as ++ normalComponents bs) = normalComponents (as ++ bs) := by
  simp only [normalComponents, List.foldl_append, foldl_reverse_foldl]

lemma normalComponents_idem (cs : List Component) :
    normalComponents (normalComponents cs) = normalComponents cs :=
  normalComponents_append_normalComponents [] cs

theorem normalize_normalize (p : Path) : p.normalize.normalize = p.normalize := by
  rw [normalize_eq, parts_normalize, normalComponents_idem, ← normalize_eq]

/-- A path can be normalized before it is read from another one. -/
theorem normalize_join_normalize (p q : Path) :
    (p.join q.normalize).normalize = (p.join q).normalize := by
  rw [normalize_eq, normalize_eq (p.join q), parts_join, parts_join, isAbsolute_normalize,
    parts_normalize]
  split
  · rw [normalComponents_idem]
  · rw [normalComponents_append_normalComponents]

/-- An absolute path is the same from everywhere. -/
lemma absolutize_eq (base p : Path) : base.absolutize p = (base.join p).normalize := by
  unfold absolutize
  split_ifs with h
  · rw [join, if_pos h]
  · rfl

end StyleGuide.Path
