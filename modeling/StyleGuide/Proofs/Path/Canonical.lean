import StyleGuide.Proofs.Path.Rooted

/-!
# Canonical paths

A normal path is canonical: the root with names below it, or names behind a run of `..`. That is an
invariant of reading one component after the other, so it holds of every path. Both sides of a join
can be normalized before they are joined, whether the second one goes up further than the first one
goes down, starts at the root, or leads nowhere.

## Main definitions

* `Path.IsFolded`: what reading components onto a path leaves, the last one first.

## Main results

* `Path.isFolded_foldl`: reading components keeps to that form.
* `Path.components_normalize`: the components of a normal path.
* `Path.normalize_canonical`: normal paths are canonical, and normalizing respects joining.
-/

namespace StyleGuide.Path

/-! ## Reading components -/

/-- Names on top of the root, or on top of a run of `..`. -/
def IsFolded (absolute : Bool) (stack : List Component) : Prop :=
  ∃ (up : Nat) (names : List Bytes),
    stack = names.map .name ++ if absolute then [.root] else List.replicate up .parent

variable {absolute : Bool} {stack cs : List Component}

/-- One more component keeps to the form: a `..` takes back the name on top, stays at the root, and
makes a run of `..` longer. -/
lemma IsFolded.foldComponent (h : IsFolded absolute stack) {c : Component} (hc : c ≠ .root) :
    IsFolded absolute (foldComponent stack c) := by
  obtain ⟨up, names, rfl⟩ := h
  cases c with
  | root => exact absurd rfl hc
  | current => exact ⟨up, names, rfl⟩
  | name n => exact ⟨up, n :: names, rfl⟩
  | parent =>
    cases names with
    | cons n names => exact ⟨up, names, rfl⟩
    | nil =>
      cases absolute with
      | true => exact ⟨up, [], rfl⟩
      | false => exact ⟨up + 1, [], by cases up <;> rfl⟩

lemma isFolded_foldl (h : IsFolded absolute stack) (hcs : .root ∉ cs) :
    IsFolded absolute (cs.foldl Path.foldComponent stack) := by
  induction cs generalizing stack with
  | nil => exact h
  | cons c cs ih =>
    rw [List.mem_cons, not_or] at hcs
    exact ih (h.foldComponent (Ne.symm hcs.1)) hcs.2

/-- The components of a normal path, the last one first. -/
lemma isFolded_parts (p : Path) :
    IsFolded p.isAbsolute (p.parts.foldl Path.foldComponent []) := by
  have hrest : .root ∉ p.segments.filterMap Component.ofSegment? := by
    simpa using fun s _ => ofSegment?_ne_root s
  rw [parts, List.foldl_append]
  refine isFolded_foldl ?_ hrest
  cases p.isAbsolute with
  | true => exact ⟨0, [], rfl⟩
  | false => exact ⟨0, [], rfl⟩

/-- The parts of a normal path are names behind the root, or behind a run of `..`. -/
theorem exists_parts_normalize (p : Path) :
    ∃ (up : Nat) (names : List Bytes), p.normalize.parts =
      (if p.isAbsolute then [.root] else List.replicate up .parent) ++ names.map .name := by
  obtain ⟨up, names, hstack⟩ := isFolded_parts p
  refine ⟨up, names.reverse, ?_⟩
  rw [parts_normalize, normalComponents, hstack, List.reverse_append, ← List.map_reverse]
  cases p.isAbsolute <;> simp

/-! ## A leading `.` -/

/-- Without a leading `.`, all components say where a path leads. -/
lemma components_eq_parts_of_head? {p : Path} (h : p.segments.head? ≠ some [dot]) :
    p.components = p.parts := by
  unfold components parts
  rw [if_neg h]

/-- What is joined to a path does not change how the path begins. -/
lemma head?_segments_join {p q : Path} (hp : p.bytes ≠ []) (hq : q.isAbsolute = false) :
    (p.join q).segments.head? = p.segments.head? := by
  rw [join, hq, if_neg (by simp)]
  by_cases hlast : p.bytes.getLast? = some slash
  · obtain ⟨front, hfront⟩ := List.getLast?_eq_some_iff.1 hlast
    rw [if_pos (.inr hlast)]
    simp only [segments, hfront, List.append_assoc, List.cons_append, List.nil_append]
    rw [cut_append_cons _ _ (by simp), cut_append_cons _ _ (by simp),
      List.head?_append_of_ne_nil _ (cut_ne_nil _ _),
      List.head?_append_of_ne_nil _ (cut_ne_nil _ _)]
  · rw [if_neg (by simp [hp, hlast])]
    simp only [segments]
    rw [cut_append_cons _ _ (by simp), List.head?_append_of_ne_nil _ (cut_ne_nil _ _)]

lemma head?_segments_of_isPlain {c : Component} (h : IsPlain c) :
    (⟨c.bytes⟩ : Path).segments.head? ≠ some [dot] := by
  cases c with
  | root => decide
  | current => cases h
  | parent => decide
  | name n =>
    have hn := isName_of_isPlain h
    have hsegments : (⟨n⟩ : Path).segments = [n] := by
      refine cut_eq_singleton fun b hb => ?_
      simpa using ne_of_mem_of_not_mem hb hn.1
    rw [Component.bytes, hsegments]
    simpa using hn.ne_dot

/-- A path that is written with plain components has no leading `.`. -/
lemma head?_segments_ofComponents (h : ∀ c ∈ cs, IsPlain c) (hroot : ∀ c ∈ cs.tail, c ≠ .root) :
    (ofComponents cs).segments.head? ≠ some [dot] := by
  induction cs using List.reverseRecOn with
  | nil => decide
  | append_singleton cs c ih =>
    simp only [List.mem_append, List.mem_singleton, or_imp, forall_and, forall_eq] at h
    have hofComponents : ofComponents (cs ++ [c]) = (ofComponents cs).join ⟨c.bytes⟩ := by
      simp [ofComponents]
    have hc := head?_segments_of_isPlain h.2
    rw [hofComponents]
    by_cases hnil : (ofComponents cs).bytes = []
    · have hjoin : (ofComponents cs).join ⟨c.bytes⟩ = ⟨c.bytes⟩ := by
        simp [join, hnil]
      rwa [hjoin]
    · cases cs with
      | nil => exact absurd rfl hnil
      | cons d cs =>
        simp only [List.cons_append, List.tail_cons, List.mem_append, List.mem_singleton, or_imp,
          forall_and, forall_eq] at hroot
        rw [head?_segments_join hnil (isAbsolute_of_isPlain h.2 hroot.2)]
        exact ih h.1 hroot.1

/-- Plain components are the components of the path that is written with them. -/
lemma components_ofComponents (h : ∀ c ∈ cs, IsPlain c) (hroot : ∀ c ∈ cs.tail, c ≠ .root) :
    (ofComponents cs).components = cs := by
  rw [components_eq_parts_of_head? (head?_segments_ofComponents h hroot),
    parts_ofComponents h hroot]

/-- A normal path has no `.`. -/
theorem components_normalize_eq_parts (p : Path) : p.normalize.components = p.normalize.parts := by
  have h := isStack_parts p
  apply components_eq_parts_of_head?
  rw [normalize_eq]
  refine head?_segments_ofComponents (fun c hc => h.plain c (List.mem_reverse.1 hc)) fun c hc => ?_
  rw [normalComponents, List.tail_reverse, List.mem_reverse] at hc
  exact h.upper c hc

/-! ## Joining -/

/-- It does not matter from which of two paths with one normal form another path is read. -/
theorem normalize_normalize_join (p q : Path) :
    (p.normalize.join q).normalize = (p.join q).normalize := by
  have hfold : ∀ as bs, normalComponents (normalComponents as ++ bs) =
      normalComponents (as ++ bs) := by
    intro as bs
    simp only [normalComponents, List.foldl_append, foldl_reverse_foldl]
  rw [normalize_eq, normalize_eq (p.join q), parts_join, parts_join, parts_normalize]
  split
  · rfl
  · rw [hfold]

/-- Paths can be joined from the end. -/
theorem parts_join_join (p q r : Path) : ((p.join q).join r).parts = (p.join (q.join r)).parts := by
  rw [parts_join, parts_join, parts_join, parts_join, isAbsolute_join_eq]
  cases q.isAbsolute <;> cases r.isAbsolute <;> simp

/-- Normal paths are canonical: they have no `.`, they have `..` only in front of the names of a
relative path, and they are absolute where the path is. A join can be normalized before or after its
sides are, so a normal path is its own normal form, and a path that is seen from another one can be
seen from a directory in one step or in two. -/
theorem normalize_canonical (a b c : Path) :
    (∃ (up : Nat) (names : List Bytes), a.normalize.components =
        (if a.isAbsolute then [.root] else List.replicate up .parent) ++ names.map .name) ∧
      a.normalize.isAbsolute = a.isAbsolute ∧
      (a.normalize.join b.normalize).normalize = (a.join b).normalize ∧
      a.normalize.normalize = a.normalize ∧
      (a.absolutize b).absolutize c = a.absolutize (b.join c) := by
  refine ⟨?_, isAbsolute_normalize a, ?_, normalize_normalize a, ?_⟩
  · rw [components_normalize_eq_parts]
    exact exists_parts_normalize a
  · rw [normalize_normalize_join, normalize_join_normalize]
  · calc
      (a.absolutize b).absolutize c = ((a.join b).normalize.join c).normalize := by
        rw [absolutize_eq, absolutize_eq]
      _ = ((a.join b).join c).normalize := normalize_normalize_join _ _
      _ = (a.join (b.join c)).normalize := normalize_congr (parts_join_join a b c)
      _ = a.absolutize (b.join c) := (absolutize_eq _ _).symm

end StyleGuide.Path
