import StyleGuide.Proofs.Path.Above
import StyleGuide.Proofs.Path.Canonical

/-!
# The way from a directory to a path

The way from a directory to a path goes up to where the two part, and then down. Each component of a
path that is read from the directory brings it at most one component closer to where it leads, so no
other way is shorter.

## Main definitions

* `Path.distance`: the number of components by which one list differs from another.

## Main results

* `Path.distance_le_foldl`: reading components changes the distance to a path by no more than their
  number.
* `Path.relativeTo_of_relative`: from a relative directory the way is the path itself.
* `Path.relativeTo_shortest`: the way leads to the path, and no relative path does with fewer
  components.
-/

namespace StyleGuide.Path

variable {p base : Path}

/-! ## Where two paths part -/

lemma dropCommon_nil_right (as : List Component) : dropCommon as [] = (as, []) := by
  cases as <;> rfl

@[simp] lemma dropCommon_self (as : List Component) : dropCommon as as = ([], []) := by
  induction as with
  | nil => rfl
  | cons a as ih => rw [dropCommon, if_pos rfl, ih]

/-- Nothing is left of a list that the other one starts with. -/
lemma dropCommon_snd_eq_nil_iff {as bs : List Component} :
    (dropCommon as bs).2 = [] ↔ bs <+: as := by
  fun_induction dropCommon as bs with
  | case1 as b bs ih => rw [ih, List.prefix_cons_inj]
  | case2 a as b bs h => simp [List.cons_prefix_cons, Ne.symm h]
  | case3 as bs h =>
    cases as with
    | nil => simp
    | cons a as =>
      cases bs with
      | nil => simp
      | cons b bs => exact absurd rfl (h a as b bs rfl)

/-! ## Distances -/

/-- The number of components that are left of two lists behind their longest common start. -/
def distance (target cs : List Component) : Nat :=
  (dropCommon target cs).1.length + (dropCommon target cs).2.length

lemma distance_self (cs : List Component) : distance cs cs = 0 := by
  simp [distance]

/-- One component more or less makes a difference of one. -/
lemma distance_concat (target cs : List Component) (c : Component) :
    distance target (cs ++ [c]) ≤ distance target cs + 1 ∧
      distance target cs ≤ distance target (cs ++ [c]) + 1 := by
  induction cs generalizing target with
  | nil =>
    cases target with
    | nil => simp [distance, dropCommon]
    | cons t target =>
      by_cases h : t = c
      · simp [distance, dropCommon, dropCommon_nil_right, h]
        omega
      · simp [distance, dropCommon, h]
  | cons d cs ih =>
    cases target with
    | nil => simp [distance, dropCommon]
    | cons t target =>
      by_cases h : t = d
      · simpa [distance, dropCommon, h] using ih target
      · simp [distance, dropCommon, h]
        omega

/-- Reading a component changes the distance by one at most: it takes back the last component, adds
one, or does nothing. -/
lemma distance_le_foldComponent (target stack : List Component) (c : Component) :
    distance target stack.reverse ≤ distance target (foldComponent stack c).reverse + 1 := by
  have hpush : ∀ d, distance target stack.reverse ≤ distance target (d :: stack).reverse + 1 := by
    intro d
    rw [List.reverse_cons]
    exact (distance_concat target stack.reverse d).2
  cases c with
  | root => exact hpush .root
  | current => exact Nat.le_succ _
  | name n => exact hpush (.name n)
  | parent =>
    cases stack with
    | nil => exact hpush .parent
    | cons d rest =>
      cases d with
      | root => exact Nat.le_succ _
      | current => exact hpush .parent
      | parent => exact hpush .parent
      | name n =>
        rw [List.reverse_cons]
        exact (distance_concat target rest.reverse (.name n)).1

/-- Reading components changes the distance by no more than their number. -/
theorem distance_le_foldl (target stack cs : List Component) :
    distance target stack.reverse ≤
      distance target (cs.foldl foldComponent stack).reverse + cs.length := by
  induction cs generalizing stack with
  | nil => exact Nat.le_refl _
  | cons c cs ih =>
    have hstep := distance_le_foldComponent target stack c
    have hrest := ih (foldComponent stack c)
    rw [List.foldl_cons, List.length_cons]
    omega

/-! ## Components and parts -/

lemma length_parts_le (p : Path) : p.parts.length ≤ p.components.length := by
  unfold parts components
  split
  · rfl
  · simp

lemma components_normalize (p : Path) :
    p.normalize.components = (p.parts.foldl foldComponent []).reverse := by
  rw [components_normalize_eq_parts, parts_normalize, normalComponents]

lemma ofComponents_components_normalize (p : Path) :
    ofComponents p.normalize.components = p.normalize := by
  rw [components_normalize, ← normalComponents, ← normalize_eq]

/-- A relative path is as long as its way at least. -/
theorem distance_le_length {q : Path} (hq : q.isAbsolute = false)
    (h : (base.absolutize q).SameAs p.normalize) :
    distance p.normalize.components base.normalize.components ≤ q.components.length := by
  have htarget : p.normalize.components =
      (q.parts.foldl foldComponent (base.parts.foldl foldComponent [])).reverse := by
    rw [← h, absolutize_eq, components_normalize, parts_join, if_neg (by simp [hq]),
      List.foldl_append]
  have hrun := distance_le_foldl p.normalize.components (base.parts.foldl foldComponent []) q.parts
  rw [← htarget, distance_self, Nat.zero_add, ← components_normalize] at hrun
  exact hrun.trans (length_parts_le q)

/-! ## The way from a relative directory -/

/-- What stands in front of the root does not count. -/
lemma ofComponents_append_root (cs ds : List Component) :
    ofComponents (cs ++ .root :: ds) = ofComponents (.root :: ds) := by
  have hroot : (⟨Component.root.bytes⟩ : Path).isAbsolute = true := rfl
  simp only [ofComponents, List.foldl_append, List.foldl_cons, join, hroot, if_true]

lemma head?_components_normalize_eq_root_iff (p : Path) :
    p.normalize.components.head? = some .root ↔ p.isAbsolute = true := by
  rw [components_normalize_eq_parts, ← isAbsolute_iff, isAbsolute_normalize]

/-- A relative directory has nothing in common with an absolute path, and the way to the path is the
path itself. -/
theorem relativeTo_of_relative (hp : p.isAbsolute = true) (hbase : base.isAbsolute = false) :
    p.relativeTo base = p.normalize := by
  obtain ⟨names, hnames⟩ :=
    List.head?_eq_some_iff.1 ((head?_components_normalize_eq_root_iff p).2 hp)
  have hother : base.normalize.components.head? ≠ some .root := by
    rw [ne_eq, head?_components_normalize_eq_root_iff, hbase]
    decide
  have hdrop : dropCommon p.normalize.components base.normalize.components =
      (p.normalize.components, base.normalize.components) := by
    rw [hnames]
    cases hcomponents : base.normalize.components with
    | nil => rfl
    | cons c cs =>
      have hc : .root ≠ c := by
        rintro rfl
        exact hother (by rw [hcomponents]; rfl)
      rw [dropCommon, if_neg hc]
  rw [relativeTo, hdrop]
  simp only [hnames]
  rw [ofComponents_append_root, ← hnames, ofComponents_components_normalize]

/-! ## The way from any directory -/

/-- From an absolute directory, the way goes up as often as the directory has names that the path
does not have, and then down. -/
lemma exists_components_relativeTo (hp : p.isAbsolute = true) (hbase : base.isAbsolute = true) :
    ∃ up down : List Bytes,
      dropCommon p.normalize.components base.normalize.components =
        (down.map .name, up.map .name) ∧
      (p.relativeTo base).components = List.replicate up.length .parent ++ down.map .name := by
  obtain ⟨common, up, down, hps, -, -, -, hdrop, hway⟩ := exists_relativeTo hp hbase
  have hdown : ∀ n ∈ down, IsName n := fun n hn => hps n (List.mem_append_right _ hn)
  refine ⟨up, down, hdrop, ?_⟩
  rw [hway]
  exact components_ofComponents (fun c hc => (isPlain_of_mem_way hdown hc).1)
    fun c hc => (isPlain_of_mem_way hdown (List.mem_of_mem_tail hc)).2

/-- The components of normal paths from the root tell which one is above the other. -/
lemma isPrefix_components_normalize_iff (hp : p.isAbsolute = true)
    (hbase : base.isAbsolute = true) :
    base.normalize.components <+: p.normalize.components ↔
      base.normalize = p.normalize ∨ base.normalize.IsAbove p.normalize := by
  obtain ⟨ps, hps, hpath⟩ := exists_normalize_eq_fromRoot hp
  obtain ⟨bs, hbs, hdirectory⟩ := exists_normalize_eq_fromRoot hbase
  rw [hpath, hdirectory, eq_or_isAbove_fromRoot_iff hps hbs, components_fromRoot hps,
    components_fromRoot hbs, List.prefix_cons_inj,
    List.prefix_map_iff_of_injective fun _ _ => Component.name.inj]

/-- The way from a directory to an absolute path leads to the path. From an absolute directory it is
a run of `..` with names behind it; there is no `..` where the directory is the path or above it,
and only there; and no relative path that leads to the same place has fewer components. -/
theorem relativeTo_shortest (hp : p.isAbsolute = true) (base : Path) :
    base.absolutize (p.relativeTo base) = p.normalize ∧
      (base.isAbsolute = true →
        (∃ (up : Nat) (names : List Bytes),
          (p.relativeTo base).components = List.replicate up .parent ++ names.map .name) ∧
        (.parent ∉ (p.relativeTo base).components ↔
          base.normalize = p.normalize ∨ base.normalize.IsAbove p.normalize) ∧
        ∀ q : Path, q.isAbsolute = false → (base.absolutize q).SameAs p.normalize →
          (p.relativeTo base).components.length ≤ q.components.length) := by
  refine ⟨?_, fun hbase => ?_⟩
  · cases hbase : base.isAbsolute with
    | true => exact absolutize_relativeTo hp hbase
    | false =>
      rw [relativeTo_of_relative hp hbase, absolutize,
        if_pos (by rw [isAbsolute_normalize, hp]), normalize_normalize]
  · obtain ⟨up, down, hdrop, hway⟩ := exists_components_relativeTo hp hbase
    refine ⟨⟨up.length, down, hway⟩, ?_, fun q hq hsame => ?_⟩
    · rw [← isPrefix_components_normalize_iff hp hbase, ← dropCommon_snd_eq_nil_iff, hdrop, hway]
      simp
    · have hdistance := distance_le_length hq hsame
      rw [distance, hdrop] at hdistance
      rw [hway]
      simpa [Nat.add_comm] using hdistance

/-- From `/src/a` to `/lib/x.t` the way goes two directories up and two names down, however the
directory is written, and no other way is shorter. -/
theorem relativeTo_shortest_lib :
    (ofString "/lib/x.t").relativeTo (ofString "/src/a/./b/..") = ofString "../../lib/x.t" ∧
      (ofString "/src/a/./b/..").absolutize (ofString "../../lib/x.t") = ofString "/lib/x.t" ∧
      ∀ q : Path, q.isAbsolute = false →
        ((ofString "/src/a/./b/..").absolutize q).SameAs (ofString "/lib/x.t") →
        4 ≤ q.components.length := by
  have hway : (ofString "/lib/x.t").relativeTo (ofString "/src/a/./b/..") =
      ofString "../../lib/x.t" := by
    decide +kernel
  have hlength : (ofString "../../lib/x.t").components.length = 4 := by decide +kernel
  have hnormal : (ofString "/lib/x.t").normalize = ofString "/lib/x.t" := by decide +kernel
  obtain ⟨hleads, hshortest⟩ :=
    relativeTo_shortest (p := ofString "/lib/x.t") (by decide +kernel) (ofString "/src/a/./b/..")
  obtain ⟨-, -, hshortest⟩ := hshortest (by decide +kernel)
  rw [hway, hnormal] at hleads
  rw [hway, hnormal, hlength] at hshortest
  exact ⟨hway, hleads, hshortest⟩

end StyleGuide.Path
