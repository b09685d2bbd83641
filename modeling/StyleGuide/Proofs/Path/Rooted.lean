import StyleGuide.Proofs.FileSystem.LinkFree

/-!
# Paths from the root

An absolute normal path is the root with names below it. The names say which directory holds the
file, and two such paths say how one leads to the other.

## Main definitions

* `Path.fromRoot`: the path with the given names below the root.

## Main results

* `Path.exists_normalize_eq_fromRoot`: the normal form of an absolute path is such a path.
* `Path.absolutize_relativeTo`: the way from a directory to a path leads to the path.
* `Path.isAbsolute_of_parent?`, `Path.eq_of_mem_segments_of_parent?`: what is known of the directory
  that holds any path, normal or not.
-/

namespace StyleGuide.Path

/-- The path with the given names below the root. -/
def fromRoot (names : List Bytes) : Path := (⟨[slash]⟩ : Path).below names

variable {names : List Bytes} {n : Bytes}

/-! ## How such a path is written -/

lemma IsName.ne_nil (hn : IsName n) : n ≠ [] := by
  rintro rfl
  cases hn.2

lemma IsName.ne_dot (hn : IsName n) : n ≠ [dot] := by
  rintro rfl
  cases hn.2

lemma IsName.isAbsolute (hn : IsName n) : (⟨n⟩ : Path).isAbsolute = false := by
  rw [← Bool.not_eq_true, isAbsolute_iff, hn.parts]
  simp

lemma fromRoot_concat (names : List Bytes) (n : Bytes) :
    fromRoot (names ++ [n]) = (fromRoot names).join ⟨n⟩ :=
  below_concat _ names n

lemma fromRoot_append (names more : List Bytes) :
    fromRoot (names ++ more) = (fromRoot names).below more :=
  below_append _ names more

/-- The names stand behind the root, with separators between them. -/
lemma bytes_fromRoot (h : ∀ n ∈ names, IsName n) :
    (fromRoot names).bytes = slash :: joinWith slash names := by
  induction names using List.reverseRecOn with
  | nil => rfl
  | append_singleton names n ih =>
    simp only [List.mem_append, List.mem_singleton, or_imp, forall_and, forall_eq] at h
    rw [fromRoot_concat, join, h.2.isAbsolute, if_neg (by simp)]
    rcases List.eq_nil_or_concat' names with rfl | ⟨front, m, rfl⟩
    · rfl
    · have hm := h.1 m (by simp)
      have hlast : (slash :: joinWith slash (front ++ [m])).getLast? ≠ some slash := by
        obtain ⟨hne, hlast⟩ := joinWith_concat_ne_nil slash front hm.ne_nil
        rw [List.getLast?_cons_of_ne_nil hne, hlast]
        exact fun hslash => hm.1 (List.mem_of_mem_getLast? hslash)
      rw [ih h.1, if_neg (by simp [hlast]), joinWith_concat slash (by simp) n]
      rfl

lemma isAbsolute_fromRoot (h : ∀ n ∈ names, IsName n) : (fromRoot names).isAbsolute = true := by
  rw [isAbsolute, bytes_fromRoot h]
  simp

lemma parts_fromRoot (h : ∀ n ∈ names, IsName n) :
    (fromRoot names).parts = .root :: names.map .name :=
  parts_below _ h

/-- A leading `.` stands only in front of a path that is not absolute. -/
lemma components_eq_parts {p : Path} (h : p.isAbsolute = true) : p.components = p.parts := by
  rw [components, parts, if_pos h, if_pos h]

lemma components_fromRoot (h : ∀ n ∈ names, IsName n) :
    (fromRoot names).components = .root :: names.map .name := by
  rw [components_eq_parts (isAbsolute_fromRoot h), parts_fromRoot h]

lemma fromRoot_inj {more : List Bytes} (h : ∀ n ∈ names, IsName n) (hmore : ∀ n ∈ more, IsName n)
    (heq : fromRoot names = fromRoot more) : names = more := by
  have hcomponents := congrArg components heq
  rw [components_fromRoot h, components_fromRoot hmore, List.cons.injEq] at hcomponents
  exact List.map_injective_iff.2 (fun _ _ => Component.name.inj) hcomponents.2

lemma fileName?_fromRoot_concat (h : ∀ m ∈ names ++ [n], IsName m) :
    (fromRoot (names ++ [n])).fileName? = some n := by
  rw [fileName?, components_fromRoot h, List.map_append, ← List.cons_append, List.map_singleton,
    List.getLast?_concat]

/-! ## The directory that holds a path -/

lemma dropTrailing_of_isName {absolute : Bool} {pieces : List Bytes}
    (h : ∀ piece ∈ pieces.head?, IsName piece) : dropTrailing absolute pieces = pieces := by
  match pieces with
  | [] => rfl
  | [s] =>
    have hs := h s rfl
    simp [dropTrailing, hs.ne_nil, hs.ne_dot]
  | s :: next :: rest =>
    have hs := h s rfl
    simp [dropTrailing, hs.ne_nil, hs.ne_dot]

theorem parent?_fromRoot_concat (h : ∀ m ∈ names ++ [n], IsName m) :
    (fromRoot (names ++ [n])).parent? = some (fromRoot names) := by
  have hnames : ∀ m ∈ names, IsName m := fun m hm => h m (by simp [hm])
  have hcut : cut (· == slash) (joinWith slash (names ++ [n])) = names ++ [n] :=
    cut_joinWith (by simp) fun m hm => (h m hm).1
  have habove : dropTrailing true names.reverse = names.reverse :=
    dropTrailing_of_isName fun m hm => hnames m (by simpa using List.mem_of_mem_head? hm)
  have hall : dropTrailing true (n :: names.reverse) = n :: names.reverse :=
    dropTrailing_of_isName fun m hm => h m (by simp_all)
  simp only [parent?, isAbsolute_fromRoot h, bytes_fromRoot h, if_true, List.drop_succ_cons,
    List.drop_zero, hcut, List.reverse_append, List.reverse_singleton, List.singleton_append, hall,
    habove, List.reverse_reverse]
  rw [← bytes_fromRoot hnames]

/-! ### Paths that are not normal -/

lemma dropTrailing_suffix (absolute : Bool) (pieces : List Bytes) :
    dropTrailing absolute pieces <:+ pieces := by
  fun_induction dropTrailing absolute pieces with
  | case1 => exact List.suffix_rfl
  | case2 => exact List.nil_suffix
  | case3 => exact List.suffix_rfl
  | case4 s next rest _ ih => exact ih.trans (List.suffix_cons _ _)
  | case5 => exact List.suffix_rfl

lemma eq_of_dropTrailing_eq_nil {absolute : Bool} {pieces : List Bytes}
    (h : dropTrailing absolute pieces = []) : ∀ s ∈ pieces, s = [] ∨ s = [dot] := by
  fun_induction dropTrailing absolute pieces with
  | case1 => simp
  | case2 s hs => grind
  | case3 => cases h
  | case4 s next rest hs ih => exact List.forall_mem_cons.2 ⟨hs, ih h⟩
  | case5 => cases h

/-- Only a path without names has no directory that holds it. -/
lemma eq_of_mem_segments_of_parent? {p : Path} (h : p.parent? = none) :
    ∀ s ∈ p.segments, s = [] ∨ s = [dot] := by
  unfold parent? at h
  simp only at h
  split at h
  next hnil =>
    have hbody := eq_of_dropTrailing_eq_nil hnil
    simp only [List.mem_reverse] at hbody
    split_ifs at hbody with habsolute
    · obtain ⟨_ | ⟨b, bytes⟩⟩ := p
      · cases habsolute
      · obtain rfl : b = slash := by simpa [isAbsolute] using habsolute
        simpa [segments, cut] using hbody
    · exact hbody
  · cases h

/-- The directory that holds a path is absolute when the path is. -/
theorem isAbsolute_of_parent? {p q : Path} (h : p.parent? = some q) :
    q.isAbsolute = p.isAbsolute := by
  unfold parent? at h
  simp only at h
  split at h
  · cases h
  next last above hpieces =>
    cases h
    cases habsolute : p.isAbsolute with
    | true => simp [isAbsolute]
    | false =>
      simp only [habsolute, Bool.false_eq_true, if_false] at hpieces ⊢
      -- The pieces that are kept stand at the front of the path, and the first is not empty.
      have hsuffix : dropTrailing false above <:+ p.segments.reverse :=
        ((dropTrailing_suffix false above).trans (List.suffix_cons last above)).trans
          (hpieces ▸ dropTrailing_suffix false _)
      obtain ⟨_ | ⟨b, bytes⟩⟩ := p
      · cases hpieces
      · have hb : b ≠ slash := by simpa [isAbsolute] using habsolute
        have hprefix := List.reverse_prefix.2 hsuffix
        obtain ⟨rest, hrest⟩ := exists_cut_eq (· == slash) (b :: bytes)
        rw [List.reverse_reverse, segments, hrest, List.takeWhile_cons_of_pos (by simpa using hb)]
          at hprefix
        rcases List.prefix_cons_iff.1 hprefix with hnil | ⟨kept, hkept, -⟩
        · rw [hnil]
          rfl
        · rw [hkept, joinWith_cons_cons]
          simpa [isAbsolute] using hb

/-! ## Normal paths -/

lemma isName_of_isPlain (h : IsPlain (.name n)) : IsName n := by
  have hparts : (⟨n⟩ : Path).parts = [.name n] := h
  have hmem := name_mem_parts_iff.1 (hparts ▸ List.mem_singleton_self _)
  refine ⟨fun hslash => ?_, ofSegment?_eq_name_iff.2 ⟨rfl, hmem.2⟩⟩
  simpa using not_mem_of_mem_cut _ hmem.1 hslash

/-- A file name is the name of something, on whatever path. -/
lemma isName_of_fileName? {p : Path} (h : p.fileName? = some n) : IsName n := by
  unfold fileName? at h
  split at h
  next hlast =>
    cases h
    have hmem : .name n ∈ p.parts := by
      rcases List.mem_append.1 (List.mem_of_getLast? hlast) with hlead | hmem
      · split at hlead
        · simp at hlead
        · split at hlead <;> simp at hlead
      · exact List.mem_append_right _ hmem
    exact isName_of_isPlain (isPlain_of_mem_parts hmem)
  · cases h

/-- Only names stand below the root of a normal path. -/
lemma exists_normalComponents {p : Path} (h : p.isAbsolute = true) :
    ∃ names : List Bytes, (∀ n ∈ names, IsName n) ∧
      normalComponents p.parts = .root :: names.map .name := by
  have hroot : .root ∉ p.segments.filterMap Component.ofSegment? := by
    simpa using fun s _ => ofSegment?_ne_root s
  have hstack := FileSystem.foldl_foldComponent_root hroot []
  have hparts : p.parts = .root :: p.segments.filterMap Component.ofSegment? := by
    rw [parts, if_pos h]
    rfl
  generalize (p.segments.filterMap Component.ofSegment?).foldl FileSystem.enter [] = names at hstack
  have hfold : p.parts.foldl foldComponent [] = (names.map .name).reverse ++ [.root] := by
    rw [hparts]
    exact hstack
  refine ⟨names, fun n hn => isName_of_isPlain ?_, by simp [normalComponents, hfold]⟩
  exact (isStack_parts p).plain _ (by simpa [hfold] using hn)

lemma ofComponents_root_cons (names : List Bytes) :
    ofComponents (.root :: names.map .name) = fromRoot names :=
  FileSystem.ofComponents_append_map_name [.root] names

theorem exists_normalize_eq_fromRoot {p : Path} (h : p.isAbsolute = true) :
    ∃ names, (∀ n ∈ names, IsName n) ∧ p.normalize = fromRoot names := by
  obtain ⟨names, hnames, hnormal⟩ := exists_normalComponents h
  exact ⟨names, hnames, by rw [normalize_eq, hnormal, ofComponents_root_cons]⟩

lemma normalize_fromRoot (h : ∀ n ∈ names, IsName n) :
    (fromRoot names).normalize = fromRoot names := by
  rw [normalize_eq, parts_fromRoot h, normalComponents, List.foldl_cons,
    foldl_foldComponent_map_name, List.reverse_append, List.reverse_reverse]
  exact ofComponents_root_cons names

/-- A path that is read from an absolute one leads to names below the root. -/
lemma exists_absolutize_eq_fromRoot {base : Path} (h : base.isAbsolute = true) (p : Path) :
    ∃ names, (∀ n ∈ names, IsName n) ∧ base.absolutize p = fromRoot names := by
  unfold absolutize
  split
  · exact exists_normalize_eq_fromRoot ‹_›
  · exact exists_normalize_eq_fromRoot (by rw [isAbsolute_join_eq, h, Bool.true_or])

lemma absolutize_fromRoot (base : Path) (h : ∀ n ∈ names, IsName n) :
    base.absolutize (fromRoot names) = fromRoot names := by
  rw [absolutize, if_pos (isAbsolute_fromRoot h), normalize_fromRoot h]

/-! ## The way from a directory to a path -/

lemma exists_dropCommon (as bs : List Component) :
    ∃ common, as = common ++ (dropCommon as bs).1 ∧ bs = common ++ (dropCommon as bs).2 := by
  fun_induction dropCommon as bs with
  | case1 as b bs ih =>
    obtain ⟨common, has, hbs⟩ := ih
    exact ⟨b :: common, by rw [List.cons_append, ← has], by rw [List.cons_append, ← hbs]⟩
  | case2 => exact ⟨[], rfl, rfl⟩
  | case3 => exact ⟨[], rfl, rfl⟩

/-- Two paths from the root part behind the names that both of them start with. -/
lemma exists_dropCommon_fromRoot {ps bs : List Bytes} (hps : ∀ n ∈ ps, IsName n)
    (hbs : ∀ n ∈ bs, IsName n) :
    ∃ common up down, ps = common ++ down ∧ bs = common ++ up ∧
      dropCommon (fromRoot ps).components (fromRoot bs).components =
        (down.map .name, up.map .name) := by
  obtain ⟨common, hpath, hdirectory⟩ :=
    exists_dropCommon (ps.map Component.name) (bs.map Component.name)
  obtain ⟨front, down, rfl, rfl, hdown⟩ := List.map_eq_append_iff.1 hpath
  obtain ⟨front', up, rfl, hfront, hup⟩ := List.map_eq_append_iff.1 hdirectory
  obtain rfl : front' = front := List.map_injective_iff.2 (fun _ _ => Component.name.inj) hfront
  refine ⟨front', up, down, rfl, rfl, ?_⟩
  rw [components_fromRoot hps, components_fromRoot hbs, dropCommon, if_pos rfl]
  exact Prod.ext hdown.symm hup.symm

/-- The way goes up from the names that only the directory has, and down to those that only the path
has. -/
lemma exists_relativeTo {p base : Path} (hp : p.isAbsolute = true)
    (hbase : base.isAbsolute = true) :
    ∃ common up down, (∀ n ∈ common ++ down, IsName n) ∧ (∀ n ∈ common ++ up, IsName n) ∧
      p.normalize = fromRoot (common ++ down) ∧ base.normalize = fromRoot (common ++ up) ∧
      dropCommon p.normalize.components base.normalize.components =
        (down.map .name, up.map .name) ∧
      p.relativeTo base = ofComponents (List.replicate up.length .parent ++ down.map .name) := by
  obtain ⟨ps, hps, hpath⟩ := exists_normalize_eq_fromRoot hp
  obtain ⟨bs, hbs, hdirectory⟩ := exists_normalize_eq_fromRoot hbase
  obtain ⟨common, up, down, rfl, rfl, hdrop⟩ := exists_dropCommon_fromRoot hps hbs
  rw [← hpath, ← hdirectory] at hdrop
  refine ⟨common, up, down, hps, hbs, hpath, hdirectory, hdrop, ?_⟩
  rw [relativeTo, hdrop]
  simp [Function.comp_def]

/-- The way is made of plain components, and none of them is the root. -/
lemma isPlain_of_mem_way {k : Nat} {down : List Bytes} (h : ∀ n ∈ down, IsName n) {c : Component}
    (hc : c ∈ List.replicate k .parent ++ down.map .name) : IsPlain c ∧ c ≠ .root := by
  rcases List.mem_append.1 hc with hc | hc
  · rw [List.eq_of_mem_replicate hc]
    exact ⟨isPlain_parent, by simp⟩
  · obtain ⟨n, hn, rfl⟩ := List.mem_map.1 hc
    exact ⟨(h n hn).parts, by simp⟩

lemma foldl_foldComponent_parents (names : List Bytes) (above : List Component) :
    (List.replicate names.length .parent).foldl foldComponent ((names.map .name).reverse ++ above) =
      above := by
  induction names using List.reverseRecOn with
  | nil => rfl
  | append_singleton names n ih =>
    rw [List.length_append, List.length_singleton, List.replicate_succ, List.foldl_cons,
      List.map_append, List.reverse_append]
    exact ih

/-- The way from a directory to a path leads to the path. -/
theorem absolutize_relativeTo {p base : Path} (hp : p.isAbsolute = true)
    (hbase : base.isAbsolute = true) : base.absolutize (p.relativeTo base) = p.normalize := by
  obtain ⟨common, up, down, hps, hbs, hpath, hdirectory, -, hway⟩ := exists_relativeTo hp hbase
  have hdown : ∀ n ∈ down, IsName n := fun n hn => hps n (List.mem_append_right _ hn)
  have hparts : (p.relativeTo base).parts =
      List.replicate up.length .parent ++ down.map .name := by
    rw [hway]
    exact parts_ofComponents (fun c hc => (isPlain_of_mem_way hdown hc).1)
      fun c hc => (isPlain_of_mem_way hdown (List.mem_of_mem_tail hc)).2
  have hrelative : (p.relativeTo base).isAbsolute = false := by
    rw [← Bool.not_eq_true, isAbsolute_iff, hparts]
    cases up <;> cases down <;> simp [List.replicate_succ]
  have hfold : base.parts.foldl foldComponent [] =
      (up.map .name).reverse ++ ((common.map .name).reverse ++ [.root]) := by
    have hnormal := parts_normalize base
    rw [hdirectory, parts_fromRoot hbs, normalComponents, eq_comm, List.reverse_eq_iff] at hnormal
    simpa using hnormal
  rw [absolutize, hrelative, if_neg (by simp), normalize_eq, parts_join, hrelative,
    if_neg (by simp), hparts, normalComponents, List.foldl_append, hfold, List.foldl_append,
    foldl_foldComponent_parents, foldl_foldComponent_map_name, hpath, ← ofComponents_root_cons]
  simp

end StyleGuide.Path
