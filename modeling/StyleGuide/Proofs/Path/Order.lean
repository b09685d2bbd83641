import StyleGuide.FileSystem.Basic
import StyleGuide.Proofs.Path.Normal
import StyleGuide.Proofs.Path.Text

/-!
# The order of paths

Paths are ordered by their components, one after the other; names go by their bytes. A path below
another one is written by joining one name at a time, which puts the names behind the components of
the upper path and behind the pieces it is cut into.

## Main definitions

* `IsFileName`: the byte sequences that a directory's entry can be called.
* `Path.below`: the path that names lead to from an upper one.
* the order `<` on `Path.Component` and `Path`.
-/

namespace StyleGuide

/-- The byte sequences that an entry of a directory can be called. -/
structure IsFileName (n : Bytes) : Prop where
  ne_nil : n ≠ []
  ne_dot : n ≠ [Path.dot]
  ne_parent : n ≠ [Path.dot, Path.dot]
  no_slash : Path.slash ∉ n
  no_nul : 0 ∉ n
  length_le : n.length ≤ FileSystem.nameLimit

instance (n : Bytes) : Decidable (IsFileName n) :=
  decidable_of_iff (n ≠ [] ∧ n ≠ [Path.dot] ∧ n ≠ [Path.dot, Path.dot] ∧ Path.slash ∉ n ∧ 0 ∉ n ∧
      n.length ≤ FileSystem.nameLimit)
    ⟨fun ⟨h₁, h₂, h₃, h₄, h₅, h₆⟩ => ⟨h₁, h₂, h₃, h₄, h₅, h₆⟩,
      fun h => ⟨h.ne_nil, h.ne_dot, h.ne_parent, h.no_slash, h.no_nul, h.length_le⟩⟩

namespace Path

/-- The path that names lead to from an upper one. -/
def below (p : Path) (names : List Bytes) : Path := names.foldl (fun p n => p.join ⟨n⟩) p

@[simp] lemma below_nil (p : Path) : p.below [] = p := rfl

@[simp] lemma below_cons (p : Path) (n : Bytes) (names : List Bytes) :
    p.below (n :: names) = (p.join ⟨n⟩).below names := rfl

lemma below_concat (p : Path) (names : List Bytes) (n : Bytes) :
    p.below (names ++ [n]) = (p.below names).join ⟨n⟩ := by
  simp [below]

/-! ## Joining a name -/

lemma not_isAbsolute_of_isFileName {n : Bytes} (hn : IsFileName n) :
    Path.isAbsolute ⟨n⟩ = false := by
  cases n with
  | nil => rfl
  | cons b n =>
    have hb : b ≠ slash := fun h => hn.no_slash (h ▸ List.mem_cons_self)
    simpa [isAbsolute] using hb

lemma segments_of_isFileName {n : Bytes} (hn : IsFileName n) :
    cut (· == slash) n = [n] := by
  apply cut_eq_singleton
  intro b hb
  have : b ≠ slash := fun h => hn.no_slash (h ▸ hb)
  simpa using this

/-- Joining a name puts it behind the pieces of the path, in place of the empty piece behind a final
separator. -/
lemma exists_segments_join {p : Path} (hp : p.bytes ≠ []) :
    ∃ pieces, pieces ≠ [] ∧ (p.segments = pieces ∨ p.segments = pieces ++ [[]]) ∧
      ∀ n, IsFileName n → (p.join ⟨n⟩).segments = pieces ++ [n] := by
  by_cases hlast : p.bytes.getLast? = some slash
  · obtain ⟨front, hfront⟩ := List.getLast?_eq_some_iff.1 hlast
    refine ⟨cut (· == slash) front, cut_ne_nil _ _, .inr ?_, fun n hn => ?_⟩
    · rw [segments, hfront, cut_append_cons _ _ (by simp)]
      rfl
    · rw [join, not_isAbsolute_of_isFileName hn, if_neg (by simp), if_pos (.inr hlast)]
      simp only [segments, hfront, List.append_assoc, List.cons_append, List.nil_append]
      rw [cut_append_cons _ _ (by simp), segments_of_isFileName hn]
  · refine ⟨p.segments, cut_ne_nil _ _, .inl rfl, fun n hn => ?_⟩
    rw [join, not_isAbsolute_of_isFileName hn, if_neg (by simp), if_neg (by simp [hp, hlast])]
    simp only [segments]
    rw [cut_append_cons _ _ (by simp), segments_of_isFileName hn]

lemma join_bytes_ne_nil (p : Path) {n : Bytes} (hn : IsFileName n) :
    (p.join ⟨n⟩).bytes ≠ [] := by
  rw [join, not_isAbsolute_of_isFileName hn, if_neg (by simp)]
  split <;> simp [hn.ne_nil]

lemma isAbsolute_join (p : Path) {n : Bytes} (hn : IsFileName n) :
    (p.join ⟨n⟩).isAbsolute = p.isAbsolute := by
  rw [isAbsolute_join_eq, not_isAbsolute_of_isFileName hn, Bool.or_false]

lemma contains_zero_join (p : Path) {n : Bytes} (hn : IsFileName n) :
    (p.join ⟨n⟩).bytes.contains 0 = p.bytes.contains 0 := by
  have hslash : (0 : UInt8) ≠ slash := by decide
  rw [join, not_isAbsolute_of_isFileName hn, if_neg (by simp)]
  split <;> simp [hn.no_nul, hslash]

lemma ofSegment?_of_isFileName {n : Bytes} (hn : IsFileName n) :
    Component.ofSegment? n = some (.name n) :=
  ofSegment?_eq_name_iff.2 ⟨rfl, hn.ne_nil, hn.ne_dot, hn.ne_parent⟩

/-- The byte sequences that are read as a name. -/
def IsName (n : Bytes) : Prop := slash ∉ n ∧ Component.ofSegment? n = some (.name n)

lemma isName_of_isFileName {n : Bytes} (hn : IsFileName n) : IsName n :=
  ⟨hn.no_slash, ofSegment?_of_isFileName hn⟩

lemma IsName.parts {n : Bytes} (hn : IsName n) : (⟨n⟩ : Path).parts = [.name n] :=
  isPlain_of_ofSegment? hn.1 hn.2

/-- Joining a name adds one component. -/
lemma components_join {p : Path} (hp : p.bytes ≠ []) {n : Bytes} (hn : IsFileName n) :
    (p.join ⟨n⟩).components = p.components ++ [.name n] := by
  obtain ⟨pieces, hne, hseg, hjoin⟩ := exists_segments_join hp
  have hhead : ∀ s, (pieces ++ [s]).head? = pieces.head? := fun s => by
    cases pieces <;> simp at hne ⊢
  have hempty : Component.ofSegment? [] = none := rfl
  simp only [components, isAbsolute_join p hn, hjoin n hn, hhead]
  rcases hseg with hseg | hseg <;>
    simp [hseg, hhead, ofSegment?_of_isFileName hn, hempty]

lemma below_bytes_ne_nil {p : Path} (hp : p.bytes ≠ []) {names : List Bytes}
    (hnames : ∀ n ∈ names, IsFileName n) : (p.below names).bytes ≠ [] := by
  induction names generalizing p with
  | nil => exact hp
  | cons n names ih =>
    exact ih (join_bytes_ne_nil p (hnames n List.mem_cons_self))
      fun m hm => hnames m (List.mem_cons_of_mem _ hm)

lemma components_below {p : Path} (hp : p.bytes ≠ []) {names : List Bytes}
    (hnames : ∀ n ∈ names, IsFileName n) :
    (p.below names).components = p.components ++ names.map .name := by
  induction names generalizing p with
  | nil => simp
  | cons n names ih =>
    have hn := hnames n List.mem_cons_self
    rw [below_cons, ih (join_bytes_ne_nil p hn) fun m hm => hnames m (List.mem_cons_of_mem _ hm),
      components_join hp hn]
    simp

/-! ## Reading names from a base -/

lemma below_append (p : Path) (names names' : List Bytes) :
    p.below (names ++ names') = (p.below names).below names' := List.foldl_append

/-- Names stand behind the parts of the path that they are joined to. -/
lemma parts_below (p : Path) {names : List Bytes} (hnames : ∀ n ∈ names, IsName n) :
    (p.below names).parts = p.parts ++ names.map .name := by
  induction names generalizing p with
  | nil => simp
  | cons n names ih =>
    rw [List.forall_mem_cons] at hnames
    have hparts := hnames.1.parts
    have habsolute : (⟨n⟩ : Path).isAbsolute = false := by
      rw [← Bool.not_eq_true, isAbsolute_iff, hparts]
      simp
    rw [below_cons, ih _ hnames.2, parts_join, habsolute, if_neg (by simp), hparts]
    simp

/-- The parts of a path that is written with names only. -/
lemma parts_joinWith {names : List Bytes} (hnames : ∀ n ∈ names, IsName n) :
    (⟨joinWith slash names⟩ : Path).parts = names.map .name := by
  cases names with
  | nil => rfl
  | cons n names =>
    have hsegments : (⟨joinWith slash (n :: names)⟩ : Path).segments = n :: names :=
      cut_joinWith (List.cons_ne_nil _ _) fun m hm => (hnames m hm).1
    have habsolute : (⟨joinWith slash (n :: names)⟩ : Path).isAbsolute = false := by
      obtain ⟨hslash, hname⟩ := hnames n List.mem_cons_self
      cases n with
      | nil => cases hname
      | cons b n =>
        rw [joinWith_cons_cons]
        simpa [isAbsolute] using fun hb : b = slash => hslash (hb ▸ List.mem_cons_self)
    rw [parts, habsolute, hsegments, if_neg (by simp), List.nil_append,
      List.filterMap_congr fun m hm => (hnames m hm).2, ← List.filterMap_eq_map]
    rfl

lemma foldl_foldComponent_map_name (above : List Component) (names : List Bytes) :
    (names.map .name).foldl foldComponent above = (names.map .name).reverse ++ above := by
  induction names generalizing above with
  | nil => rfl
  | cons n names ih =>
    rw [List.map_cons, List.foldl_cons, ih]
    simp [foldComponent]

/-- A path that is written with names only leads below the base that it is read from. -/
theorem absolutize_joinWith (base : Path) {names : List Bytes} (hnames : ∀ n ∈ names, IsName n) :
    base.absolutize ⟨joinWith slash names⟩ = base.normalize.below names := by
  have hparts := parts_joinWith hnames
  have habsolute : (⟨joinWith slash names⟩ : Path).isAbsolute = false := by
    rw [← Bool.not_eq_true, isAbsolute_iff, hparts]
    cases names <;> simp
  rw [absolutize, habsolute, if_neg (by simp), normalize_eq, parts_join, habsolute,
    if_neg (by simp), hparts, normalize_eq, normalComponents, List.foldl_append,
    foldl_foldComponent_map_name, List.reverse_append, List.reverse_reverse, ofComponents,
    List.foldl_append, List.foldl_map]
  rfl

/-- The segments of a text that are read as names. -/
lemma isName_encodeChars {s : List Char} (hslash : '/' ∉ s) (hne : s ≠ []) (hdot : s ≠ ['.'])
    (hparent : s ≠ ['.', '.']) : IsName (Utf8.encodeChars s) := by
  have hne' : Utf8.encodeChars s ≠ Utf8.encodeChars [] := Utf8.encodeChars_injective.ne hne
  have hdot' : Utf8.encodeChars s ≠ Utf8.encodeChars ['.'] := Utf8.encodeChars_injective.ne hdot
  have hparent' : Utf8.encodeChars s ≠ Utf8.encodeChars ['.', '.'] :=
    Utf8.encodeChars_injective.ne hparent
  have hbytes : Utf8.encodeChars ['.'] = [dot] ∧ Utf8.encodeChars ['.', '.'] = [dot, dot] :=
    ⟨rfl, rfl⟩
  rw [hbytes.1] at hdot'
  rw [hbytes.2] at hparent'
  exact ⟨Utf8.not_mem_encodeChars (by decide) hslash,
    (if_neg (not_or.2 ⟨hne', hdot'⟩)).trans (if_neg hparent')⟩

/-! ## The order -/

namespace Component

/-- The kinds of components in their order. -/
def rank : Component → Nat
  | root => 0
  | current => 1
  | parent => 2
  | name _ => 3

instance : LT Component :=
  ⟨fun a b => a.rank < b.rank ∨ a.rank = b.rank ∧ a.bytes < b.bytes⟩

@[simp] lemma name_lt_name_iff {m n : Bytes} : name m < name n ↔ m < n := by
  change (_ < _ ∨ _ = _ ∧ _) ↔ _
  simp [rank, bytes]

end Component

instance : LT Path := ⟨fun p q => p.components < q.components⟩

lemma map_name_lt_map_name_iff {names names' : List Bytes} :
    names.map Component.name < names'.map Component.name ↔ names < names' := by
  induction names generalizing names' with
  | nil => cases names' <;> simp
  | cons n names ih =>
    cases names' with
    | nil => simp
    | cons n' names' => simp [List.cons_lt_cons_iff, ih]

lemma append_lt_append_iff {cs as bs : List Component} :
    cs ++ as < cs ++ bs ↔ as < bs := by
  induction cs with
  | nil => rfl
  | cons c cs ih =>
    have hirrefl : ¬ c < c := by
      rintro (h | ⟨-, h⟩)
      · exact Nat.lt_irrefl _ h
      · exact List.lt_irrefl _ h
    rw [List.cons_append, List.cons_append, List.cons_lt_cons_iff, ih]
    simp [hirrefl]

/-- Below one path, the order is that of the names. -/
theorem below_lt_below_iff {p : Path} (hp : p.bytes ≠ []) {names names' : List Bytes}
    (hnames : ∀ n ∈ names, IsFileName n) (hnames' : ∀ n ∈ names', IsFileName n) :
    p.below names < p.below names' ↔ names < names' := by
  change (p.below names).components < (p.below names').components ↔ _
  rw [components_below hp hnames, components_below hp hnames', append_lt_append_iff,
    map_name_lt_map_name_iff]

end Path

end StyleGuide
