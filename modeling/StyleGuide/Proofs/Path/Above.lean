import Mathlib.Logic.Relation
import StyleGuide.Proofs.Path.Rooted

/-!
# Paths above a path

The directory that holds a path, the directory that holds that one, and so on: the path begins with
each of them, as it is written.

## Main definitions

* `Path.IsAbove`: a path is one of the directories that hold another one.

## Main results

* `Path.IsAbove.isPrefix`: a path begins with the text of all paths above it.
* `Path.eq_or_isAbove_fromRoot_iff`: below the root, the names of a path begin with those of the
  paths above it.
-/

namespace StyleGuide

/-- The first pieces, joined, are the start of all pieces, joined. -/
lemma prefix_joinWith {α : Type} (x : α) {ps qs : List (List α)} (h : ps <+: qs) :
    joinWith x ps <+: joinWith x qs := by
  obtain ⟨rest, rfl⟩ := h
  induction ps with
  | nil => exact List.nil_prefix
  | cons p ps ih =>
    cases ps with
    | nil =>
      cases rest with
      | nil => exact List.prefix_rfl
      | cons q rest => exact List.prefix_append p _
    | cons next ps => exact (List.prefix_append_right_inj p).2 ((List.prefix_cons_inj x).2 ih)

namespace Path

variable {p q r : Path}

/-- The path `q` is one of the directories that hold `p`, `p` itself apart. -/
def IsAbove (q p : Path) : Prop := Relation.TransGen (fun p q : Path => p.parent? = some q) p q

lemma IsAbove.of_parent? (h : p.parent? = some q) : q.IsAbove p := .single h

lemma IsAbove.parent? (h : q.IsAbove p) (hr : q.parent? = some r) : r.IsAbove p := .tail h hr

/-- What is kept of the pieces in front of the last one stands at the front of all pieces. -/
lemma prefix_joinWith_dropTrailing {absolute : Bool} {body last : Bytes} {above : List Bytes}
    (h : dropTrailing absolute (cut (· == slash) body).reverse = last :: above) :
    joinWith slash (dropTrailing absolute above).reverse <+: body := by
  have hsuffix : dropTrailing absolute above <:+ (cut (· == slash) body).reverse :=
    ((dropTrailing_suffix _ above).trans (List.suffix_cons last above)).trans
      (h ▸ dropTrailing_suffix _ _)
  have hprefix := List.reverse_prefix.2 hsuffix
  rw [List.reverse_reverse] at hprefix
  simpa only [joinWith_cut] using prefix_joinWith slash hprefix

/-- A path begins with the directory that holds it. -/
theorem isPrefix_of_parent? (h : p.parent? = some q) : q.bytes <+: p.bytes := by
  unfold Path.parent? at h
  simp only at h
  split at h
  · cases h
  next last above hpieces =>
    cases h
    obtain ⟨bytes⟩ := p
    split_ifs at hpieces with habsolute
    · obtain _ | ⟨b, bytes⟩ := bytes
      · cases habsolute
      · obtain rfl : b = slash := by simpa [isAbsolute] using habsolute
        rw [if_pos habsolute]
        exact (List.prefix_cons_inj slash).2 (prefix_joinWith_dropTrailing hpieces)
    · rw [if_neg habsolute]
      exact prefix_joinWith_dropTrailing hpieces

/-- A path begins with all that is above it. -/
theorem IsAbove.isPrefix (h : q.IsAbove p) : q.bytes <+: p.bytes := by
  induction h with
  | single h => exact isPrefix_of_parent? h
  | tail _ h ih => exact (isPrefix_of_parent? h).trans ih

/-! ## Below the root -/

section FromRoot

variable {names upper : List Bytes}

lemma exists_of_parent?_fromRoot (hnames : ∀ n ∈ names, IsName n)
    (h : (fromRoot names).parent? = some q) :
    ∃ n front, names = front ++ [n] ∧ q = fromRoot front := by
  rcases List.eq_nil_or_concat' names with rfl | ⟨front, n, rfl⟩
  · cases h
  · rw [parent?_fromRoot_concat hnames, Option.some.injEq] at h
    exact ⟨n, front, rfl, h.symm⟩

/-- What is above a path from the root has fewer of its names. -/
lemma exists_of_isAbove_fromRoot (hnames : ∀ n ∈ names, IsName n) (h : q.IsAbove (fromRoot names)) :
    ∃ front, front <+: names ∧ q = fromRoot front := by
  induction h with
  | single h =>
    obtain ⟨n, front, rfl, rfl⟩ := exists_of_parent?_fromRoot hnames h
    exact ⟨front, List.prefix_append _ _, rfl⟩
  | tail _ h ih =>
    obtain ⟨front, hfront, rfl⟩ := ih
    have hup : ∀ n ∈ front, IsName n := fun n hn => hnames n (hfront.subset hn)
    obtain ⟨n, outer, rfl, rfl⟩ := exists_of_parent?_fromRoot hup h
    exact ⟨outer, (List.prefix_append _ _).trans hfront, rfl⟩

lemma eq_or_isAbove_fromRoot_append (more : List Bytes) (h : ∀ n ∈ upper ++ more, IsName n) :
    fromRoot upper = fromRoot (upper ++ more) ∨
      (fromRoot upper).IsAbove (fromRoot (upper ++ more)) := by
  induction more using List.reverseRecOn with
  | nil => exact .inl (by rw [List.append_nil])
  | append_singleton more n ih =>
    rw [← List.append_assoc] at h ⊢
    have hparent := parent?_fromRoot_concat h
    rcases ih fun m hm => h m (List.mem_append_left _ hm) with heq | habove
    · exact .inr (.of_parent? (heq ▸ hparent))
    · exact .inr (.head hparent habove)

/-- A path from the root is another one, or above it, when its names are the first ones of the
other. -/
theorem eq_or_isAbove_fromRoot_iff (hnames : ∀ n ∈ names, IsName n)
    (hupper : ∀ n ∈ upper, IsName n) :
    fromRoot upper = fromRoot names ∨ (fromRoot upper).IsAbove (fromRoot names) ↔
      upper <+: names := by
  constructor
  · rintro (heq | habove)
    · exact fromRoot_inj hupper hnames heq ▸ List.prefix_rfl
    · obtain ⟨front, hfront, heq⟩ := exists_of_isAbove_fromRoot hnames habove
      have hup : ∀ n ∈ front, IsName n := fun n hn => hnames n (hfront.subset hn)
      rwa [fromRoot_inj hupper hup heq]
  · rintro ⟨more, rfl⟩
    exact eq_or_isAbove_fromRoot_append more hnames

end FromRoot

end Path

end StyleGuide
