import Mathlib.Data.List.Basic
import Mathlib.Tactic.Common
import StyleGuide.Json.Basic

/-!
# Positions inside a value

Every value inside a value has a position, by which it is found from the outside: the places of the
items and fields to go through. A value is what its frame is, which says how many items or which
names there are, together with what stands right inside it.

## Main definitions

* `Json.children`, `Json.frame`: what stands right inside a value, and what else there is of it.
* `Json.at?`: what stands at a position.

## Main results

* `Json.eq_withChildren_iff`: a value is known by its frame and what stands right inside it.
* `Json.childrenInduction`: what holds of a value when it holds of all right inside it holds of all.
-/

namespace StyleGuide.Json

/-- The values right inside a value, in the order in which they are written. -/
def children : Json → List Json
  | array items => items
  | object fields => fields.map Prod.snd
  | _ => []

/-- A value without what stands right inside it: scalars as they are, the number of the items of an
array, the names of the fields of an object in their order. -/
def frame : Json → Json
  | array items => array (items.map fun _ => null)
  | object fields => object (fields.map fun f => (f.1, null))
  | scalar => scalar

/-- The value with others in the place of those right inside it. -/
def withChildren : Json → List Json → Json
  | array _, values => array values
  | object fields, values => object ((fields.map Prod.fst).zip values)
  | scalar, _ => scalar

/-- What stands at a position, which gives a place for each step inwards. -/
def at? : Json → List Nat → Option Json
  | v, [] => some v
  | v, i :: p => v.children[i]?.bind (at? · p)

variable {v w : Json} {values : List Json}

@[simp] lemma at?_nil (v : Json) : v.at? [] = some v := rfl

@[simp] lemma at?_cons (v : Json) (i : Nat) (p : List Nat) :
    v.at? (i :: p) = v.children[i]?.bind (at? · p) := rfl

/-! ## Frames -/

/-- Values with the same frame have as much right inside them. -/
lemma length_children_of_frame (h : w.frame = v.frame) :
    w.children.length = v.children.length := by
  cases v <;> cases w <;> simp only [frame, reduceCtorEq] at h
  case array.array items items' =>
    simpa [children] using congrArg List.length (array.inj h)
  case object.object fields fields' =>
    simpa [children] using congrArg List.length (object.inj h)
  all_goals rfl

/-- A value is known by its frame and by what stands right inside it. -/
theorem eq_withChildren_iff (hlen : values.length = v.children.length) :
    w = v.withChildren values ↔ w.frame = v.frame ∧ w.children = values := by
  cases v with
  | array items =>
    cases w <;> simp only [withChildren, frame, children, reduceCtorEq, false_and, array.injEq]
    rw [List.map_const', List.map_const', List.replicate_left_inj]
    refine ⟨fun h => ⟨?_, h⟩, And.right⟩
    rw [h, hlen, children]
  | object fields =>
    cases w with
    | object others =>
      simp only [withChildren, frame, children, object.injEq]
      have hnames : (others.map fun f => (f.1, null)) = (fields.map fun f => (f.1, null)) ↔
          others.map Prod.fst = fields.map Prod.fst := by
        have hpair : Function.Injective fun name : String => (name, null) :=
          fun _ _ h => (Prod.mk.inj h).1
        have hmap : ∀ fs : List (String × Json),
            (fs.map fun f => (f.1, null)) = (fs.map Prod.fst).map fun name => (name, null) := by
          simp
        rw [hmap, hmap, hpair.list_map.eq_iff]
      rw [hnames]
      constructor
      · rintro rfl
        have hlen : (fields.map Prod.fst).length = values.length := by
          simpa [children] using hlen.symm
        exact ⟨List.map_fst_zip (Nat.le_of_eq hlen), List.map_snd_zip (Nat.le_of_eq hlen.symm)⟩
      · rintro ⟨hfst, rfl⟩
        rw [← hfst, ← List.unzip_fst, ← List.unzip_snd, List.zip_unzip]
    | _ => simp only [withChildren, frame, reduceCtorEq, false_and]
  | _ =>
    obtain rfl : values = [] := List.eq_nil_of_length_eq_zero hlen
    cases w <;> simp [withChildren, frame, children]

/-! ## Induction -/

lemma sizeOf_lt_of_mem_children (h : w ∈ v.children) : sizeOf w < sizeOf v := by
  cases v with
  | array items =>
    have := List.sizeOf_lt_of_mem h
    simp only [children, array.sizeOf_spec] at this ⊢
    omega
  | object fields =>
    obtain ⟨⟨name, value⟩, hmem, rfl⟩ := List.mem_map.1 h
    have := List.sizeOf_lt_of_mem hmem
    simp only [Prod.mk.sizeOf_spec, object.sizeOf_spec] at this ⊢
    omega
  | _ => cases h

/-- What holds of a value whenever it holds of all values right inside it holds of every value. -/
theorem childrenInduction {P : Json → Prop} (h : ∀ v, (∀ u ∈ v.children, P u) → P v) (v : Json) :
    P v :=
  h v fun u _ => childrenInduction h u
termination_by v
decreasing_by exact sizeOf_lt_of_mem_children ‹_›

end StyleGuide.Json
