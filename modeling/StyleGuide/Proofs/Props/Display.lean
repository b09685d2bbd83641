import Mathlib.Logic.Function.Iterate
import StyleGuide.Proofs.Props.TypeReader

/-!
# Arrays in tables

The short form of an array shows the tag of its items, and not their short form. The two differ for
arrays and for instances of classes, so from two arrays on nothing of what they hold is shown,
however many pairs of brackets the type was written with.

## Main definitions

* `PropType.brackets`: several pairs of brackets.

## Main results

* `PropType.read_append_brackets`: each pair of brackets behind a type is one more array.
* `PropType.display_arrayOf_iff`: when the short form of an array is that of its items with a pair
  of brackets behind it.
-/

namespace StyleGuide.PropType

open StyleGuide.Bracket Member

variable {cs : List Char}

/-! ## Tags and short forms -/

/-- The short form of a type is its tag, except for arrays and instances. -/
lemma name_eq_display_iff (t : PropType) :
    t.name = t.display ↔ (∀ item, t ≠ arrayOf item) ∧ ∀ c, t = instanceOf c → c = "instanceOf" := by
  cases t with
  | arrayOf item =>
    refine iff_of_false (fun heq => ?_) fun h => h.1 item rfl
    have hlast := congrArg (fun s : String => s.toList.getLast?) heq
    simp [name, display] at hlast
  | instanceOf className => simp [name, display, eq_comm]
  | _ => simp [name, display]

lemma display_arrayOf_eq_iff (t : PropType) :
    (arrayOf t).display = t.display ++ "[]" ↔
      (∀ item, t ≠ arrayOf item) ∧ ∀ c, t = instanceOf c → c = "instanceOf" := by
  have happend : (arrayOf t).display = t.display ++ "[]" ↔ t.name = t.display := by
    simp [display, ← String.toList_inj]
  rw [happend, name_eq_display_iff]

/-! ## Nested arrays -/

/-- Two arrays show nothing of what they hold. -/
lemma display_iterate_arrayOf (t : PropType) (n : Nat) :
    (arrayOf^[n + 2] t).display = "arrayOf[]" := by
  rw [Function.iterate_succ_apply', Function.iterate_succ_apply']
  rfl

/-- Pairs of brackets, `n` of them. -/
def brackets : Nat → List Char
  | 0 => []
  | n + 1 => brackets n ++ "[]".toList

lemma display_iterate_primitive_iff (name : String) (n : Nat) :
    (arrayOf^[n] (primitive name)).display.toList = name.toList ++ brackets n ↔ n ≤ 1 := by
  match n with
  | 0 => simp [display, PropType.name, brackets]
  | 1 => simp [display, PropType.name, brackets]
  | n + 2 =>
    refine iff_of_false (fun heq => ?_) (by omega)
    rw [display_iterate_arrayOf, brackets, brackets] at heq
    -- In front of the last pair there is the end of a word on one side, and a bracket on the other.
    have hthird := congrArg (fun cs => cs.reverse[2]?) heq
    simp at hthird

/-! ## Arrays that are read -/

lemma balanced_brackets (n : Nat) : Balanced (brackets n) := by
  induction n with
  | zero => exact balanced_nil
  | succ n ih => exact ih.append (by decide)

lemma clean_brackets (n : Nat) : Clean divides (brackets n) := by
  induction n with
  | zero => trivial
  | succ n ih => exact ih.append (by decide) (balanced_brackets n) (by decide)

/-- Behind a type that nothing divides, each pair of brackets is one more array. -/
theorem read_append_brackets (htrimmed : IsTrimmed cs) (hbalanced : Balanced cs)
    (hclean : Clean divides cs) (n : Nat) : read (cs ++ brackets n) = arrayOf^[n] (read cs) := by
  induction n with
  | zero => simp [brackets]
  | succ n ih =>
    have hfront : Balanced (cs ++ brackets n) := hbalanced.append (balanced_brackets n)
    have hdivides : Clean divides (cs ++ brackets n) :=
      hclean.append (clean_brackets n) hbalanced (balanced_brackets n).head_ne
    have hends : IsTrimmed "[]".toList := ⟨⟨'[', rfl, rfl⟩, ⟨']', rfl, rfl⟩⟩
    have hwhole : IsTrimmed (cs ++ brackets n ++ "[]".toList) := htrimmed.append hends
    have hsingle : IsSingle (cs ++ brackets n ++ "[]".toList) :=
      isSingle_append_wrap hfront hdivides balanced_nil rfl hwhole
    have hround : enclosed? '(' ')' (cs ++ brackets n ++ "[]".toList) = none := by
      obtain ⟨c, rest, hcs⟩ := List.exists_cons_of_ne_nil htrimmed.ne_nil
      have hlast : (rest ++ brackets n ++ "[]".toList).getLast? = some ']' := by simp
      rw [hcs, List.cons_append, List.cons_append, enclosed?, hlast]
      simp
    have hassoc : cs ++ brackets (n + 1) = cs ++ brackets n ++ "[]".toList := by
      rw [brackets, List.append_assoc]
    rw [hassoc, hsingle.read_eq, hround, beforeBrackets?_append]
    simp only
    rw [ih, Function.iterate_succ_apply']

/-- The short form of an array is that of its items with a pair of brackets behind it, unless the
items are arrays themselves, or instances of a class that is not called like their tag. So one array
around a name is shown as it was written, and no more than one. -/
theorem display_arrayOf_iff (t : PropType) (name : String) (n : Nat) :
    ((arrayOf t).display = t.display ++ "[]" ↔
        (∀ item, t ≠ arrayOf item) ∧ ∀ c, t = instanceOf c → c = "instanceOf") ∧
      (arrayOf^[n + 2] t).display = "arrayOf[]" ∧
      ((arrayOf^[n] (primitive name)).display.toList = name.toList ++ brackets n ↔ n ≤ 1) ∧
      (IsTrimmed name.toList → Balanced name.toList → Clean divides name.toList →
        read name.toList = primitive name →
          ((read (name.toList ++ brackets n)).display.toList = name.toList ++ brackets n ↔
            n ≤ 1)) := by
  refine ⟨display_arrayOf_eq_iff t, display_iterate_arrayOf t n,
    display_iterate_primitive_iff name n, ?_⟩
  intro htrimmed hbalanced hclean hread
  rw [read_append_brackets htrimmed hbalanced hclean, hread]
  exact display_iterate_primitive_iff name n

/-- Of `number[]` and `number[][]`, the first one is shown as it was written. -/
theorem display_brackets_number :
    (read "number[]".toList).display.toList = "number[]".toList ∧
      (read "number[][]".toList).display.toList ≠ "number[][]".toList := by
  have hname : IsName "number".toList := by decide
  have hclean : Clean divides "number".toList := by decide
  have hread : read "number".toList = primitive "number" := read_name hname (by decide)
  have hiff := fun n => (display_arrayOf_iff (primitive "number") "number" n).2.2.2
    hname.isTrimmed hname.balanced hclean hread
  exact ⟨(hiff 1).2 (by decide), fun heq => absurd ((hiff 2).1 heq) (by decide)⟩

/-- Two arrays of numbers are not shown as such, and neither is an array of dates. -/
theorem display_arrayOf_nested :
    let row := arrayOf (primitive "number")
    let date := instanceOf "Date"
    read "number[][]".toList = arrayOf row ∧
      (arrayOf row).display = "arrayOf[]" ∧ (arrayOf row).display ≠ row.display ++ "[]" ∧
      (arrayOf date).display = "instanceOf[]" ∧ (arrayOf date).display ≠ date.display ++ "[]" := by
  have hname : IsName "number".toList := by decide
  have hread : read "number".toList = primitive "number" := read_name hname (by decide)
  have hbrackets := read_append_brackets hname.isTrimmed hname.balanced (by decide) 2
  rw [hread] at hbrackets
  exact ⟨hbrackets, rfl, by decide, rfl, by decide⟩

end StyleGuide.PropType
