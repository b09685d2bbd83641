import Mathlib.Data.List.Forall2
import Mathlib.Tactic.Lemma

/-!
# Steps that may fail, in order

A step that fails ends what follows on it. Taken in order, steps give all their results, or they
fail for the reason of the first step that does.

## Main definitions

* `FailsFirst`: a reason is that of the first step that fails.
* `Follows`: a computation succeeds where all steps do, and else fails as the first one that does.

## Main results

* `mapM_eq_ok_iff`, `mapM_eq_error_iff`: when a step for each item of a list gives results, and when
  it fails.
* `mapM_modify`: a change at one place of the list changes the results at the same place alone.
-/

namespace StyleGuide

variable {ε α β γ : Type}

/-! ## Two steps -/

lemma bind_eq_ok_iff {r : Except ε α} {k : α → Except ε β} {b : β} :
    r >>= k = .ok b ↔ ∃ a, r = .ok a ∧ k a = .ok b := by
  cases r with
  | error e =>
    constructor
    · intro h
      cases h
    · rintro ⟨a, h, -⟩
      cases h
  | ok a =>
    refine ⟨fun h => ⟨a, rfl, h⟩, ?_⟩
    rintro ⟨_, h, h'⟩
    cases h
    exact h'

lemma bind_eq_error_iff {r : Except ε α} {k : α → Except ε β} {e : ε} :
    r >>= k = .error e ↔ r = .error e ∨ ∃ a, r = .ok a ∧ k a = .error e := by
  cases r with
  | error e' =>
    constructor
    · intro h
      cases h
      exact .inl rfl
    · rintro (h | ⟨a, h, -⟩)
      · cases h
        rfl
      · cases h
  | ok a =>
    refine ⟨fun h => .inr ⟨a, rfl, h⟩, ?_⟩
    rintro (h | ⟨_, h, h'⟩)
    · cases h
    · cases h
      exact h'

lemma map_eq_ok_iff {r : Except ε α} {f : α → β} {b : β} :
    r.map f = .ok b ↔ ∃ a, r = .ok a ∧ f a = b := by
  cases r <;> simp [Except.map]

lemma map_eq_error_iff {r : Except ε α} {f : α → β} {e : ε} :
    r.map f = .error e ↔ r = .error e := by
  cases r <;> simp [Except.map]

lemma mapError_eq_ok_iff {δ : Type} {f : ε → δ} {r : Except ε α} {a : α} :
    r.mapError f = .ok a ↔ r = .ok a := by
  cases r <;> simp [Except.mapError]

lemma mapError_eq_error_iff {δ : Type} {f : ε → δ} {r : Except ε α} {d : δ} :
    r.mapError f = .error d ↔ ∃ e, r = .error e ∧ f e = d := by
  cases r <;> simp [Except.mapError]

lemma toOption_eq_some_iff {r : Except ε α} {a : α} : r.toOption = some a ↔ r = .ok a := by
  cases r <;> simp [Except.toOption]

/-! ## A step for each item -/

variable {f : α → Except ε β} {xs ys : List α}

/-- The steps before some item succeed, and its own step fails for the reason `e`. -/
def FailsFirst (f : α → Except ε β) (xs : List α) (e : ε) : Prop :=
  ∃ before x after, xs = before ++ x :: after ∧ (∀ y ∈ before, ∃ b, f y = .ok b) ∧ f x = .error e

lemma not_failsFirst_nil {e : ε} : ¬ FailsFirst f [] e := by
  rintro ⟨before, x, after, h, -⟩
  cases before <;> cases h

lemma failsFirst_cons_iff {x : α} {e : ε} :
    FailsFirst f (x :: xs) e ↔ f x = .error e ∨ (∃ b, f x = .ok b) ∧ FailsFirst f xs e := by
  constructor
  · rintro ⟨before, y, after, h, hbefore, hy⟩
    cases before with
    | nil =>
      cases h
      exact .inl hy
    | cons z before =>
      cases h
      simp only [List.mem_cons, forall_eq_or_imp] at hbefore
      exact .inr ⟨hbefore.1, before, y, after, rfl, hbefore.2, hy⟩
  · rintro (hx | ⟨hx, before, y, after, rfl, hbefore, hy⟩)
    · exact ⟨[], x, xs, rfl, by simp, hx⟩
    · exact ⟨x :: before, y, after, rfl, by simpa using ⟨hx, hbefore⟩, hy⟩

/-- The same, with the items told by their places. -/
lemma failsFirst_iff_getElem? {e : ε} :
    FailsFirst f xs e ↔ ∃ (i : Nat) (x : α), xs[i]? = some x ∧ f x = .error e ∧
      ∀ j y, j < i → xs[j]? = some y → ∃ b, f y = .ok b := by
  constructor
  · rintro ⟨before, x, after, rfl, hbefore, hx⟩
    refine ⟨before.length, x, by simp, hx, fun j y hj hy => hbefore y ?_⟩
    rw [List.getElem?_append_left hj] at hy
    exact List.mem_of_getElem? hy
  · rintro ⟨i, x, hxs, hx, hbefore⟩
    obtain ⟨hi, rfl⟩ := List.getElem?_eq_some_iff.1 hxs
    refine ⟨xs.take i, _, xs.drop (i + 1), ?_, fun y hy => ?_, hx⟩
    · rw [List.getElem_cons_drop hi, List.take_append_drop]
    · obtain ⟨j, hj⟩ := List.getElem?_of_mem hy
      rw [List.getElem?_take, Option.ite_none_right_eq_some] at hj
      exact hbefore j y hj.1 hj.2

/-- There are results when each item has one. -/
theorem mapM_eq_ok_iff {bs : List β} :
    xs.mapM f = .ok bs ↔ List.Forall₂ (fun x b => f x = .ok b) xs bs := by
  induction xs generalizing bs with
  | nil => cases bs <;> simp [pure, Except.pure]
  | cons x xs ih =>
    simp only [List.mapM_cons, bind_eq_ok_iff, ih, List.forall₂_cons_left_iff]
    constructor
    · rintro ⟨b, hx, bs', hxs, h⟩
      cases h
      exact ⟨b, bs', hx, hxs, rfl⟩
    · rintro ⟨b, bs', hx, hxs, rfl⟩
      exact ⟨b, hx, bs', hxs, rfl⟩

lemma exists_mapM_eq_ok_iff :
    (∃ bs, xs.mapM f = .ok bs) ↔ ∀ x ∈ xs, ∃ b, f x = .ok b := by
  induction xs with
  | nil => exact ⟨by simp, fun _ => ⟨[], rfl⟩⟩
  | cons x xs ih =>
    simp only [List.mem_cons, forall_eq_or_imp, ← ih, mapM_eq_ok_iff,
      List.forall₂_cons_left_iff]
    constructor
    · rintro ⟨_, b, bs, hx, hxs, rfl⟩
      exact ⟨⟨b, hx⟩, bs, hxs⟩
    · rintro ⟨⟨b, hx⟩, bs, hxs⟩
      exact ⟨_, b, bs, hx, hxs, rfl⟩

/-- The reason of a failure is that of the first item that fails. -/
theorem mapM_eq_error_iff {e : ε} : xs.mapM f = .error e ↔ FailsFirst f xs e := by
  induction xs with
  | nil => exact ⟨fun h => (by cases h), fun h => absurd h not_failsFirst_nil⟩
  | cons x xs ih =>
    rw [List.mapM_cons, bind_eq_error_iff, failsFirst_cons_iff, ← ih]
    refine or_congr_right ⟨?_, ?_⟩
    · rintro ⟨b, hx, h⟩
      rcases bind_eq_error_iff.1 h with h | ⟨bs, -, h⟩
      · exact ⟨⟨b, hx⟩, h⟩
      · cases h
    · rintro ⟨⟨b, hx⟩, h⟩
      exact ⟨b, hx, bind_eq_error_iff.2 (.inl h)⟩

lemma exists_mapM_eq_error {x : α} (hx : x ∈ xs) {e : ε} (h : f x = .error e) :
    ∃ e', xs.mapM f = .error e' := by
  cases hmapM : xs.mapM f with
  | error e' => exact ⟨e', rfl⟩
  | ok bs =>
    obtain ⟨b, hb⟩ := exists_mapM_eq_ok_iff.1 ⟨bs, hmapM⟩ x hx
    rw [h] at hb
    cases hb

lemma exists_mapM_eq_error_iff :
    (∃ e, xs.mapM f = .error e) ↔ ∃ x ∈ xs, ∃ e, f x = .error e := by
  constructor
  · rintro ⟨e, h⟩
    obtain ⟨before, x, after, rfl, -, hx⟩ := mapM_eq_error_iff.1 h
    exact ⟨x, by simp, e, hx⟩
  · rintro ⟨x, hx, e, h⟩
    exact exists_mapM_eq_error hx h

/-- Steps of any kind that all give a result do nothing else. -/
lemma mapM_eq_pure_map {m : Type → Type} [Monad m] [LawfulMonad m] {f : α → m β} {g : α → β}
    (h : ∀ x ∈ xs, f x = pure (g x)) : xs.mapM f = pure (xs.map g) := by
  induction xs with
  | nil => rfl
  | cons x xs ih =>
    obtain ⟨hx, hxs⟩ := List.forall_mem_cons.1 h
    rw [List.mapM_cons, hx, ih hxs, pure_bind, pure_bind, List.map_cons]

lemma mem_iff_of_mapM_eq_ok {bs : List β} (h : xs.mapM f = .ok bs) {b : β} :
    b ∈ bs ↔ ∃ x ∈ xs, f x = .ok b := by
  rw [mapM_eq_ok_iff] at h
  induction h with
  | nil => simp
  | cons hx _ ih => simp [ih, hx, eq_comm]

/-- A change at one place of a list changes the results at the same place alone. -/
theorem mapM_modify {bs : List β} {g : α → α} {h : β → β} (hxs : xs.mapM f = .ok bs)
    (hgh : ∀ x ∈ xs, ∀ b, f x = .ok b → f (g x) = .ok (h b)) (i : Nat) :
    (xs.modify i g).mapM f = .ok (bs.modify i h) := by
  rw [mapM_eq_ok_iff] at hxs ⊢
  induction hxs generalizing i with
  | nil => simp
  | cons hx hxs ih =>
    simp only [List.mem_cons, forall_eq_or_imp] at hgh
    cases i with
    | zero => exact .cons (hgh.1 _ hx) hxs
    | succ i => exact .cons hx (ih hgh.2 i)

/-! ## Computations that are made of such steps -/

/-- A computation succeeds where there is a result for each item, and else fails for the reason of
the first item that has none. -/
def Follows (f : α → Except ε β) (xs : List α) (r : Except ε γ) : Prop :=
  r.map (fun _ => ()) = (xs.mapM f).map fun _ => ()

namespace Follows

variable {δ : Type} {r : Except ε γ} {k : γ → Except ε δ}

lemma ok (c : γ) : Follows f [] (.ok c) := rfl

lemma step {x : α} {k : β → δ} : Follows f [x] ((f x).map k) := by
  unfold Follows
  rw [List.mapM_cons]
  cases f x <;> rfl

/-- One computation after the other needs the items of both in their order. -/
lemma bind (hr : Follows f xs r) (hk : ∀ c, r = .ok c → Follows f ys (k c)) :
    Follows f (xs ++ ys) (r >>= k) := by
  unfold Follows at hr hk ⊢
  rw [List.mapM_append]
  cases hxs : xs.mapM f with
  | error e =>
    rw [hxs] at hr
    rw [map_eq_error_iff.1 hr]
    rfl
  | ok bs =>
    rw [hxs] at hr
    obtain ⟨c, rfl, -⟩ := map_eq_ok_iff.1 hr
    change (k c).map _ = (do let more ← ys.mapM f; pure (bs ++ more)).map _
    rw [hk c rfl]
    cases ys.mapM f <;> rfl

lemma map (hr : Follows f xs r) (g : γ → δ) : Follows f xs (r.map g) := by
  unfold Follows at hr ⊢
  rw [← hr]
  cases r <;> rfl

theorem exists_eq_ok_iff (hr : Follows f xs r) :
    (∃ c, r = .ok c) ↔ ∀ x ∈ xs, ∃ b, f x = .ok b := by
  rw [← exists_mapM_eq_ok_iff]
  unfold Follows at hr
  constructor
  · rintro ⟨c, rfl⟩
    obtain ⟨bs, hbs, -⟩ := map_eq_ok_iff.1 hr.symm
    exact ⟨bs, hbs⟩
  · rintro ⟨bs, hbs⟩
    rw [hbs] at hr
    obtain ⟨c, hc, -⟩ := map_eq_ok_iff.1 hr
    exact ⟨c, hc⟩

theorem eq_error_iff (hr : Follows f xs r) {e : ε} : r = .error e ↔ FailsFirst f xs e := by
  unfold Follows at hr
  rw [← mapM_eq_error_iff, ← map_eq_error_iff (f := fun _ => ()), hr, map_eq_error_iff]

end Follows

end StyleGuide
