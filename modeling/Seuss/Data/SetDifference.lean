import Mathlib.Data.List.Basic
import Mathlib.Order.Lattice

/-!
This module contains `std::set_difference`, which merges two ranges, and what it leaves of ranges that
are not sorted.
-/

section

variable {α : Type u} [LinearOrder α]

-- What is below the head of the first range is passed over in the second one.
def setDifference (l r : List α) : List α :=
  match l with
  | [] => []
  | x :: l =>
    match r.dropWhile (· < x) with
    | [] => x :: l
    | y :: r => if x < y then x :: setDifference l (y :: r) else setDifference l r

namespace SetDifference

variable {x y : α} {l r : List α}

@[simp]
theorem nil_right (l : List α) : setDifference l [] = l := by
  cases l with
  | nil => rfl
  | cons x l => rfl

theorem cons_self (x : α) (l r : List α) :
    setDifference (x :: l) (x :: r) = setDifference l r := by
  simp [setDifference]

theorem cons_of_lt (h : x < y) (l r : List α) :
    setDifference (x :: l) (y :: r) = x :: setDifference l (y :: r) := by
  simp [setDifference, h, not_lt_of_gt h]

theorem cons_of_gt (h : y < x) (l r : List α) :
    setDifference (x :: l) (y :: r) = setDifference (x :: l) r := by
  simp [setDifference, h]

theorem cons_cases (x : α) (l r : List α) :
    setDifference (x :: l) r = x :: l
      ∨ (∃ r', r' <:+ r ∧ setDifference (x :: l) r = x :: setDifference l r')
      ∨ ∃ r', x :: r' <:+ r ∧ setDifference (x :: l) r = setDifference l r' := by
  have hsuffix : r.dropWhile (· < x) <:+ r := List.dropWhile_suffix _
  simp only [setDifference]
  split
  . exact .inl rfl
  . next y r' heq =>
    rw [heq] at hsuffix
    have hle : ¬ y < x := by
      have hhead := List.head?_dropWhile_not (· < x) r
      simpa [heq] using hhead
    split
    . exact .inr (.inl ⟨_, hsuffix, rfl⟩)
    . next hlt =>
      have heqxy : y = x := le_antisymm (le_of_not_gt hlt) (le_of_not_gt hle)
      rw [heqxy] at hsuffix
      exact .inr (.inr ⟨_, hsuffix, rfl⟩)

theorem sublist (l r : List α) : (setDifference l r).Sublist l := by
  induction l generalizing r with
  | nil => exact List.Sublist.refl _
  | cons x l ih =>
    rcases cons_cases x l r with h | ⟨r', _, h⟩ | ⟨r', _, h⟩
    . rw [h]
    . rw [h]
      exact (ih r').cons_cons x
    . rw [h]
      exact (ih r').cons x

-- Nothing that the second range does not have is lost, whatever the order of the ranges.
theorem mem_of_not_mem (hl : x ∈ l) (hr : x ∉ r) : x ∈ setDifference l r := by
  induction l generalizing r with
  | nil => cases hl
  | cons y l ih =>
    rw [List.mem_cons] at hl
    rcases cons_cases y l r with h | ⟨r', hsuffix, h⟩ | ⟨r', hsuffix, h⟩
    . rw [h, List.mem_cons]
      exact hl
    . rw [h, List.mem_cons]
      rcases hl with rfl | hl
      . exact .inl rfl
      . exact .inr (ih hl fun hmem => hr (hsuffix.subset hmem))
    . rw [h]
      rcases hl with rfl | hl
      . exact absurd (hsuffix.subset List.mem_cons_self) hr
      . exact ih hl fun hmem => hr (hsuffix.subset (List.mem_cons_of_mem _ hmem))

/--
`r` is a subsequence of `l`, and what is passed over in `l` on the way to a member of `r` is below it.
-/
def InStep (l r : List α) : Prop :=
  match l, r with
  | _, [] => True
  | [], _ :: _ => False
  | x :: l, y :: r => (x = y ∧ InStep l r) ∨ (x < y ∧ InStep l (y :: r))

theorem InStep.sublist (h : InStep l r) : r.Sublist l := by
  induction l generalizing r with
  | nil =>
    cases r with
    | nil => exact List.Sublist.refl _
    | cons y r => cases h
  | cons x l ih =>
    cases r with
    | nil => exact List.nil_sublist _
    | cons y r =>
      rcases h with ⟨rfl, h⟩ | ⟨_, h⟩
      . exact (ih h).cons_cons x
      . exact (ih h).cons x

theorem inStep_of_sorted (hl : l.Pairwise (· < ·)) (hr : r.Pairwise (· < ·)) (h : r ⊆ l) :
    InStep l r := by
  induction l generalizing r with
  | nil =>
    rw [List.eq_nil_of_subset_nil h]
    trivial
  | cons x l ih =>
    cases r with
    | nil => trivial
    | cons y r =>
      rw [List.pairwise_cons] at hl
      rcases List.mem_cons.mp (h List.mem_cons_self) with rfl | hy
      . rw [List.pairwise_cons] at hr
        refine .inl ⟨rfl, ih hl.2 hr.2 ?_⟩
        intro z hz
        exact (List.mem_cons.mp (h (List.mem_cons_of_mem _ hz))).resolve_left (hr.1 z hz).ne'
      . refine .inr ⟨hl.1 y hy, ih hl.2 hr ?_⟩
        intro z hz
        have hne : z ≠ x := by
          rintro rfl
          rcases List.mem_cons.mp hz with rfl | hz
          . exact absurd (hl.1 z hy) (lt_irrefl z)
          . exact lt_asymm (hl.1 y hy) ((List.pairwise_cons.mp hr).1 z hz)
        exact (List.mem_cons.mp (h hz)).resolve_left hne

/--
Of two ranges without duplicates, of which the second one is part of the first one, the difference is
right just if they are in step.
-/
theorem forall_not_mem_iff (hl : l.Nodup) (hr : r.Nodup) (h : r ⊆ l) :
    (∀ z ∈ setDifference l r, z ∉ r) ↔ InStep l r := by
  induction l generalizing r with
  | nil =>
    rw [List.eq_nil_of_subset_nil h]
    simp [InStep]
  | cons x l ih =>
    cases r with
    | nil => simp [InStep]
    | cons y r =>
      rw [List.nodup_cons] at hl
      rcases lt_trichotomy x y with hlt | rfl | hgt
      . rw [cons_of_lt hlt, List.forall_mem_cons]
        have hinStep : InStep (x :: l) (y :: r) ↔ InStep l (y :: r) := by
          simp only [InStep, hlt.ne, false_and, hlt, true_and, false_or]
        rw [hinStep]
        constructor
        . rintro ⟨hx, hrest⟩
          refine (ih hl.2 hr ?_).mp hrest
          intro z hz
          refine (List.mem_cons.mp (h hz)).resolve_left ?_
          rintro rfl
          exact hx hz
        . intro hrest
          have hsub := hrest.sublist.subset
          exact ⟨fun hx => hl.1 (hsub hx), (ih hl.2 hr hsub).mpr hrest⟩
      . rw [cons_self]
        rw [List.nodup_cons] at hr
        have hinStep : InStep (x :: l) (x :: r) ↔ InStep l r := by
          simp only [InStep, lt_irrefl, true_and, false_and, or_false]
        have hsub : r ⊆ l := by
          intro z hz
          refine (List.mem_cons.mp (h (List.mem_cons_of_mem _ hz))).resolve_left ?_
          rintro rfl
          exact hr.1 hz
        rw [hinStep, ← ih hl.2 hr.2 hsub]
        constructor
        . intro hrest z hz hmem
          exact hrest z hz (List.mem_cons_of_mem _ hmem)
        . intro hrest z hz hmem
          rcases List.mem_cons.mp hmem with rfl | hmem
          . exact hl.1 ((SetDifference.sublist l r).subset hz)
          . exact hrest z hz hmem
      . have hinStep : ¬ InStep (x :: l) (y :: r) := by
          simp only [InStep, hgt.ne', false_and, not_lt_of_gt hgt, or_self, not_false_eq_true]
        rw [cons_of_gt hgt]
        constructor
        . intro hrest
          have hy := mem_of_not_mem (h List.mem_cons_self) (List.nodup_cons.mp hr).1
          exact absurd List.mem_cons_self (hrest y hy)
        . intro hrest
          exact absurd hrest hinStep

-- In step, the merge takes exactly the difference of the sets.
theorem mem_iff (hl : l.Nodup) (hr : r.Nodup) (h : InStep l r) :
    x ∈ setDifference l r ↔ x ∈ l ∧ x ∉ r := by
  constructor
  . intro hx
    have hnot := (forall_not_mem_iff hl hr h.sublist.subset).mpr h
    exact ⟨(sublist l r).subset hx, hnot x hx⟩
  . rintro ⟨hxl, hxr⟩
    exact mem_of_not_mem hxl hxr

end SetDifference

end
