import Mathlib.Algebra.BigOperators.Group.Finset.Piecewise
import Mathlib.Algebra.BigOperators.Ring.Finset
import Mathlib.Algebra.Group.Action.Defs
import Mathlib.Algebra.Order.BigOperators.Group.Finset
import Mathlib.Data.Fintype.Card
import Seuss.Data.Pool

/-!
This module contains weights of pools, one pool at each of finitely many places: what an element that
comes, goes or changes does to the total.
-/

namespace Tally

open Finset

variable {α : Type u} {β : Type w} {ι : Type v} (f : α → Nat)

def weight (l : List α) : Nat :=
  match l with
  | [] => 0
  | a :: l => f a + weight l

section weight

variable {f} {l l₁ l₂ : List α} {k : Nat} {a : α}

@[simp]
theorem weight_nil : weight f [] = 0 := by
  rfl

@[simp]
theorem weight_cons : weight f (a :: l) = f a + weight f l := by
  rfl

@[simp]
theorem weight_append : weight f (l₁ ++ l₂) = weight f l₁ + weight f l₂ := by
  induction l₁ with
  | nil => simp
  | cons a l₁ ih =>
    rw [List.cons_append, weight_cons, weight_cons, ih]
    omega

theorem weight_perm (h : l₁.Perm l₂) : weight f l₁ = weight f l₂ := by
  induction h with
  | nil => rfl
  | cons a _ ih => rw [weight_cons, weight_cons, ih]
  | swap a b l =>
    simp only [weight_cons]
    omega
  | trans _ _ ih₁ ih₂ => rw [ih₁, ih₂]

theorem weight_take (h : l[k]? = some a) : weight f (l.eraseIdx k) + f a = weight f l := by
  rw [← weight_perm (Pool.perm_of_getElem? h), weight_cons, Nat.add_comm]

theorem weight_set (h : l[k]? = some a) (b : α) : weight f (l.set k b) + f a = weight f l + f b := by
  rw [weight_perm (Pool.perm_set h b), weight_cons]
  have htake := weight_take (f := f) h
  omega

theorem weight_le_length (h : ∀ a, f a ≤ 1) : weight f l ≤ l.length := by
  induction l with
  | nil => rfl
  | cons a l ih =>
    rw [weight_cons, List.length_cons]
    have := h a
    omega

theorem weight_eq_zero (h : ∀ a ∈ l, f a = 0) : weight f l = 0 := by
  induction l with
  | nil => rfl
  | cons a l ih =>
    rw [List.forall_mem_cons] at h
    rw [weight_cons, h.1, ih h.2]

theorem le_weight (h : a ∈ l) : f a ≤ weight f l := by
  rcases List.getElem?_of_mem h with ⟨k, hk⟩
  have htake := weight_take (f := f) hk
  omega

theorem weight_mono {g : α → Nat} (hle : ∀ a, f a ≤ g a) : weight f l ≤ weight g l := by
  induction l with
  | nil => rfl
  | cons a l ih =>
    simp only [weight_cons]
    have := hle a
    omega

end weight

variable [Fintype ι]

def tally (pools : ι → List α) : Nat :=
  ∑ i, weight f (pools i)

section tally

variable {f} {pools : ι → List α} {i : ι} {k : Nat} {a : α}

theorem sum_update [DecidableEq ι] (h : β → Nat) (g : ι → β) (i : ι) (b : β) :
    ∑ j, h (Function.update g i b j) + h (g i) = ∑ j, h (g j) + h b := by
  have happly : (fun j => h (Function.update g i b j)) = Function.update (fun j => h (g j)) i (h b) := by
    funext j
    apply Function.apply_update fun _ => h
  have hothers := sum_eq_add_sum_sdiff_singleton_of_mem (mem_univ i) fun j => h (g j)
  rw [happly, sum_update_of_mem (mem_univ i), hothers]
  omega

theorem tally_update [DecidableEq ι] (pools : ι → List α) (i : ι) (l : List α) :
    tally f (Function.update pools i l) + weight f (pools i) = tally f pools + weight f l :=
  sum_update (weight f) pools i l

theorem tally_put [DecidableEq ι] (pools : ι → List α) (i : ι) (l : List α) :
    tally f (Function.update pools i (pools i ++ l)) = tally f pools + weight f l := by
  have hupdate := tally_update (f := f) pools i (pools i ++ l)
  rw [weight_append] at hupdate
  omega

theorem tally_take [DecidableEq ι] (h : (pools i)[k]? = some a) :
    tally f (Function.update pools i ((pools i).eraseIdx k)) + f a = tally f pools := by
  have hupdate := tally_update (f := f) pools i ((pools i).eraseIdx k)
  have htake := weight_take (f := f) h
  omega

theorem tally_set [DecidableEq ι] (h : (pools i)[k]? = some a) (b : α) :
    tally f (Function.update pools i ((pools i).set k b)) + f a = tally f pools + f b := by
  have hupdate := tally_update (f := f) pools i ((pools i).set k b)
  have hset := weight_set (f := f) h b
  omega

theorem tally_le (hf : ∀ a, f a ≤ 1) {m : Nat} (h : ∀ i, (pools i).length ≤ m) :
    tally f pools ≤ Fintype.card ι * m := by
  unfold tally
  have hle := sum_le_card_nsmul univ (fun i => weight f (pools i)) m
    fun i _ => Nat.le_trans (weight_le_length hf) (h i)
  rwa [card_univ, smul_eq_mul] at hle

theorem tally_eq_zero (h : ∀ i, ∀ a ∈ pools i, f a = 0) : tally f pools = 0 := by
  apply sum_eq_zero
  intro i _
  exact weight_eq_zero (h i)

theorem le_tally (h : a ∈ pools i) : f a ≤ tally f pools := by
  apply Nat.le_trans (le_weight h)
  exact single_le_sum (f := fun j => weight f (pools j)) (fun _ _ => Nat.zero_le _) (mem_univ i)

-- What weighs something at one place leaves nothing for the others, where the total is at most 1.
theorem eq_zero_of_others [DecidableEq ι] (h : (pools i)[k]? = some a) (ha : 0 < f a)
    (htotal : tally f pools ≤ 1) {j : ι} {m : Nat} {b : α} (hb : (pools j)[m]? = some b) (hne : j = i → m ≠ k) :
    f b = 0 := by
  have htake := tally_take (f := f) h
  have hmem : b ∈ Function.update pools i ((pools i).eraseIdx k) j := by
    by_cases hj : j = i
    . subst hj
      rw [Function.update_self, List.mem_eraseIdx_iff_getElem?]
      exact ⟨m, hne rfl, hb⟩
    . rw [Function.update_of_ne hj]
      exact List.mem_of_getElem? hb
  have hle := le_tally (f := f) hmem
  omega

theorem sum_count_le [DecidableEq β] {g : ι → β} (hg : Function.Injective g) (l : List β) :
    ∑ i, l.count (g i) ≤ l.length := by
  induction l with
  | nil => simp
  | cons b l ih =>
    have hone : (∑ i, if b = g i then 1 else 0) ≤ 1 := by
      rw [sum_boole, Nat.cast_id, card_le_one]
      intro i hi j hj
      rw [mem_filter] at hi hj
      exact hg (hi.2.symm.trans hj.2)
    simp only [List.count_cons, beq_iff_eq, sum_add_distrib, List.length_cons]
    omega

theorem tally_mono {g : α → Nat} (hle : ∀ a, f a ≤ g a) : tally f pools ≤ tally g pools := by
  apply sum_le_sum
  intro i _
  exact weight_mono hle

end tally

end Tally
