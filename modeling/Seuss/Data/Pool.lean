import Mathlib.Data.List.Perm.Basic

/-!
This module contains facts about a history, which is a list that only grows at its end, and about a
pool, which is a list whose elements are also taken out at any position, such as the messages that
are in flight. Two pools can be related position by position.
-/

namespace History

variable {α : Type u} {es : List α} {e a : α} {k : Nat}

theorem getElem?_concat_of_lt (h : k < es.length) : (es ++ [e])[k]? = es[k]? := by
  rw [List.getElem?_append_left h]

theorem lt_length_of_getElem? (h : es[k]? = some a) : k < es.length := by
  rw [List.getElem?_eq_some_iff] at h
  exact h.1

theorem getElem?_concat_cases (h : (es ++ [e])[k]? = some a) :
    es[k]? = some a ∨ k = es.length ∧ e = a := by
  have hlt := lt_length_of_getElem? h
  simp only [List.length_append, List.length_singleton] at hlt
  cases Nat.lt_or_eq_of_le (Nat.le_of_lt_succ hlt) with
  | inl hlt =>
    rw [getElem?_concat_of_lt hlt] at h
    exact .inl h
  | inr heq =>
    rw [heq] at h
    simp only [List.getElem?_concat_length, Option.some.injEq] at h
    exact .inr ⟨heq, h⟩

theorem getElem?_concat_of_getElem? (h : es[k]? = some a) : (es ++ [e])[k]? = some a := by
  rw [getElem?_concat_of_lt (lt_length_of_getElem? h), h]

theorem getElem?_concat_iff : (es ++ [e])[k]? = some a ↔ es[k]? = some a ∨ k = es.length ∧ e = a := by
  constructor
  . exact getElem?_concat_cases
  . intro h
    cases h with
    | inl h => exact getElem?_concat_of_getElem? h
    | inr h =>
      rw [h.1, h.2, List.getElem?_concat_length]

theorem filterMap_concat (f : α → Option β) (es : List α) (e : α) :
    (es ++ [e]).filterMap f = es.filterMap f ++ (f e).toList := by
  rw [List.filterMap_append]
  cases h : f e with
  | none => rw [List.filterMap_cons_none h, List.filterMap_nil, Option.toList_none]
  | some b => rw [List.filterMap_cons_some h, List.filterMap_nil, Option.toList_some]

end History

namespace Pool

variable {α : Type u} {β : Type v} [DecidableEq β] {l : List α} {k : Nat} {a : α}

theorem perm_of_getElem? (h : l[k]? = some a) : (a :: l.eraseIdx k).Perm l := by
  rw [List.getElem?_eq_some_iff] at h
  rcases h with ⟨hk, rfl⟩
  apply List.getElem_cons_eraseIdx_perm

theorem eq_append_of_getElem? (h : l[k]? = some a) :
    ∃ l₁ l₂, l = l₁ ++ a :: l₂ ∧ l.eraseIdx k = l₁ ++ l₂ := by
  rw [List.getElem?_eq_some_iff] at h
  rcases h with ⟨hk, rfl⟩
  refine ⟨l.take k, l.drop (k + 1), ?_, List.eraseIdx_eq_take_drop_succ ..⟩
  simp

theorem filter_take_of_neg {p : α → Bool} (h : l[k]? = some a) (ha : p a = false) :
    (l.eraseIdx k).filter p = l.filter p := by
  rcases eq_append_of_getElem? h with ⟨l₁, l₂, hl, herase⟩
  rw [herase, hl, List.filter_append, List.filter_append, List.filter_cons_of_neg (by simp [ha])]

theorem filter_take_of_singleton {p : α → Bool} {b : α} (h : l[k]? = some a) (ha : p a = true)
    (hl : l.filter p = [b]) :
    a = b ∧ (l.eraseIdx k).filter p = [] := by
  rcases eq_append_of_getElem? h with ⟨l₁, l₂, rfl, herase⟩
  rw [List.filter_append, List.filter_cons_of_pos ha, List.append_eq_singleton_iff] at hl
  simp only [List.cons.injEq, reduceCtorEq, and_false, or_false] at hl
  rw [herase, List.filter_append, hl.1, hl.2.2]
  exact ⟨hl.2.1, rfl⟩

theorem mem_of_getElem? (h : l[k]? = some a) : a ∈ l :=
  List.mem_of_getElem? h

theorem count_take (f : α → β) (h : l[k]? = some a) (b : β) :
    (l.map f).count b = ((l.eraseIdx k).map f).count b + if f a = b then 1 else 0 := by
  rw [← ((perm_of_getElem? h).map f).count_eq, List.map_cons, List.count_cons]
  simp

theorem count_put (f : α → β) (l : List α) (a : α) (b : β) :
    ((l ++ [a]).map f).count b = (l.map f).count b + if f a = b then 1 else 0 := by
  simp [List.count_append, List.count_cons]

omit [DecidableEq β] in
theorem length_take (h : l[k]? = some a) : (l.eraseIdx k).length + 1 = l.length := by
  rw [← (perm_of_getElem? h).length_eq, List.length_cons]

theorem perm_set (h : l[k]? = some a) (b : α) : (l.set k b).Perm (b :: l.eraseIdx k) := by
  rcases List.getElem?_eq_some_iff.mp h with ⟨hk, _⟩
  have hset : (l.set k b)[k]? = some b := by
    rw [List.getElem?_set_self hk]
  rw [← List.eraseIdx_set_eq (a := b)]
  exact (perm_of_getElem? hset).symm

section perm

variable {l₁ l₂ l₃ l₄ : List α}

omit [DecidableEq β]

theorem perm_put_left (h : (l₁ ++ l₂).Perm l) (a : α) : (l₁ ++ [a] ++ l₂).Perm (l ++ [a]) := by
  rw [List.append_assoc, List.singleton_append]
  exact List.perm_middle.trans ((h.cons a).trans (List.perm_append_singleton a l).symm)

theorem perm_put_right (h : (l₁ ++ l₂).Perm l) (a : α) : (l₁ ++ (l₂ ++ [a])).Perm (l ++ [a]) := by
  rw [← List.append_assoc]
  exact h.append_right [a]

-- what is taken out of one list and put to the end of the other
theorem perm_move {f : α → β} {bs bs' : List β} (h : (bs ++ l.map f).Perm bs') (ha : l[k]? = some a) :
    (bs ++ [f a] ++ (l.eraseIdx k).map f).Perm bs' := by
  rw [List.append_assoc, List.singleton_append, ← List.map_cons]
  exact (((perm_of_getElem? ha).map f).append_left bs).trans h

/--
Where nothing repeats, two parts of the same elements are the same just if the other parts are.
-/
theorem perm_rest (h : (l₁ ++ l₂).Perm (l₃ ++ l₄)) (hnodup : (l₃ ++ l₄).Nodup)
    (hleft : ∀ a ∈ l₁, a ∈ l₃) (hright : ∀ a ∈ l₂, a ∉ l₃) : l₂.Perm l₄ := by
  rcases List.nodup_append.mp (h.nodup_iff.mpr hnodup) with ⟨_, hl₂, _⟩
  rcases List.nodup_append.mp hnodup with ⟨_, hl₄, hdisjoint⟩
  rw [List.perm_ext_iff_of_nodup hl₂ hl₄]
  intro a
  have hmem := h.mem_iff (a := a)
  simp only [List.mem_append] at hmem
  constructor
  . intro ha
    exact (hmem.mp (.inr ha)).resolve_left (hright a ha)
  . intro ha
    apply (hmem.mpr (.inr ha)).resolve_left
    intro hl₁
    exact hdisjoint a (hleft a hl₁) a ha rfl

end perm

theorem mem_take_of_ne {b : α} (h : l[k]? = some a) (hne : b ≠ a) : b ∈ l.eraseIdx k ↔ b ∈ l := by
  rw [← (perm_of_getElem? h).mem_iff, List.mem_cons]
  simp [hne]

theorem forall_take {P : α → Prop} (h : ∀ a ∈ l, P a) (k : Nat) : ∀ a ∈ l.eraseIdx k, P a := by
  intro a ha
  apply h
  exact List.mem_of_mem_eraseIdx ha

theorem forall_put {P : α → Prop} (h : ∀ a ∈ l, P a) (ha : P a) : ∀ b ∈ l ++ [a], P b := by
  simpa [or_imp, forall_and] using ⟨h, ha⟩

section rel

variable {γ : Type w} {r r' : α → γ → Prop} {m : List γ} {b : γ}

/--
The pools have the same positions, and `r` holds at each of them.
-/
structure Rel (r : α → γ → Prop) (l : List α) (m : List γ) : Prop where
  length_eq : l.length = m.length
  rel : ∀ (k : Nat) (a : α) (b : γ), l[k]? = some a → m[k]? = some b → r a b

theorem Rel.nil (r : α → γ → Prop) : Rel r [] [] where
  length_eq := rfl
  rel := by
    intro k a b ha
    cases ha

theorem Rel.get (h : Rel r l m) (hb : m[k]? = some b) : ∃ a, l[k]? = some a ∧ r a b := by
  have hlt := History.lt_length_of_getElem? hb
  rw [← h.length_eq] at hlt
  have ha := List.getElem?_eq_getElem hlt
  exact ⟨_, ha, h.rel k _ _ ha hb⟩

theorem Rel.mono (h : Rel r l m) (hr : ∀ a ∈ l, ∀ b, r a b → r' a b) : Rel r' l m where
  length_eq := h.length_eq
  rel k a b ha hb := hr a (List.mem_of_getElem? ha) b (h.rel k a b ha hb)

theorem Rel.put (h : Rel r l m) (hab : r a b) : Rel r (l ++ [a]) (m ++ [b]) where
  length_eq := by
    rw [List.length_append, List.length_append, h.length_eq]
    rfl
  rel := by
    intro k a' b' ha' hb'
    have hlength := h.length_eq
    rcases History.getElem?_concat_cases ha' with ha' | ⟨hk, rfl⟩
    . rcases History.getElem?_concat_cases hb' with hb' | ⟨hk, _⟩
      . exact h.rel k a' b' ha' hb'
      . have hlt := History.lt_length_of_getElem? ha'
        omega
    . rcases History.getElem?_concat_cases hb' with hb' | ⟨_, rfl⟩
      . have hlt := History.lt_length_of_getElem? hb'
        omega
      . exact hab

theorem Rel.take (h : Rel r l m) (k : Nat) : Rel r (l.eraseIdx k) (m.eraseIdx k) where
  length_eq := by
    rw [List.length_eraseIdx, List.length_eraseIdx, h.length_eq]
  rel := by
    intro j a b ha hb
    rw [List.getElem?_eraseIdx] at ha hb
    split at ha
    . next hlt =>
      rw [if_pos hlt] at hb
      exact h.rel j a b ha hb
    . next hge =>
      rw [if_neg hge] at hb
      exact h.rel (j + 1) a b ha hb

/--
Where one position is set anew, it is enough that the others keep what they have.
-/
theorem Rel.set (h : Rel r l m) (hab : r' a b)
    (hothers : ∀ j a, j ≠ k → l[j]? = some a → ∀ b, r a b → r' a b) :
    Rel r' (l.set k a) (m.set k b) where
  length_eq := by
    rw [List.length_set, List.length_set, h.length_eq]
  rel := by
    intro j a' b' ha' hb'
    by_cases hj : k = j
    . rw [List.getElem?_set, if_pos hj] at ha' hb'
      split at ha'
      . split at hb'
        . cases ha'
          cases hb'
          exact hab
        . cases hb'
      . cases ha'
    . rw [List.getElem?_set_ne hj] at ha' hb'
      exact hothers j a' (Ne.symm hj) ha' b' (h.rel j a' b' ha' hb')

end rel

end Pool
