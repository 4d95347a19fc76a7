import Seuss.Data.UnorderedMap

/-!
This module contains resources that belong to a key. A resource gets its owner when it comes into
being and keeps it, a map is keyed if what it holds at a key belongs to that key.
-/

namespace Ownership

variable {κ : Type u} {ρ : Type v} {α : Type w}

-- `owner r` is `none` as long as `r` does not belong to a key
def Extends (owner owner' : ρ → Option κ) : Prop :=
  ∀ r k, owner r = some k → owner' r = some k

theorem Extends.refl (owner : ρ → Option κ) : Extends owner owner := by
  intro r k h
  exact h

section Keyed

variable [DecidableEq κ]

def Keyed (owner : ρ → Option κ) (m : UnorderedMap κ ρ) : Prop :=
  ∀ k r, m.find? k = some r → owner r = some k

variable {owner owner' : ρ → Option κ} {m : UnorderedMap κ ρ} {k : κ} {r : ρ}

theorem Keyed.empty : Keyed owner (∅ : UnorderedMap κ ρ) := by
  intro k r h
  simp at h

theorem Keyed.mono (h : Keyed owner m) (hext : Extends owner owner') : Keyed owner' m := by
  intro k r hfind
  apply hext
  apply h
  exact hfind

theorem Keyed.insert (h : Keyed owner m) (hr : owner r = some k) :
    Keyed owner (AList.insert k r m) := by
  intro l q hfind
  rw [UnorderedMap.find?_insert] at hfind
  split at hfind
  . next heq =>
    cases hfind
    rw [heq]
    exact hr
  . exact h l q hfind

theorem Keyed.erase (h : Keyed owner m) (k : κ) : Keyed owner (AList.erase k m) := by
  intro l q hfind
  rw [UnorderedMap.find?_erase] at hfind
  split at hfind
  . cases hfind
  . exact h l q hfind

end Keyed

section ownerOf

variable [DecidableEq ρ]

def ownerOf (own : α → Option κ) (m : UnorderedMap ρ α) (r : ρ) : Option κ :=
  (m.find? r).bind own

variable {own own' : α → Option κ} {m : UnorderedMap ρ α} {r : ρ} {a : α} {k : κ}

theorem ownerOf_eq_some :
    ownerOf own m r = some k ↔ ∃ a, m.find? r = some a ∧ own a = some k := by
  rw [ownerOf, Option.bind_eq_some_iff]

@[simp]
theorem ownerOf_insert_self : ownerOf own (AList.insert r a m) r = own a := by
  simp [ownerOf]

theorem extends_insert (h : ∀ b, m.find? r = some b → ∀ k, own b = some k → own a = some k) :
    Extends (ownerOf own m) (ownerOf own (AList.insert r a m)) := by
  intro q k hq
  rw [ownerOf_eq_some] at hq
  rcases hq with ⟨b, hfind, hb⟩
  by_cases heq : q = r
  . subst heq
    rw [ownerOf_insert_self]
    exact h b hfind k hb
  . rw [ownerOf, UnorderedMap.find?_insert_ne _ _ heq, hfind]
    exact hb

theorem extends_insert_fresh (h : m.find? r = none) :
    Extends (ownerOf own m) (ownerOf own (AList.insert r a m)) := by
  apply extends_insert
  intro b hb
  rw [h] at hb
  cases hb

theorem extends_ownerOf (h : ∀ a k, own a = some k → own' a = some k) :
    Extends (ownerOf own m) (ownerOf own' m) := by
  intro r k hr
  rw [ownerOf_eq_some] at hr ⊢
  rcases hr with ⟨a, hfind, ha⟩
  exact ⟨a, hfind, h a k ha⟩

end ownerOf

end Ownership
