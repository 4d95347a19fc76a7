import Mathlib.Data.List.AList

/-!
This module contains the operations of `std::unordered_map` on top of the association lists of
Mathlib. An `AList` holds every key at most once by construction.
-/

abbrev UnorderedMap (κ : Type u) (α : Type v) := AList (fun _ : κ => α)

namespace UnorderedMap

variable {κ : Type u} {α : Type v} [DecidableEq κ]

def find? (m : UnorderedMap κ α) (k : κ) : Option α :=
  AList.lookup k m

def emplace (m : UnorderedMap κ α) (k : κ) (a : α) : UnorderedMap κ α × Bool :=
  match m.find? k with
  | some _ => (m, false)
  | none => (AList.insert k a m, true)

def size (m : UnorderedMap κ α) : Nat :=
  m.keys.length

def values (m : UnorderedMap κ α) : List α :=
  m.entries.map Sigma.snd

/--
`m[k]`, which inserts the default value at a key that is not there yet.
-/
def subscript [Inhabited α] (m : UnorderedMap κ α) (k : κ) : α × UnorderedMap κ α :=
  match m.find? k with
  | some a => (a, m)
  | none => (default, AList.insert k default m)

@[simp]
theorem find?_empty (k : κ) : find? (∅ : UnorderedMap κ α) k = none := by
  simp [find?]

omit [DecidableEq κ] in
@[simp]
theorem size_empty : size (∅ : UnorderedMap κ α) = 0 := by
  simp [size]

theorem mem_iff_find? {m : UnorderedMap κ α} {k : κ} : k ∈ m ↔ ∃ a, m.find? k = some a := by
  rw [← AList.lookup_isSome, Option.isSome_iff_exists]
  rfl

theorem find?_eq_none {m : UnorderedMap κ α} {k : κ} : m.find? k = none ↔ k ∉ m :=
  AList.lookup_eq_none

@[simp]
theorem find?_insert_self (m : UnorderedMap κ α) (k : κ) (a : α) :
    find? (AList.insert k a m) k = some a := by
  simp [find?]

theorem find?_insert_ne (m : UnorderedMap κ α) {k l : κ} (a : α) (h : l ≠ k) :
    find? (AList.insert k a m) l = m.find? l := by
  simp [find?, AList.lookup_insert_ne h]

theorem find?_insert (m : UnorderedMap κ α) (k l : κ) (a : α) :
    find? (AList.insert k a m) l = if l = k then some a else m.find? l := by
  split
  . next h =>
    rw [h]
    apply find?_insert_self
  . next h => exact find?_insert_ne m a h

@[simp]
theorem find?_erase_self (m : UnorderedMap κ α) (k : κ) : find? (AList.erase k m) k = none := by
  simp [find?]

theorem find?_erase_ne (m : UnorderedMap κ α) {k l : κ} (h : l ≠ k) :
    find? (AList.erase k m) l = m.find? l := by
  simp [find?, AList.lookup_erase_ne h]

theorem find?_erase (m : UnorderedMap κ α) (k l : κ) :
    find? (AList.erase k m) l = if l = k then none else m.find? l := by
  split
  . next h =>
    rw [h]
    apply find?_erase_self
  . next h => exact find?_erase_ne m h

theorem emplace_of_find?_none {m : UnorderedMap κ α} {k : κ} (a : α) (h : m.find? k = none) :
    m.emplace k a = (AList.insert k a m, true) := by
  simp [emplace, h]

theorem emplace_snd (m : UnorderedMap κ α) (k : κ) (a : α) :
    (m.emplace k a).2 = true ↔ m.find? k = none := by
  unfold emplace
  split <;> simp_all

theorem find?_emplace {m : UnorderedMap κ α} {k l : κ} {a b : α}
    (h : (m.emplace k a).1.find? l = some b) :
    m.find? l = some b ∨ b = a := by
  unfold emplace at h
  split at h
  . exact .inl h
  . dsimp only at h
    rw [find?_insert] at h
    split at h
    . cases h
      exact .inr rfl
    . exact .inl h

theorem subscript_of_find?_some [Inhabited α] {m : UnorderedMap κ α} {k : κ} {a : α}
    (h : m.find? k = some a) :
    m.subscript k = (a, m) := by
  simp [subscript, h]

theorem size_insert_of_not_mem {m : UnorderedMap κ α} {k : κ} (a : α) (h : k ∉ m) :
    size (AList.insert k a m) = m.size + 1 := by
  have hkeys : k ∉ m.keys := by
    rwa [← AList.mem_keys]
  simp [size, AList.keys_insert, List.erase_of_not_mem hkeys]

omit [DecidableEq κ] in
@[simp]
theorem length_values (m : UnorderedMap κ α) : m.values.length = m.size := by
  simp [values, size, AList.keys, List.keys]

theorem values_insert_of_find?_none {m : UnorderedMap κ α} {k : κ} (a : α)
    (h : m.find? k = none) :
    values (AList.insert k a m) = a :: m.values := by
  unfold values
  rw [AList.entries_insert_of_notMem (find?_eq_none.mp h)]
  rfl

theorem values_erase_of_find?_some {m : UnorderedMap κ α} {k : κ} {a : α}
    (h : m.find? k = some a) :
    (a :: values (AList.erase k m)).Perm m.values := by
  have hkey : k ∈ m.entries.keys := mem_iff_find?.mpr ⟨a, h⟩
  rcases List.exists_of_kerase hkey with ⟨b, l₁, l₂, _, hentries, herase⟩
  have hb : m.find? k = some b := by
    apply AList.mem_lookup_iff.mpr
    simp [hentries]
  rw [h, Option.some.injEq] at hb
  subst hb
  have herased : (AList.erase k m).entries = l₁ ++ l₂ := herase
  unfold values
  rw [hentries, herased]
  simpa using List.perm_middle.symm

theorem mem_values {m : UnorderedMap κ α} {a : α} : a ∈ m.values ↔ ∃ k, m.find? k = some a := by
  unfold values
  rw [List.mem_map]
  constructor
  . rintro ⟨⟨k, b⟩, hmem, rfl⟩
    exact ⟨k, AList.mem_lookup_iff.mpr hmem⟩
  . rintro ⟨k, h⟩
    exact ⟨⟨k, a⟩, AList.mem_lookup_iff.mp h, rfl⟩

theorem size_insert_of_find?_none {m : UnorderedMap κ α} {k : κ} (a : α) (h : m.find? k = none) :
    size (AList.insert k a m) = m.size + 1 :=
  size_insert_of_not_mem a (find?_eq_none.mp h)

theorem size_erase_le (m : UnorderedMap κ α) (k : κ) : size (AList.erase k m) ≤ m.size := by
  unfold size
  rw [AList.keys_erase]
  exact List.length_erase_le

end UnorderedMap
