import Mathlib.Data.List.Basic

/-!
This module contains JSON values. `ν` is what stands for a number: its text as long as nothing has
been said about what numbers are.
-/

inductive Json (ν : Type u) where
  | null
  | bool (b : Bool)
  | num (x : ν)
  | str (s : List Char)
  | arr (items : List (Json ν))
  | obj (members : List (List Char × Json ν))
  deriving Repr

namespace Json

mutual

def map (f : ν → μ) (j : Json ν) : Json μ :=
  match j with
  | .null => .null
  | .bool b => .bool b
  | .num x => .num (f x)
  | .str s => .str s
  | .arr items => .arr (mapItems f items)
  | .obj members => .obj (mapMembers f members)

def mapItems (f : ν → μ) (items : List (Json ν)) : List (Json μ) :=
  match items with
  | [] => []
  | j :: items => map f j :: mapItems f items

def mapMembers (f : ν → μ) (members : List (List Char × Json ν)) : List (List Char × Json μ) :=
  match members with
  | [] => []
  | (k, j) :: members => (k, map f j) :: mapMembers f members

end

-- Of the members with the same name, the last one counts.
def get? (j : Json ν) (k : List Char) : Option (Json ν) :=
  match j with
  | .obj members => members.reverse.lookup k
  | _ => none

theorem get?_obj_cons (k : List Char) (v : Json ν) (members : List (List Char × Json ν))
    (name : List Char) :
    (Json.obj ((k, v) :: members)).get? name
      =
    ((Json.obj members).get? name).or (if name = k then some v else none) := by
  simp only [get?, List.reverse_cons, List.lookup_append, List.lookup_cons, List.lookup_nil]
  by_cases h : name = k
  . simp [h]
  . have hne : (name == k) = false := beq_eq_false_iff_ne.mpr h
    simp [h, hne]

theorem mem_of_get? {members : List (List Char × Json ν)} {name : List Char} {v : Json ν}
    (h : (Json.obj members).get? name = some v) :
    (name, v) ∈ members := by
  induction members with
  | nil => cases h
  | cons m members ih =>
    rcases m with ⟨k, w⟩
    rw [get?_obj_cons, Option.or_eq_some_iff] at h
    rcases h with h | ⟨_, h⟩
    . exact List.mem_cons_of_mem _ (ih h)
    . split at h
      . next hk =>
        cases h
        rw [hk]
        exact List.mem_cons_self
      . cases h

end Json
