import Mathlib.Data.BitVec

/-!
This module contains the loop `for (i = 0; i < len; i++)` over an unsigned counter of `w` bits, where
`len` may be more than the counter can hold.
-/

namespace CountedLoop

variable {σ : Type u} {w : Nat}

/--
The indexes that the iterations see, in their order, and the state that they leave behind; `none` where
the loop has not come to its end when it looks at its condition for the `fuel`-th time.
-/
def run (len : Nat) (body : Nat → σ → σ) (fuel : Nat) (i : BitVec w) (s : σ) :
    Option (List Nat × σ) :=
  match fuel with
  | 0 => none
  | fuel + 1 =>
    if i.toNat < len then
      (run len body fuel (i + 1) (body i.toNat s)).map fun (visited, s) => (i.toNat :: visited, s)
    else
      some ([], s)

variable (len : Nat) (body : Nat → σ → σ)

-- what the iterations from `i` on make of the state
def iterate (i : Nat) (s : σ) : σ :=
  (List.range' i (len - i)).foldl (fun s i => body i s) s

theorem iterate_of_le {i : Nat} (h : len ≤ i) (s : σ) : iterate len body i s = s := by
  rw [iterate, Nat.sub_eq_zero_of_le h]
  rfl

theorem iterate_of_lt {i : Nat} (h : i < len) (s : σ) :
    iterate len body i s = iterate len body (i + 1) (body i s) := by
  have hcount : len - i = len - (i + 1) + 1 := by
    omega
  rw [iterate, hcount, List.range'_succ, List.foldl_cons]
  rfl

variable {len}

/--
Where the counter can hold `len`, the distance to `len` shrinks with every iteration.
-/
theorem run_eq (h : len < 2 ^ w) {i : Nat} (hi : i ≤ len) (fuel : Nat) (s : σ) :
    run len body fuel (BitVec.ofNat w i) s
      =
    if len - i < fuel then
      some (List.range' i (len - i), iterate len body i s)
    else
      none := by
  induction fuel generalizing i s with
  | zero => rfl
  | succ fuel ih =>
    have hnat : (BitVec.ofNat w i).toNat = i := by
      rw [BitVec.toNat_ofNat, Nat.mod_eq_of_lt (by omega)]
    have hnext : BitVec.ofNat w i + 1 = BitVec.ofNat w (i + 1) := by
      rw [BitVec.ofNat_add]
      rfl
    rw [run, hnat, hnext]
    by_cases hend : i < len
    . have hcount : len - i = len - (i + 1) + 1 := by
        omega
      rw [if_pos hend, ih hend, iterate_of_lt len body hend, hcount, List.range'_succ]
      simp only [Nat.add_lt_add_iff_right]
      split <;> rfl
    . have hzero : len - i = 0 := by
        omega
      rw [if_neg hend, hzero, if_pos (Nat.succ_pos fuel), iterate_of_le len body (by omega)]
      rfl

/--
Where it cannot, every value of the counter is below `len`.
-/
theorem run_of_le (h : 2 ^ w ≤ len) (fuel : Nat) (i : BitVec w) (s : σ) :
    run len body fuel i s = none := by
  induction fuel generalizing i s with
  | zero => rfl
  | succ fuel ih =>
    have hlt : i.toNat < len := Nat.lt_of_lt_of_le i.isLt h
    rw [run, if_pos hlt, ih]
    rfl

theorem run_zero (h : len < 2 ^ w) (fuel : Nat) (s : σ) :
    run len body fuel (0 : BitVec w) s
      =
    if len < fuel then some (List.range len, iterate len body 0 s) else none := by
  have hrun := run_eq body h (Nat.zero_le len) fuel s
  rw [Nat.sub_zero, ← List.range_eq_range'] at hrun
  exact hrun

/--
The loop comes to its end after `len` iterations, one for each index and in order, just if the counter can
hold `len`.
-/
theorem stops_iff (s : σ) :
    (∃ t, ∀ fuel, run len body fuel (0 : BitVec w) s
        = if len < fuel then some (List.range len, t) else none)
      ↔
    len < 2 ^ w := by
  constructor
  . rintro ⟨t, h⟩
    by_contra hlen
    have hrun := h (len + 1)
    rw [run_of_le body (Nat.le_of_not_lt hlen), if_pos (Nat.lt_succ_self len)] at hrun
    cases hrun
  . intro h
    exact ⟨_, fun fuel => run_zero body h fuel s⟩

/--
The rule for a loop whose body can fail: `inv i` is the state that the iteration for `i` starts from.
-/
theorem foldlM_range {ε : Type v} {step : σ → Nat → Except ε σ} {n : Nat} (inv : Nat → σ)
    (h : ∀ i, i < n → step (inv i) i = .ok (inv (i + 1))) :
    (List.range n).foldlM step (inv 0) = .ok (inv n) := by
  induction n with
  | zero => rfl
  | succ n ih =>
    have hbefore := ih fun i hi => h i (Nat.lt_succ_of_lt hi)
    rw [List.range_succ, List.foldlM_append, hbefore]
    exact (bind_pure _).trans (h n (Nat.lt_succ_self n))

end CountedLoop
