import Mathlib.Data.Int.GCD
import Mathlib.Data.Int.ModEq
import Mathlib.Data.Nat.ModEq

/-!
This module contains counters that advance by a stride of `n` and wrap around at `W`, and what is left
of them modulo some `M`.
-/

namespace Stride

section window

variable {W M x c d : Nat}

theorem add_mod_of_le (hx : x < W) (hd : d < W) (h : W ≤ x + d) : (x + d) % W + W = x + d := by
  rw [Nat.mod_eq_sub_mod h, Nat.mod_eq_of_lt (by omega)]
  omega

/--
Of two values of the counter that are less than `M` apart the residues are the same just if the counter
wraps around between them and their distance is what the wrapping shifts the residues by.
-/
theorem residue_eq_iff (hx : x < W) (hpos : 0 < d) (hd : d < M) (hM : M ≤ W) :
    (x + c) % M = ((x + d) % W + c) % M ↔ W ≤ x + d ∧ d = W % M := by
  by_cases hwrap : W ≤ x + d
  . have hy := add_mod_of_le hx (by omega) hwrap
    generalize (x + d) % W = y at hy
    have hshift : x + c = y + c + (W - d) := by
      omega
    have hmod : (y + c + (W - d)) % M = (y + c) % M ↔ d = W % M := by
      constructor
      . intro h
        have hdvd : M ∣ W - d := by
          have hself : y + c + (W - d) ≡ y + c + 0 [MOD M] := h
          exact (Nat.modEq_zero_iff_dvd).mp (Nat.ModEq.add_left_cancel' _ hself)
        have hmodEq : d ≡ W [MOD M] := (Nat.modEq_iff_dvd' (by omega)).mpr hdvd
        rw [← hmodEq, Nat.mod_eq_of_lt hd]
      . intro h
        have hmodEq : d ≡ W [MOD M] := by
          rw [Nat.ModEq, ← h, Nat.mod_eq_of_lt hd]
        have hdvd : M ∣ W - d := (Nat.modEq_iff_dvd' (by omega)).mp hmodEq
        rw [Nat.add_mod, Nat.mod_eq_zero_of_dvd hdvd, Nat.add_zero, Nat.mod_mod]
    rw [hshift, hmod]
    exact ⟨fun h => ⟨hwrap, h⟩, And.right⟩
  . have hlt : (x + d) % W = x + d := Nat.mod_eq_of_lt (by omega)
    rw [hlt]
    constructor
    . intro h
      have hself : x + c + 0 ≡ x + c + d [MOD M] := by
        rw [Nat.ModEq, Nat.add_zero, h, Nat.add_right_comm]
      have hzero : 0 ≡ d [MOD M] := Nat.ModEq.add_left_cancel' _ hself
      rw [Nat.ModEq, Nat.zero_mod, Nat.mod_eq_of_lt hd] at hzero
      omega
    . rintro ⟨h, _⟩
      exact absurd h hwrap

end window

section orbit

variable {W M n x : Nat}

theorem exists_mul_mod_eq_iff (hx : x < W) : (∃ k, (k + 1) * n % W = x) ↔ n.gcd W ∣ x := by
  constructor
  . rintro ⟨k, rfl⟩
    have hmul : n.gcd W ∣ (k + 1) * n := Dvd.dvd.mul_left (Nat.gcd_dvd_left n W) _
    exact (Nat.dvd_mod_iff (Nat.gcd_dvd_right n W)).mpr hmul
  . rintro ⟨t, rfl⟩
    have hle : n.gcd W ≤ W := Nat.gcd_le_right n (by omega)
    by_cases hlt : n.gcd W < W
    . rcases Nat.exists_mul_mod_eq_gcd hlt with ⟨m, _, hm⟩
      have hsucc : m * t + W - 1 + 1 = m * t + W := by
        omega
      refine ⟨m * t + W - 1, ?_⟩
      rw [hsucc, Nat.add_mul, Nat.add_mul_mod_self_left]
      rw [Nat.mul_comm, ← Nat.mul_assoc, Nat.mul_mod, hm, Nat.mul_mod_mod, Nat.mod_eq_of_lt hx]
    . have hzero : t = 0 := by
        have hgcd : n.gcd W = W := by
          omega
        rw [hgcd] at hx
        rcases Nat.eq_zero_or_pos t with h | h
        . exact h
        . have hmul := Nat.le_mul_of_pos_right W h
          omega
      subst hzero
      refine ⟨W - 1, ?_⟩
      rw [Nat.sub_add_cancel (by omega)]
      simp

theorem mul_mod_modEq_iff {c d : Nat} (hW : 0 < W) :
    (∃ k l, ((k + 1) * n % W + c) % M = ((l + 1) * n % W + d) % M)
      ↔
    ∃ x : Int, (n.gcd W : Int) ∣ x ∧ |x| < W ∧ (M : Int) ∣ x + c - d := by
  constructor
  . rintro ⟨k, l, h⟩
    have hk := (exists_mul_mod_eq_iff (Nat.mod_lt ((k + 1) * n) hW)).mp ⟨k, rfl⟩
    have hl := (exists_mul_mod_eq_iff (Nat.mod_lt ((l + 1) * n) hW)).mp ⟨l, rfl⟩
    have hklt := Nat.mod_lt ((k + 1) * n) hW
    have hllt := Nat.mod_lt ((l + 1) * n) hW
    generalize (k + 1) * n % W = x at h hk hklt
    generalize (l + 1) * n % W = y at h hl hllt
    refine ⟨x - y, ?_, ?_, ?_⟩
    . exact Int.dvd_sub (Int.natCast_dvd_natCast.mpr hk) (Int.natCast_dvd_natCast.mpr hl)
    . rw [abs_lt]
      omega
    . have hdvd := (Nat.modEq_iff_dvd.mp (Nat.ModEq.symm h))
      have hsub : ((x + c : Nat) : Int) - (y + d : Nat) = x - y + c - d := by
        omega
      rw [hsub] at hdvd
      exact hdvd
  . rintro ⟨x, hx, hlt, hdvd⟩
    rw [abs_lt] at hlt
    have hzero := (exists_mul_mod_eq_iff (n := n) hW).mpr (Nat.dvd_zero _)
    have hnat : n.gcd W ∣ x.natAbs := Int.natCast_dvd.mp hx
    rcases (exists_mul_mod_eq_iff (W := W) (by omega)).mpr hnat with ⟨k, hk⟩
    rcases hzero with ⟨l, hl⟩
    by_cases hsign : 0 ≤ x
    . refine ⟨k, l, ?_⟩
      rw [hk, hl]
      apply Nat.ModEq.symm
      rw [Nat.modEq_iff_dvd]
      have hsub : ((x.natAbs + c : Nat) : Int) - (0 + d : Nat) = x + c - d := by
        omega
      rw [hsub]
      exact hdvd
    . refine ⟨l, k, ?_⟩
      rw [hk, hl]
      apply Nat.ModEq.symm
      rw [Nat.modEq_iff_dvd]
      have hsub : ((0 + c : Nat) : Int) - (x.natAbs + d : Nat) = x + c - d := by
        omega
      rw [hsub]
      exact hdvd

end orbit

end Stride
