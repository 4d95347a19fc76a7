import Mathlib.Data.Int.Basic

/-!
This module contains the arithmetic of `int`. A result that does not fit is undefined, so the operations
have no value there instead of wrapping around.
-/

abbrev CInt := Int32

namespace CInt

def ofInt? (n : Int) : Option CInt :=
  if -2147483648 ≤ n ∧ n < 2147483648 then some (Int32.ofInt n) else none

def add (a b : CInt) : Option CInt :=
  ofInt? (a.toInt + b.toInt)

def sub (a b : CInt) : Option CInt :=
  ofInt? (a.toInt - b.toInt)

def mul (a b : CInt) : Option CInt :=
  ofInt? (a.toInt * b.toInt)

def div (a b : CInt) : Option CInt :=
  if b = 0 then none else ofInt? (Int.tdiv a.toInt b.toInt)

-- the sign is the one of `a`; where `a / b` is undefined, `a % b` is as well
def rem (a b : CInt) : Option CInt := do
  let _ ← div a b
  ofInt? (Int.tmod a.toInt b.toInt)

-- `(int)n` of a `size_t`, which keeps the low 32 bits
def ofSize (n : Nat) : CInt :=
  Int32.ofNat n

theorem le_toInt (a : CInt) : -2147483648 ≤ a.toInt :=
  Int32.le_toInt a

theorem toInt_lt (a : CInt) : a.toInt < 2147483648 :=
  Int32.toInt_lt a

theorem ofInt?_eq_some {n : Int} {a : CInt} : ofInt? n = some a ↔ a.toInt = n := by
  unfold ofInt?
  constructor
  . intro h
    split at h
    . next hrange =>
      cases h
      exact Int32.toInt_ofInt_of_le hrange.1 hrange.2
    . cases h
  . intro h
    subst h
    rw [if_pos ⟨le_toInt a, toInt_lt a⟩, Int32.ofInt_toInt]

theorem exists_ofInt? {n : Int} (hle : -2147483648 ≤ n) (hlt : n < 2147483648) :
    ∃ a, ofInt? n = some a ∧ a.toInt = n := by
  refine ⟨Int32.ofInt n, ?_, Int32.toInt_ofInt_of_le hle hlt⟩
  unfold ofInt?
  rw [if_pos ⟨hle, hlt⟩]

theorem ofInt?_eq_none {n : Int} : ofInt? n = none ↔ n < -2147483648 ∨ 2147483648 ≤ n := by
  unfold ofInt?
  split
  . simp
    omega
  . simp
    omega

theorem toInt_eq_zero {a : CInt} : a.toInt = 0 ↔ a = 0 := by
  rw [← Int32.toInt_inj]
  rfl

theorem toInt_ofSize {n : Nat} (h : n < 2147483648) : (ofSize n).toInt = n := by
  apply Int32.toInt_ofNat_of_lt
  exact h

theorem div_eq_some {a b c : CInt} :
    div a b = some c ↔ b ≠ 0 ∧ c.toInt = Int.tdiv a.toInt b.toInt := by
  unfold div
  split
  . next h => simp [h]
  . next h => simp [h, ofInt?_eq_some]

theorem rem_eq_some {a b c : CInt} (h : rem a b = some c) :
    b ≠ 0 ∧ c.toInt = Int.tmod a.toInt b.toInt := by
  unfold rem at h
  rw [Option.bind_eq_bind, Option.bind_eq_some_iff] at h
  rcases h with ⟨q, hq, hc⟩
  exact ⟨(div_eq_some.mp hq).1, ofInt?_eq_some.mp hc⟩

theorem exists_div (a : CInt) {b : CInt} (hb : 0 < b.toInt) :
    ∃ c, div a b = some c ∧ c.toInt = Int.tdiv a.toInt b.toInt := by
  have hne : b ≠ 0 := by
    rw [Ne, ← toInt_eq_zero]
    omega
  have hquot : -2147483648 ≤ Int.tdiv a.toInt b.toInt ∧ Int.tdiv a.toInt b.toInt < 2147483648 := by
    have hle := le_toInt a
    have hlt := toInt_lt a
    have habs := Int.natAbs_tdiv_le_natAbs a.toInt b.toInt
    rcases Int.le_total 0 a.toInt with hnonneg | hnonpos
    . omega
    . have hsign := Int.tdiv_nonneg (Int.neg_nonneg_of_nonpos hnonpos) (Int.le_of_lt hb)
      rw [Int.neg_tdiv] at hsign
      omega
  rcases exists_ofInt? hquot.1 hquot.2 with ⟨c, _, hval⟩
  exact ⟨c, div_eq_some.mpr ⟨hne, hval⟩, hval⟩

theorem exists_rem (a : CInt) {b : CInt} (hb : 0 < b.toInt) :
    ∃ c, rem a b = some c ∧ c.toInt = Int.tmod a.toInt b.toInt := by
  have hupper := Int.tmod_lt_of_pos a.toInt hb
  have hlower := Int.lt_tmod_of_pos a.toInt hb
  have hrange := toInt_lt b
  rcases exists_div a hb with ⟨q, hq, _⟩
  rcases exists_ofInt? (n := Int.tmod a.toInt b.toInt) (by omega) (by omega) with ⟨c, hc, hval⟩
  refine ⟨c, ?_, hval⟩
  unfold rem
  rw [hq]
  exact hc

end CInt
