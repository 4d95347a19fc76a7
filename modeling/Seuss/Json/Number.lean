import Mathlib.Data.List.TakeDrop
import Mathlib.Data.List.TakeWhile
import Mathlib.Data.Rat.Defs
import Mathlib.Tactic.NormNum

/-!
This module contains the numbers of JSON: their texts, and the rational number that each of them is.
-/

namespace Json

def isNumberChar (c : Char) : Bool :=
  c.isDigit || c == '-' || c == '+' || c == '.' || c == 'e' || c == 'E'

def isInteger (ds : List Char) : Bool :=
  match ds with
  | [] => false
  | ['0'] => true
  | d :: _ => d ≠ '0'

def unsigned (s : List Char) : List Char :=
  match s with
  | '-' :: s => s
  | s => s

-- the digits after the point and what follows them
def fraction (s : List Char) : List Char × List Char :=
  match s with
  | '.' :: s => s.span Char.isDigit
  | s => ([], s)

def isFraction (s : List Char) : Bool :=
  match s with
  | '.' :: s => (s.span Char.isDigit).1 ≠ []
  | _ => true

def exponentDigits (s : List Char) : List Char :=
  match s with
  | '-' :: s => s
  | '+' :: s => s
  | s => s

def isExponent (s : List Char) : Bool :=
  match s with
  | [] => true
  | c :: s => (c == 'e' || c == 'E') && exponentDigits s ≠ [] && (exponentDigits s).all Char.isDigit

def isNumber (s : List Char) : Bool :=
  let (ds, s) := (unsigned s).span Char.isDigit
  isInteger ds && isFraction s && isExponent (fraction s).2

def digitsValue (ds : List Char) : Nat :=
  Nat.ofDigitChars 10 ds 0

def exponentValue (s : List Char) : Int :=
  match s with
  | [] => 0
  | _ :: '-' :: ds => - (digitsValue ds : Int)
  | _ :: ds => digitsValue (exponentDigits ds)

def numberValue (s : List Char) : ℚ :=
  let sign := if s.head? = some '-' then -1 else 1
  let (ds, s) := (unsigned s).span Char.isDigit
  let (fs, s) := fraction s
  sign * digitsValue (ds ++ fs) * 10 ^ (exponentValue s - fs.length)

-- No number goes on with such a character, so its text is the longest one without them.
def number (s : List Char) : Option (List Char × List Char) :=
  let (x, r) := s.span isNumberChar
  if isNumber x then some (x, r) else none

theorem le_of_isNumberChar {c : Char} (h : isNumberChar c = true) : 0x20 ≤ c.toNat := by
  simp only [isNumberChar, Bool.or_eq_true, beq_iff_eq] at h
  rcases h with ((((hdigit | rfl) | rfl) | rfl) | rfl) | rfl
  . simp only [Char.isDigit, Bool.and_eq_true, decide_eq_true_eq] at hdigit
    exact Nat.le_trans (by decide) hdigit.1
  all_goals decide

def stops (r : List Char) : Bool :=
  match r with
  | [] => true
  | c :: _ => !isNumberChar c

theorem takeWhile_of_stops {r : List Char} (h : stops r = true) :
    r.takeWhile isNumberChar = [] ∧ r.dropWhile isNumberChar = r := by
  cases r with
  | nil => simp
  | cons c r =>
    have hc : isNumberChar c = false := by simpa [stops] using h
    simp [hc]

theorem stops_dropWhile (s : List Char) : stops (s.dropWhile isNumberChar) = true := by
  induction s with
  | nil => rfl
  | cons c s ih =>
    rw [List.dropWhile_cons]
    split
    . exact ih
    . next hc => simpa [stops] using hc

theorem number_eq_some_iff {s x r : List Char} :
    number s = some (x, r)
      ↔
    s = x ++ r ∧ isNumber x = true ∧ (∀ c ∈ x, isNumberChar c = true) ∧ stops r = true := by
  simp only [number, List.span_eq_takeWhile_dropWhile]
  constructor
  . intro h
    split at h
    . next hnumber =>
      cases h
      refine ⟨List.takeWhile_append_dropWhile.symm, hnumber, ?_, stops_dropWhile s⟩
      intro c hc
      exact List.mem_takeWhile_imp hc
    . cases h
  . rintro ⟨rfl, hnumber, hx, hr⟩
    rw [List.takeWhile_append_of_pos hx, List.dropWhile_append_of_pos hx,
      (takeWhile_of_stops hr).1, (takeWhile_of_stops hr).2, List.append_nil, if_pos hnumber]

theorem head_toDigits {n : Nat} (h : 0 < n) :
    ∃ d ds, Nat.toDigits 10 n = d :: ds ∧ d ≠ '0' := by
  induction n using Nat.strongRecOn with
  | ind n ih =>
    by_cases hn : n < 10
    . rw [Nat.toDigits_of_lt_base hn]
      have hdigit : ∀ n < 10, 0 < n → Nat.digitChar n ≠ '0' := by decide
      exact ⟨_, [], rfl, hdigit n hn h⟩
    . rw [Nat.toDigits_of_base_le (by decide) (by omega)]
      rcases ih (n / 10) (by omega) (by omega) with ⟨d, ds, hds, hd⟩
      rw [hds]
      exact ⟨d, _, rfl, hd⟩

theorem isInteger_toDigits (n : Nat) : isInteger (Nat.toDigits 10 n) = true := by
  rcases Nat.eq_zero_or_pos n with rfl | hn
  . rfl
  . rcases head_toDigits hn with ⟨d, ds, hds, hd⟩
    rw [hds]
    unfold isInteger
    split
    . next heq => cases heq
    . rfl
    . next heq =>
      cases heq
      simpa using hd

theorem takeWhile_toDigits (n : Nat) :
    (Nat.toDigits 10 n).takeWhile Char.isDigit = Nat.toDigits 10 n := by
  rw [List.takeWhile_eq_self_iff]
  intro c hc
  exact Nat.isDigit_of_mem_toDigits (by decide) (by decide) hc

theorem dropWhile_toDigits (n : Nat) : (Nat.toDigits 10 n).dropWhile Char.isDigit = [] := by
  rw [List.dropWhile_eq_nil_iff]
  intro c hc
  exact Nat.isDigit_of_mem_toDigits (by decide) (by decide) hc

theorem unsigned_toDigits (n : Nat) : unsigned (Nat.toDigits 10 n) = Nat.toDigits 10 n := by
  unfold unsigned
  split
  . next s hs =>
    have hminus : '-' ∈ Nat.toDigits 10 n := by
      rw [hs]
      simp
    exact absurd (Nat.isDigit_of_mem_toDigits (by decide) (by decide) hminus) (by decide)
  . rfl

theorem isNumber_toDigits (n : Nat) : isNumber (Nat.toDigits 10 n) = true := by
  simp [isNumber, unsigned_toDigits, takeWhile_toDigits, dropWhile_toDigits, isInteger_toDigits,
    isFraction, fraction, isExponent]

theorem isNumber_minus_toDigits (n : Nat) : isNumber ('-' :: Nat.toDigits 10 n) = true := by
  simp [isNumber, unsigned, takeWhile_toDigits, dropWhile_toDigits, isInteger_toDigits, isFraction,
    fraction, isExponent]

theorem numberValue_toDigits (n : Nat) : numberValue (Nat.toDigits 10 n) = n := by
  have hhead : (Nat.toDigits 10 n).head? ≠ some '-' := by
    intro hminus
    have hmem := List.mem_of_mem_head? hminus
    exact absurd (Nat.isDigit_of_mem_toDigits (by decide) (by decide) hmem) (by decide)
  simp [numberValue, unsigned_toDigits, takeWhile_toDigits, dropWhile_toDigits, fraction,
    exponentValue, hhead, digitsValue, Nat.ofDigitChars_ten_toDigits]

theorem numberValue_minus_toDigits (n : Nat) : numberValue ('-' :: Nat.toDigits 10 n) = -n := by
  simp [numberValue, unsigned, takeWhile_toDigits, dropWhile_toDigits, fraction, exponentValue,
    digitsValue, Nat.ofDigitChars_ten_toDigits]

theorem isNumberChar_of_isDigit {c : Char} (h : c.isDigit = true) : isNumberChar c = true := by
  simp [isNumberChar, h]

end Json
