import Seuss.Data.CInt
import Seuss.Data.CString

/-!
This module contains what the prompt of the benchmark takes from a line of input.
-/

namespace Seuss
namespace OpenWhisk

section bench

-- `while (getline(ss, tok, delimiter))`: behind the last delimiter there is no token, if nothing follows it
def tokens (delimiter : Char) (str : CString) : List CString :=
  match str with
  | [] => []
  | c :: str =>
    if c = delimiter then
      [] :: tokens delimiter str
    else
      match tokens delimiter str with
      | [] => [[c]]
      | tok :: toks => (c :: tok) :: toks

def splitSign (str : CString) : Int × CString :=
  match str with
  | '-' :: str => (-1, str)
  | '+' :: str => (1, str)
  | str => (1, str)

-- `none` where it throws, be it `std::invalid_argument` or `std::out_of_range`
def stoi (str : CString) : Option CInt :=
  let (sign, str) := splitSign ((CString.cstr str).dropWhile CString.isSpace)
  match str.takeWhile Char.isDigit with
  | [] => none
  | digits => CInt.ofInt? (sign * Nat.ofDigitChars 10 digits 0)

def strToIntVec (str : CString) (delimiter : Char) : Option (List CInt) :=
  (tokens delimiter str).mapM stoi

structure Bench where
  runs : CInt
  fns : CInt
  parallel : CInt
  sleep : CInt
  ints : List CInt
  deriving DecidableEq

def expectedSize : Nat := 4

def Bench.ofString (str : CString) : Bench :=
  match strToIntVec str ' ' with
  | some ints => {
      runs := ints[0]?.getD 1
      fns := ints[1]?.getD 1
      parallel := ints[2]?.getD 1
      sleep := ints[3]?.getD 0
      ints := ints
    }
  -- "Input parsing error..."
  | none => { runs := 0, fns := 1, parallel := 1, sleep := 0, ints := [] }

def Bench.vecGood (b : Bench) : Bool :=
  if b.ints.length > expectedSize then
    false
  else if b.runs = 0 then
    false
  else
    true

-- the lines that the prompt neither quits nor asks again for
def Accepted (line : CString) : Prop :=
  line ≠ "q".toList ∧ line ≠ [] ∧ (Bench.ofString line).vecGood = true

end bench

section text

theorem tokens_append {delimiter : Char} {tok : CString} (h : delimiter ∉ tok) (str : CString) :
    tokens delimiter (tok ++ delimiter :: str) = tok :: tokens delimiter str := by
  induction tok with
  | nil => simp [tokens]
  | cons c tok ih =>
    rw [List.mem_cons, not_or] at h
    rw [List.cons_append, tokens, if_neg (Ne.symm h.1), ih h.2]

theorem tokens_of_not_mem {delimiter : Char} {tok : CString} (h : delimiter ∉ tok) (hne : tok ≠ []) :
    tokens delimiter tok = [tok] := by
  induction tok with
  | nil => exact absurd rfl hne
  | cons c tok ih =>
    rw [List.mem_cons, not_or] at h
    rw [tokens, if_neg (Ne.symm h.1)]
    cases tok with
    | nil => rfl
    | cons d tok => rw [ih h.2 (List.cons_ne_nil d tok)]

section digits

variable {digits : CString} (hdigits : ∀ c ∈ digits, c.isDigit = true)
include hdigits

theorem splitSign_digits : splitSign digits = (1, digits) := by
  unfold splitSign
  split
  . cases hdigits _ List.mem_cons_self
  . cases hdigits _ List.mem_cons_self
  . rfl

theorem cstr_digits : CString.cstr digits = digits := by
  rw [CString.cstr, List.takeWhile_eq_self_iff]
  intro c hc
  rw [decide_eq_true_eq]
  rintro rfl
  cases hdigits _ hc

theorem dropWhile_isSpace_digits : digits.dropWhile CString.isSpace = digits := by
  cases digits with
  | nil => rfl
  | cons c digits =>
    have hc := CString.not_isSpace_of_isDigit (hdigits c List.mem_cons_self)
    rw [List.dropWhile_cons_of_neg (by simp [hc])]

theorem stoi_of_splitSign {str : CString} {sign : Int} (hne : digits ≠ [])
    (h : splitSign ((CString.cstr str).dropWhile CString.isSpace) = (sign, digits)) :
    stoi str = CInt.ofInt? (sign * Nat.ofDigitChars 10 digits 0) := by
  have htake : digits.takeWhile Char.isDigit = digits := List.takeWhile_eq_self_iff.mpr hdigits
  unfold stoi
  rw [h]
  dsimp only
  rw [htake]
  cases digits with
  | nil => exact absurd rfl hne
  | cons c digits => rfl

theorem stoi_digits (hne : digits ≠ []) :
    stoi digits = CInt.ofInt? (Nat.ofDigitChars 10 digits 0) := by
  rw [stoi_of_splitSign hdigits hne, Int.one_mul]
  rw [cstr_digits hdigits, dropWhile_isSpace_digits hdigits, splitSign_digits hdigits]

theorem stoi_minus_digits (hne : digits ≠ []) :
    stoi ('-' :: digits) = CInt.ofInt? (- (Nat.ofDigitChars 10 digits 0 : Int)) := by
  have hcstr : CString.cstr ('-' :: digits) = '-' :: digits := by
    rw [CString.cstr, List.takeWhile_cons_of_pos (by decide)]
    exact congrArg _ (cstr_digits hdigits)
  rw [stoi_of_splitSign hdigits hne, Int.neg_one_mul]
  rw [hcstr, List.dropWhile_cons_of_neg (by decide)]
  rfl

end digits

theorem stoi_ofInt (n : CInt) : stoi (CString.ofInt n.toInt) = some n := by
  cases h : n.toInt with
  | ofNat m =>
    rw [CString.ofInt, stoi_digits (fun _ => CString.isDigit_of_mem_ofNat) Nat.toDigits_ne_nil,
      CInt.ofInt?_eq_some, h, CString.ofNat, Nat.ofDigitChars_ten_toDigits]
    rfl
  | negSucc m =>
    rw [CString.ofInt, stoi_minus_digits (fun _ => CString.isDigit_of_mem_ofNat) Nat.toDigits_ne_nil,
      CInt.ofInt?_eq_some, h, CString.ofNat, Nat.ofDigitChars_ten_toDigits]
    rfl

theorem not_mem_ofInt (n : Int) : ' ' ∉ CString.ofInt n := by
  intro h
  cases n with
  | ofNat m => cases CString.isDigit_of_mem_ofNat h
  | negSucc m =>
    rw [CString.ofInt, List.mem_cons] at h
    rcases h with h | h
    . cases h
    . cases CString.isDigit_of_mem_ofNat h

theorem ofInt_ne_nil (n : Int) : CString.ofInt n ≠ [] := by
  cases n with
  | ofNat m => exact Nat.toDigits_ne_nil
  | negSucc m => exact List.cons_ne_nil _ _

def configText (n : CInt) (ns : List CInt) : CString :=
  CString.ofInt n.toInt ++ ns.flatMap fun n => ' ' :: CString.ofInt n.toInt

/--
What the operator writes is what the benchmark works with.
-/
theorem strToIntVec_configText (n : CInt) (ns : List CInt) :
    strToIntVec (configText n ns) ' ' = some (n :: ns) := by
  unfold strToIntVec configText
  induction ns generalizing n with
  | nil =>
    rw [List.flatMap_nil, List.append_nil, tokens_of_not_mem (not_mem_ofInt _) (ofInt_ne_nil _),
      List.mapM_cons, stoi_ofInt]
    rfl
  | cons m ns ih =>
    rw [List.flatMap_cons, List.cons_append, tokens_append (not_mem_ofInt _), List.mapM_cons,
      stoi_ofInt, ih]
    rfl

theorem ofString_configText (runs fns parallel sleep : CInt) :
    Bench.ofString (configText runs [fns, parallel, sleep])
      =
    { runs, fns, parallel, sleep, ints := [runs, fns, parallel, sleep] } := by
  unfold Bench.ofString
  rw [strToIntVec_configText]
  rfl

end text

end OpenWhisk
end Seuss
