import Mathlib.Data.List.Basic
import Mathlib.Data.List.TakeWhile

/-!
This module contains the operations of `std::string` that the sources use. A string is the sequence
of its `char`s, each of them one byte.
-/

abbrev CString := List Char

namespace CString

def findFirstOf (s : CString) (c : Char) : Option Nat :=
  s.findIdx? (· == c)

-- the position of the first occurrence of `pat`, `npos` for `none`
def find (s pat : CString) : Option Nat :=
  if pat.isPrefixOf s then
    some 0
  else
    match s with
    | [] => none
    | _ :: s => (find s pat).map (· + 1)

-- `substr(pos, n)` with `n = npos` for `none`; it throws `std::out_of_range` past the end
def substr (s : CString) (pos : Nat) (n : Option Nat) : Option CString :=
  if pos ≤ s.length then
    some ((s.drop pos).take (n.getD s.length))
  else
    none

-- what a `const char*` into the string is taken for
def cstr (s : CString) : CString :=
  s.takeWhile (· ≠ '\x00')

theorem cstr_isPrefix (s : CString) : cstr s <+: s := by
  exact List.takeWhile_prefix _

theorem findFirstOf_append {a : CString} (c : Char) (b : CString) (h : c ∉ a) :
    findFirstOf (a ++ c :: b) c = some a.length := by
  unfold findFirstOf
  have ha : a.findIdx? (· == c) = none := by
    rw [List.findIdx?_eq_none_iff]
    intro d hd
    rw [beq_eq_false_iff_ne]
    rintro rfl
    exact h hd
  simp [List.findIdx?_append, List.findIdx?_cons, ha]

theorem eq_append_of_findFirstOf {s : CString} {c : Char} {pos : Nat}
    (h : s.findFirstOf c = some pos) :
    ∃ a b, s = a ++ c :: b ∧ c ∉ a ∧ pos = a.length := by
  unfold findFirstOf at h
  rw [List.findIdx?_eq_some_iff_getElem] at h
  rcases h with ⟨hlt, hc, hbefore⟩
  refine ⟨s.take pos, s.drop (pos + 1), ?_, ?_, ?_⟩
  . rw [← eq_of_beq hc, ← List.drop_eq_getElem_cons hlt, List.take_append_drop]
  . intro hmem
    rcases List.mem_take_iff_getElem.mp hmem with ⟨i, hi, heq⟩
    have hne := hbefore i (Nat.lt_of_lt_of_le hi (Nat.min_le_left _ _))
    simp [heq] at hne
  . rw [List.length_take, Nat.min_eq_left (Nat.le_of_lt hlt)]

theorem substr_append (a b : CString) : substr (a ++ b) a.length none = some b := by
  have htake : b.take (a.length + b.length) = b := by
    apply List.take_of_length_le
    omega
  simp [substr, htake]

theorem substr_append_add (a b : CString) (pos : Nat) :
    substr (a ++ b) (a.length + pos) none = substr b pos none := by
  have hdrop : (a ++ b).drop (a.length + pos) = b.drop pos := by
    rw [← List.drop_drop, List.drop_left]
  have hle : a.length + pos ≤ (a ++ b).length ↔ pos ≤ b.length := by
    rw [List.length_append]
    omega
  have htake : ∀ n, b.length ≤ n → (b.drop pos).take n = b.drop pos := by
    intro n hn
    apply List.take_of_length_le
    rw [List.length_drop]
    omega
  simp only [substr, hdrop, hle, Option.getD_none]
  rw [htake _ (by simp), htake _ (Nat.le_refl _)]

theorem substr_zero (a b : CString) : substr (a ++ b) 0 (some a.length) = some a := by
  simp [substr]

section find

variable {pat : CString}

theorem find_append (pat s : CString) : find (pat ++ s) pat = some 0 := by
  unfold find
  rw [if_pos (List.isPrefixOf_iff_prefix.mpr (List.prefix_append _ _))]

theorem find_cons_of_not_head {c : Char} {s : CString} (h : ¬ pat <+: c :: s) :
    find (c :: s) pat = (find s pat).map (· + 1) := by
  rw [find, if_neg (fun hpat => h (List.isPrefixOf_iff_prefix.mp hpat))]

theorem find_eq_none {s : CString} (h : ¬ pat <:+: s) : find s pat = none := by
  induction s with
  | nil =>
    unfold find
    rw [if_neg]
    intro hpat
    exact h (List.isPrefixOf_iff_prefix.mp hpat).isInfix
  | cons c s ih =>
    rw [find_cons_of_not_head fun hpat => h hpat.isInfix,
      ih fun hpat => h (hpat.trans (List.suffix_cons c s).isInfix)]
    rfl

theorem find_singleton {a : CString} {c : Char} (h : c ∉ a) (s : CString) :
    find (a ++ c :: s) [c] = some a.length := by
  induction a with
  | nil => exact find_append [c] s
  | cons d a ih =>
    rw [List.mem_cons, not_or] at h
    have hpat : ¬ [c] <+: d :: (a ++ c :: s) := by
      intro hpat
      exact h.1 (List.cons_prefix_cons.mp hpat).1
    rw [List.cons_append, find_cons_of_not_head hpat, ih h.2]
    rfl

/--
Behind text without an occurrence and a character that is not in `pat`, the search goes on from there.
-/
theorem find_append_cons {a : CString} {c : Char} (ha : ¬ pat <:+: a) (hc : c ∉ pat) (s : CString) :
    find (a ++ c :: s) pat = (find s pat).map (· + (a.length + 1)) := by
  have hstart : ∀ b, b <:+ a → ¬ pat <+: b ++ c :: s := by
    intro b hb hpat
    rcases List.prefix_or_prefix_of_prefix hpat (List.prefix_append b (c :: s)) with h | h
    . exact ha (h.isInfix.trans hb.isInfix)
    . rcases h with ⟨t, rfl⟩
      rw [List.prefix_append_right_inj] at hpat
      cases t with
      | nil =>
        rw [List.append_nil] at ha
        exact ha hb.isInfix
      | cons d t =>
        rw [List.cons_prefix_cons] at hpat
        rw [hpat.1] at hc
        simp at hc
  induction a with
  | nil => exact find_cons_of_not_head (hstart [] (List.suffix_refl _))
  | cons d a ih =>
    have hnot := hstart (d :: a) (List.suffix_refl _)
    rw [List.cons_append] at hnot ⊢
    have hrest := ih (fun h => ha (h.trans (List.suffix_cons d a).isInfix))
      (fun b hb => hstart b (hb.trans (List.suffix_cons d a)))
    rw [find_cons_of_not_head hnot, hrest, Option.map_map]
    rfl

end find

section atoi

def isSpace (c : Char) : Bool :=
  c == ' ' || c == '\t' || c == '\n' || c == '\x0b' || c == '\x0c' || c == '\r'

-- `atoi`, whose value fits an `int`
def atoi (s : CString) : Int :=
  match s.dropWhile isSpace with
  | '-' :: s => - (Nat.ofDigitChars 10 (s.takeWhile Char.isDigit) 0 : Int)
  | '+' :: s => Nat.ofDigitChars 10 (s.takeWhile Char.isDigit) 0
  | s => Nat.ofDigitChars 10 (s.takeWhile Char.isDigit) 0

end atoi

def ofNat (n : Nat) : CString :=
  Nat.toDigits 10 n

def ofInt (n : Int) : CString :=
  match n with
  | .ofNat n => ofNat n
  | .negSucc n => '-' :: ofNat (n + 1)

theorem isDigit_of_mem_ofNat {n : Nat} {c : Char} (h : c ∈ ofNat n) : c.isDigit = true := by
  exact Nat.isDigit_of_mem_toDigits (by decide) (by decide) h

theorem not_isSpace_of_isDigit {c : Char} (h : c.isDigit = true) : isSpace c = false := by
  rw [Bool.eq_false_iff]
  intro hspace
  simp only [isSpace, Bool.or_eq_true, beq_iff_eq] at hspace
  rcases hspace with ((((rfl | rfl) | rfl) | rfl) | rfl) | rfl <;> cases h

theorem atoi_of_digits {s : CString} (h : ∀ c ∈ s, c.isDigit = true) :
    atoi s = Nat.ofDigitChars 10 s 0 := by
  have htake : s.takeWhile Char.isDigit = s := List.takeWhile_eq_self_iff.mpr h
  cases s with
  | nil => rfl
  | cons c s =>
    have hc := h c List.mem_cons_self
    unfold atoi
    rw [List.dropWhile_cons_of_neg (by simp [not_isSpace_of_isDigit hc])]
    split
    . next heq =>
      cases heq
      cases hc
    . next heq =>
      cases heq
      cases hc
    . rw [htake]

theorem atoi_ofNat (n : Nat) : atoi (ofNat n) = n := by
  rw [atoi_of_digits fun _ => isDigit_of_mem_ofNat, ofNat, Nat.ofDigitChars_ten_toDigits]

end CString
