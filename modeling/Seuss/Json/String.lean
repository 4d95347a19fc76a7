import Mathlib.Data.List.Basic

/-!
This module contains the strings of JSON. A text is the sequence of its bytes and so is the string that
it stands for.
-/

namespace Json

-- a character that a string may contain as it is
def isPlain (c : Char) : Bool :=
  c ≠ '"' && c ≠ '\\' && 0x20 ≤ c.toNat

def hex? (c : Char) : Option Nat :=
  if '0' ≤ c ∧ c ≤ '9' then
    some (c.toNat - '0'.toNat)
  else if 'a' ≤ c ∧ c ≤ 'f' then
    some (c.toNat - 'a'.toNat + 10)
  else if 'A' ≤ c ∧ c ≤ 'F' then
    some (c.toNat - 'A'.toNat + 10)
  else
    none

def hex4? (a b c d : Char) : Option Nat := do
  let a ← hex? a
  let b ← hex? b
  let c ← hex? c
  let d ← hex? d
  return ((a * 16 + b) * 16 + c) * 16 + d

def escape? (c : Char) : Option Char :=
  match c with
  | '"' => some '"'
  | '\\' => some '\\'
  | '/' => some '/'
  | 'b' => some '\x08'
  | 'f' => some '\x0c'
  | 'n' => some '\n'
  | 'r' => some '\r'
  | 't' => some '\t'
  | _ => none

inductive CodeUnit where
  | byte (c : Char)
  -- a UTF-16 code unit
  | utf16 (n : Nat)

def utf8 (n : Nat) : List Char :=
  if n < 0x80 then
    [.ofNat n]
  else if n < 0x800 then
    [.ofNat (0xc0 + n / 0x40), .ofNat (0x80 + n % 0x40)]
  else if n < 0x10000 then
    [.ofNat (0xe0 + n / 0x1000), .ofNat (0x80 + n / 0x40 % 0x40), .ofNat (0x80 + n % 0x40)]
  else
    [
      .ofNat (0xf0 + n / 0x40000), .ofNat (0x80 + n / 0x1000 % 0x40),
      .ofNat (0x80 + n / 0x40 % 0x40), .ofNat (0x80 + n % 0x40)
    ]

def isPair (high low : Nat) : Bool :=
  0xd800 ≤ high && high < 0xdc00 && 0xdc00 ≤ low && low < 0xe000

-- A surrogate without its other half is encoded like any other code point.
def decode (us : List CodeUnit) : List Char :=
  match us with
  | [] => []
  | .byte c :: us => c :: decode us
  | [.utf16 n] => utf8 n
  | .utf16 n :: .byte c :: us => utf8 n ++ c :: decode us
  | .utf16 high :: .utf16 low :: us =>
    if isPair high low then
      utf8 (0x10000 + (high - 0xd800) * 0x400 + (low - 0xdc00)) ++ decode us
    else
      utf8 high ++ decode (.utf16 low :: us)

-- the code units up to the closing quote, and what follows it
def units (s : List Char) : Option (List CodeUnit × List Char) :=
  match s with
  | [] => none
  | c :: s =>
    if c = '"' then
      some ([], s)
    else if c = '\\' then
      match s with
      | 'u' :: a :: b :: c :: d :: s => do
        let n ← hex4? a b c d
        let (us, r) ← units s
        return (.utf16 n :: us, r)
      | c :: s => do
        let c ← escape? c
        let (us, r) ← units s
        return (.byte c :: us, r)
      | [] => none
    else if isPlain c then do
      let (us, r) ← units s
      return (.byte c :: us, r)
    else
      none

-- reads a string of which the opening quote has been read
def string (s : List Char) : Option (List Char × List Char) := do
  let (us, r) ← units s
  return (decode us, r)

theorem isPlain_iff {c : Char} : isPlain c = true ↔ c ≠ '"' ∧ c ≠ '\\' ∧ 0x20 ≤ c.toNat := by
  simp [isPlain, and_assoc]

theorem units_quote (s : List Char) : units ('"' :: s) = some ([], s) := by
  rw [units.eq_def]
  simp

theorem units_plain {c : Char} {s r : List Char} {us : List CodeUnit} (hc : isPlain c = true)
    (h : units s = some (us, r)) :
    units (c :: s) = some (.byte c :: us, r) := by
  have hplain := isPlain_iff.mp hc
  rw [units.eq_def]
  simp [hplain.1, hplain.2.1, hc, h]

theorem units_utf16 {a b c d : Char} {n : Nat} {s r : List Char} {us : List CodeUnit}
    (hn : hex4? a b c d = some n) (h : units s = some (us, r)) :
    units ('\\' :: 'u' :: a :: b :: c :: d :: s) = some (.utf16 n :: us, r) := by
  rw [units.eq_def]
  simp [hn, h]

theorem units_escape {c d : Char} {s r : List Char} {us : List CodeUnit} (hc : escape? c = some d)
    (h : units s = some (us, r)) :
    units ('\\' :: c :: s) = some (.byte d :: us, r) := by
  have hu : c ≠ 'u' := by
    rintro rfl
    cases hc
  rw [units.eq_def]
  simp [hu, hc, h]

/--
The text between the quotes of a string.
-/
inductive Literal : List Char → List CodeUnit → Prop where
  | nil : Literal [] []
  | plain {c : Char} {s : List Char} {us : List CodeUnit} (hc : isPlain c = true)
    (h : Literal s us) : Literal (c :: s) (.byte c :: us)
  | escape {c d : Char} {s : List Char} {us : List CodeUnit} (hc : escape? c = some d)
    (h : Literal s us) : Literal ('\\' :: c :: s) (.byte d :: us)
  | utf16 {a b c d : Char} {n : Nat} {s : List Char} {us : List CodeUnit}
    (hn : hex4? a b c d = some n) (h : Literal s us) :
    Literal ('\\' :: 'u' :: a :: b :: c :: d :: s) (.utf16 n :: us)

theorem units_of_literal {s : List Char} {us : List CodeUnit} (h : Literal s us) (r : List Char) :
    units (s ++ '"' :: r) = some (us, r) := by
  induction h with
  | nil => exact units_quote r
  | plain hc h ih => exact units_plain hc ih
  | escape hc h ih => exact units_escape hc ih
  | utf16 hn h ih => exact units_utf16 hn ih

theorem literal_of_units {s r : List Char} {us : List CodeUnit} (h : units s = some (us, r)) :
    ∃ t, s = t ++ '"' :: r ∧ Literal t us := by
  induction s using units.induct generalizing us with
  | case1 => cases h
  | case2 s =>
    rw [units_quote, Option.some.injEq, Prod.mk.injEq] at h
    exact ⟨[], by simp [h.2], h.1 ▸ .nil⟩
  | case3 a b c d s _ ih =>
    rw [units.eq_def] at h
    simp [Option.bind_eq_some_iff] at h
    rcases h with ⟨n, hn, vs, hvs, rfl⟩
    rcases ih hvs with ⟨t, rfl, ht⟩
    exact ⟨_, rfl, .utf16 hn ht⟩
  | case4 c s hnot _ ih =>
    rw [units] at h
    . simp [Option.bind_eq_some_iff] at h
      rcases h with ⟨d, hd, vs, hvs, rfl⟩
      rcases ih hvs with ⟨t, rfl, ht⟩
      exact ⟨_, rfl, .escape hd ht⟩
    . exact hnot
  | case5 =>
    rw [units.eq_def] at h
    simp at h
  | case6 c s hquote hslash hc ih =>
    rw [units.eq_def] at h
    simp [hquote, hslash, hc, Option.bind_eq_some_iff] at h
    rcases h with ⟨vs, hvs, rfl⟩
    rcases ih hvs with ⟨t, rfl, ht⟩
    exact ⟨_, rfl, .plain hc ht⟩
  | case7 c s hquote hslash hc =>
    rw [units.eq_def] at h
    simp [hquote, hslash, hc] at h

theorem decode_append_byte (c : Char) (us vs : List CodeUnit) :
    decode (us ++ .byte c :: vs) = decode us ++ c :: decode vs := by
  induction us using decode.induct with
  | case1 => simp [decode]
  | case2 d us ih => simp [decode, ih]
  | case3 n => simp [decode]
  | case4 n d us ih => simp [decode, ih]
  | case5 high low us hpair ih => simp [decode, hpair, ih]
  | case6 high low us hpair ih =>
    rw [List.cons_append] at ih
    simp [decode, hpair, ih]

theorem decode_map_byte (s : List Char) : decode (s.map .byte) = s := by
  induction s with
  | nil => rfl
  | cons c s ih => simp [decode, ih]

theorem length_utf8_le (n : Nat) : (utf8 n).length ≤ 4 := by
  unfold utf8
  split
  . simp
  . split
    . simp
    . split <;> simp

-- The most bytes that the code units are decoded to.
def width (us : List CodeUnit) : Nat :=
  match us with
  | [] => 0
  | .byte _ :: us => width us + 1
  | .utf16 _ :: us => width us + 4

theorem length_decode_le (us : List CodeUnit) : (decode us).length ≤ width us := by
  induction us using decode.induct with
  | case1 => simp [decode]
  | case2 c us ih =>
    simp [decode, width]
    omega
  | case3 n =>
    have hn := length_utf8_le n
    simp [decode, width, hn]
  | case4 n c us ih =>
    have hn := length_utf8_le n
    simp [decode, width]
    omega
  | case5 high low us hpair ih =>
    have hn := length_utf8_le (0x10000 + (high - 0xd800) * 0x400 + (low - 0xdc00))
    simp [decode, hpair, width]
    omega
  | case6 high low us hpair ih =>
    have hn := length_utf8_le high
    simp [decode, hpair, width] at ih ⊢
    omega

theorem le_of_hex? {c : Char} (h : (hex? c).isSome) : 0x30 ≤ c.toNat := by
  unfold hex? at h
  split at h
  . next hc => exact hc.1
  . split at h
    . next hc => exact Nat.le_trans (by decide) hc.1
    . split at h
      . next hc => exact Nat.le_trans (by decide) hc.1
      . cases h

theorem le_of_escape? {c d : Char} (h : escape? c = some d) : 0x20 ≤ c.toNat := by
  unfold escape? at h
  split at h
  all_goals first | decide | cases h

theorem hex?_of_hex4? {a b c d : Char} {n : Nat} (h : hex4? a b c d = some n) :
    (hex? a).isSome ∧ (hex? b).isSome ∧ (hex? c).isSome ∧ (hex? d).isSome := by
  simp only [hex4?, Option.bind_eq_bind, Option.bind_eq_some_iff] at h
  rcases h with ⟨_, ha, _, hb, _, hc, _, hd, _⟩
  simp [ha, hb, hc, hd]

namespace Literal

theorem visible {s : List Char} {us : List CodeUnit} (h : Literal s us) :
    ∀ c ∈ s, 0x20 ≤ c.toNat := by
  induction h with
  | nil => simp
  | plain hc h ih =>
    rw [List.forall_mem_cons]
    exact ⟨(isPlain_iff.mp hc).2.2, ih⟩
  | escape hc h ih =>
    rw [List.forall_mem_cons, List.forall_mem_cons]
    exact ⟨by decide, le_of_escape? hc, ih⟩
  | utf16 hn h ih =>
    rcases hex?_of_hex4? hn with ⟨ha, hb, hc, hd⟩
    have ha := le_of_hex? ha
    have hb := le_of_hex? hb
    have hc := le_of_hex? hc
    have hd := le_of_hex? hd
    simp only [List.forall_mem_cons]
    exact ⟨by decide, by decide, by omega, by omega, by omega, by omega, ih⟩

theorem width_le {s : List Char} {us : List CodeUnit} (h : Literal s us) :
    width us ≤ s.length := by
  induction h with
  | nil => simp [width]
  | plain hc h ih =>
    simp only [width, List.length_cons]
    omega
  | escape hc h ih =>
    simp only [width, List.length_cons]
    omega
  | utf16 hn h ih =>
    simp only [width, List.length_cons]
    omega

-- Every escape takes more bytes than it stands for.
theorem plain_or_shorter {s : List Char} {us : List CodeUnit} (h : Literal s us) :
    (us = s.map .byte ∧ ∀ c ∈ s, isPlain c = true) ∨ width us < s.length := by
  induction h with
  | nil => simp
  | plain hc h ih =>
    rcases ih with ⟨rfl, hplain⟩ | hshorter
    . refine .inl ⟨rfl, ?_⟩
      rw [List.forall_mem_cons]
      exact ⟨hc, hplain⟩
    . right
      simp only [width, List.length_cons]
      omega
  | escape hc h ih =>
    have hle := h.width_le
    right
    simp only [width, List.length_cons]
    omega
  | utf16 hn h ih =>
    have hle := h.width_le
    right
    simp only [width, List.length_cons]
    omega

-- A quote inside the quotes is one that a backslash escapes.
theorem split {k m : List Char} {us : List CodeUnit} (h : Literal (k ++ '"' :: m) us) :
    ∃ l vs ws, k = l ++ ['\\'] ∧ Literal l vs ∧ Literal m ws ∧ us = vs ++ .byte '"' :: ws := by
  generalize hs : k ++ '"' :: m = s at h
  induction h generalizing k with
  | nil => simp at hs
  | plain hc h ih =>
    cases k with
    | nil =>
      cases hs
      cases hc
    | cons d k =>
      cases hs
      rcases ih rfl with ⟨l, vs, ws, rfl, hl, hm, rfl⟩
      exact ⟨_, _, ws, rfl, .plain hc hl, hm, rfl⟩
  | escape hc h ih =>
    match k with
    | [] => cases hs
    | [d] =>
      cases hs
      cases hc
      exact ⟨[], [], _, rfl, .nil, h, rfl⟩
    | d :: e :: k =>
      cases hs
      rcases ih rfl with ⟨l, vs, ws, rfl, hl, hm, rfl⟩
      exact ⟨_, _, ws, rfl, .escape hc hl, hm, rfl⟩
  | utf16 hn h ih =>
    rcases hex?_of_hex4? hn with ⟨ha, hb, hc, hd⟩
    match k with
    | [] => cases hs
    | [_] => cases hs
    | [_, _] => cases hs; cases ha
    | [_, _, _] => cases hs; cases hb
    | [_, _, _, _] => cases hs; cases hc
    | [_, _, _, _, _] => cases hs; cases hd
    | _ :: _ :: _ :: _ :: _ :: _ :: k =>
      cases hs
      rcases ih rfl with ⟨l, vs, ws, rfl, hl, hm, rfl⟩
      exact ⟨_, _, ws, rfl, .utf16 hn hl, hm, rfl⟩

end Literal

theorem string_eq_some_iff {s x r : List Char} :
    string s = some (x, r) ↔ ∃ t us, s = t ++ '"' :: r ∧ Literal t us ∧ x = decode us := by
  simp only [string, Option.bind_eq_bind, Option.bind_eq_some_iff]
  constructor
  . rintro ⟨⟨us, r'⟩, hus, heq⟩
    cases heq
    rcases literal_of_units hus with ⟨t, rfl, ht⟩
    exact ⟨t, us, rfl, ht, rfl⟩
  . rintro ⟨t, us, rfl, ht, rfl⟩
    exact ⟨(us, r), units_of_literal ht r, rfl⟩

theorem literal_of_plain {x : List Char} (h : ∀ c ∈ x, isPlain c = true) :
    Literal x (x.map .byte) := by
  induction x with
  | nil => exact .nil
  | cons c x ih =>
    rw [List.forall_mem_cons] at h
    exact .plain h.1 (ih h.2)

theorem string_of_plain {x : List Char} (h : ∀ c ∈ x, isPlain c = true) (r : List Char) :
    string (x ++ '"' :: r) = some (x, r) := by
  rw [string_eq_some_iff]
  exact ⟨x, _, rfl, literal_of_plain h, (decode_map_byte x).symm⟩

theorem string_token {s x r : List Char} (h : string s = some (x, r)) :
    ∃ t, s = t ++ '"' :: r ∧ (∀ c ∈ t, 0x20 ≤ c.toNat)
      ∧ ∀ r', string (t ++ '"' :: r') = some (x, r') := by
  rcases string_eq_some_iff.mp h with ⟨t, us, hs, ht, hx⟩
  refine ⟨t, hs, ht.visible, ?_⟩
  intro r'
  exact string_eq_some_iff.mpr ⟨t, us, rfl, ht, hx⟩

theorem plain_or_shorter_of_string {s x r : List Char} (h : string s = some (x, r)) :
    (s = x ++ '"' :: r ∧ ∀ c ∈ x, isPlain c = true) ∨ x.length + r.length + 1 < s.length := by
  rcases string_eq_some_iff.mp h with ⟨t, us, rfl, ht, rfl⟩
  rcases ht.plain_or_shorter with ⟨rfl, hplain⟩ | hshorter
  . rw [decode_map_byte]
    exact .inl ⟨rfl, hplain⟩
  . have hle := length_decode_le us
    right
    rw [List.length_append, List.length_cons]
    omega

theorem length_string {s x r : List Char} (h : string s = some (x, r)) :
    x.length + r.length < s.length := by
  rcases plain_or_shorter_of_string h with ⟨rfl, _⟩ | hshorter
  . simp
  . omega

theorem mem_of_append_eq {a b c d : List Char} {x : Char} (h : a ++ x :: b = c ++ d)
    (hle : c.length ≤ a.length) :
    x ∈ d := by
  rcases List.append_eq_append_iff.mp h with ⟨m, rfl, hd⟩ | ⟨m, rfl, rfl⟩
  . cases m with
    | nil =>
      cases hd
      simp
    | cons y m =>
      rw [List.length_append, List.length_cons] at hle
      omega
  . simp

-- Up to the next closing quote there is nothing to escape.
def PlainUntilQuote (s : List Char) : Prop :=
  ∀ x r, string s = some (x, r) → ∀ c ∈ x, isPlain c = true

theorem plainUntilQuote_of_plain {x : List Char} (h : ∀ c ∈ x, isPlain c = true) (r : List Char) :
    PlainUntilQuote (x ++ '"' :: r) := by
  intro y r' hy
  rw [string_of_plain h] at hy
  cases hy
  exact h

theorem plainUntilQuote_of_not_mem {s : List Char} (h : '"' ∉ s) : PlainUntilQuote s := by
  intro x r hx
  rcases string_eq_some_iff.mp hx with ⟨t, us, rfl, _⟩
  exact absurd (by simp) h

/--
A string that was written without escapes and is read back as `k`. What follows the closing quote
matters: where the last backslash of `k` escapes that quote, the string goes on behind it.
-/
theorem plain_of_string_eq {k' k t r : List Char} (hstart : k' <+: k)
    (h : string (k' ++ '"' :: t) = some (k, r))
    (ht : PlainUntilQuote t) :
    k' = k ∧ (∀ c ∈ k, isPlain c = true) ∧ r = t := by
  rcases string_eq_some_iff.mp h with ⟨text, us, hs, htext, rfl⟩
  have hlength := hstart.length_le
  have hdecode := length_decode_le us
  have hwidth := htext.width_le
  rcases List.append_eq_append_iff.mp hs with ⟨m, rfl, hr⟩ | ⟨m, rfl, hr⟩
  . cases m with
    | nil =>
      cases hr
      rw [List.append_nil] at htext hwidth
      rcases htext.plain_or_shorter with ⟨rfl, hplain⟩ | hshorter
      . rw [decode_map_byte]
        exact ⟨rfl, hplain, rfl⟩
      . omega
    | cons c m =>
      -- the quote after `k'` does not close the string
      cases hr
      rcases htext.split with ⟨l, vs, ws, rfl, hl, hm, rfl⟩
      have hws := ht _ _ (string_eq_some_iff.mpr ⟨m, ws, rfl, hm, rfl⟩)
      rcases hstart with ⟨z, hz⟩
      rw [decode_append_byte, List.append_assoc] at hz
      have hmem : '\\' ∈ '"' :: decode ws :=
        mem_of_append_eq hz (Nat.le_trans (length_decode_le vs) hl.width_le)
      rw [List.mem_cons] at hmem
      rcases hmem with hquote | hmem
      . cases hquote
      . exact absurd (hws _ hmem) (by decide)
  . cases m with
    | nil =>
      cases hr
      rw [List.append_nil] at hstart hlength ⊢
      rcases htext.plain_or_shorter with ⟨rfl, hplain⟩ | hshorter
      . rw [decode_map_byte]
        exact ⟨rfl, hplain, rfl⟩
      . omega
    | cons c m =>
      rw [List.length_append, List.length_cons] at hlength
      omega

end Json
