import Seuss.Json.Basic
import Seuss.Json.Number
import Seuss.Json.String

/-!
This module contains the grammar of JSON texts and what follows from it about every text: it is at
least as long as the strings in it, and newlines between its tokens do not matter.
-/

namespace Json

-- a value as it is read: its numbers are still texts
abbrev Tree := Json (List Char)

def isSpace (c : Char) : Bool :=
  c == ' ' || c == '\t' || c == '\n' || c == '\r'

def skip (s : List Char) : List Char :=
  s.dropWhile isSpace

-- a member's name and the colon after it
def key (s : List Char) : Option (List Char × List Char) :=
  match skip s with
  | '"' :: s =>
    match string s with
    | some (k, s) =>
      match skip s with
      | ':' :: s => some (k, s)
      | _ => none
    | none => none
  | _ => none

inductive Part where
  | value (v : Tree)
  -- what is left of an array or an object after one of its elements
  | items (vs : List Tree)
  | members (ms : List (List Char × Tree))

/--
`Reads p s r` holds if `s` begins with a text of `p`, followed by `r`.
-/
inductive Reads : Part → List Char → List Char → Prop where
  | null {s r : List Char} (h : skip s = 'n' :: 'u' :: 'l' :: 'l' :: r) : Reads (.value .null) s r
  | true {s r : List Char} (h : skip s = 't' :: 'r' :: 'u' :: 'e' :: r) :
    Reads (.value (.bool true)) s r
  | false {s r : List Char} (h : skip s = 'f' :: 'a' :: 'l' :: 's' :: 'e' :: r) :
    Reads (.value (.bool false)) s r
  | num {s r x : List Char} (h : number (skip s) = some (x, r)) : Reads (.value (.num x)) s r
  | str {s t r x : List Char} (h : skip s = '"' :: t) (hx : string t = some (x, r)) :
    Reads (.value (.str x)) s r
  | emptyArr {s t r : List Char} (h : skip s = '[' :: t) (hr : skip t = ']' :: r) :
    Reads (.value (.arr [])) s r
  | arr {s t u r : List Char} {v : Tree} {vs : List Tree} (h : skip s = '[' :: t)
    (hv : Reads (.value v) t u) (hvs : Reads (.items vs) u r) :
    Reads (.value (.arr (v :: vs))) s r
  | emptyObj {s t r : List Char} (h : skip s = '{' :: t) (hr : skip t = '}' :: r) :
    Reads (.value (.obj [])) s r
  | obj {s t u w r k : List Char} {v : Tree} {ms : List (List Char × Tree)} (h : skip s = '{' :: t)
    (hk : key t = some (k, u)) (hv : Reads (.value v) u w) (hms : Reads (.members ms) w r) :
    Reads (.value (.obj ((k, v) :: ms))) s r
  | closeArr {s r : List Char} (h : skip s = ']' :: r) : Reads (.items []) s r
  | item {s t u r : List Char} {v : Tree} {vs : List Tree} (h : skip s = ',' :: t)
    (hv : Reads (.value v) t u) (hvs : Reads (.items vs) u r) :
    Reads (.items (v :: vs)) s r
  | closeObj {s r : List Char} (h : skip s = '}' :: r) : Reads (.members []) s r
  | member {s t u w r k : List Char} {v : Tree} {ms : List (List Char × Tree)}
    (h : skip s = ',' :: t) (hk : key t = some (k, u)) (hv : Reads (.value v) u w)
    (hms : Reads (.members ms) w r) :
    Reads (.members ((k, v) :: ms)) s r

theorem length_skip_le (s : List Char) : (skip s).length ≤ s.length := by
  exact (List.dropWhile_suffix isSpace).length_le

theorem length_of_skip {s t : List Char} {c : Char} (h : skip s = c :: t) :
    t.length < s.length := by
  have hle := length_skip_le s
  rw [h, List.length_cons] at hle
  omega

theorem skip_cons_of_isSpace {c : Char} (hc : isSpace c = Bool.true) (s : List Char) :
    skip (c :: s) = skip s := by
  simp [skip, hc]

theorem skip_cons_of_not_isSpace {c : Char} (hc : isSpace c = Bool.false) (s : List Char) :
    skip (c :: s) = c :: s := by
  simp [skip, hc]

theorem key_eq_some_iff {s k r : List Char} :
    key s = some (k, r) ↔ ∃ t u, skip s = '"' :: t ∧ string t = some (k, u) ∧ skip u = ':' :: r := by
  unfold key
  constructor
  . intro h
    split at h
    . next t ht =>
      split at h
      . next k' u hk =>
        split at h
        . next w hw =>
          cases h
          exact ⟨t, u, ht, hk, hw⟩
        . cases h
      . cases h
    . cases h
  . rintro ⟨t, u, ht, hk, hr⟩
    simp [ht, hk, hr]

theorem key_cons_of_isSpace {c : Char} (hc : isSpace c = Bool.true) (s : List Char) :
    key (c :: s) = key s := by
  simp only [key, skip_cons_of_isSpace hc]

theorem key_of_plain {k : List Char} (h : ∀ c ∈ k, isPlain c = Bool.true) (r : List Char) :
    key ('"' :: (k ++ '"' :: ':' :: r)) = some (k, r) := by
  rw [key_eq_some_iff]
  exact ⟨_, _, rfl, string_of_plain h _, rfl⟩

theorem not_isSpace_of_isNumberChar {c : Char} (h : isNumberChar c = Bool.true) :
    isSpace c = Bool.false := by
  rw [Bool.eq_false_iff]
  intro hspace
  simp only [isSpace, Bool.or_eq_true, beq_iff_eq] at hspace
  rcases hspace with ((rfl | rfl) | rfl) | rfl <;> cases h

section weight

mutual

-- A lower bound of the length of a text.
def weight (v : Json ν) : Nat :=
  match v with
  | .null | .bool _ | .num _ => 1
  | .str s => s.length + 2
  | .arr items => weightItems items + 1
  | .obj members => weightMembers members + 1

def weightItems (items : List (Json ν)) : Nat :=
  match items with
  | [] => 1
  | v :: items => weight v + weightItems items

def weightMembers (members : List (List Char × Json ν)) : Nat :=
  match members with
  | [] => 1
  | (k, v) :: members => k.length + 3 + weight v + weightMembers members

end

def Part.weight (p : Part) : Nat :=
  match p with
  | .value v => v.weight
  | .items vs => weightItems vs
  | .members ms => weightMembers ms

theorem weightMembers_pos (members : List (List Char × Json ν)) : 0 < weightMembers members := by
  cases members with
  | nil => simp [weightMembers]
  | cons m members => simp [weightMembers]

theorem weight_lt_of_mem {members : List (List Char × Json ν)} {k : List Char} {v : Json ν}
    (h : (k, v) ∈ members) :
    k.length + 3 + v.weight < weightMembers members := by
  induction members with
  | nil => cases h
  | cons m members ih =>
    rw [List.mem_cons] at h
    rcases h with rfl | h
    . have hpos := weightMembers_pos members
      simp only [weightMembers]
      omega
    . have hlt := ih h
      simp only [weightMembers]
      omega

theorem weight_of_get? {j v : Json ν} {name : List Char} (h : j.get? name = some v) :
    v.weight + 4 ≤ j.weight := by
  cases j with
  | obj members =>
    have hlt := weight_lt_of_mem (mem_of_get? h)
    simp only [weight]
    omega
  | _ => cases h

theorem length_key {s k r : List Char} (h : key s = some (k, r)) :
    k.length + 3 + r.length ≤ s.length := by
  rcases key_eq_some_iff.mp h with ⟨t, u, ht, hk, hr⟩
  have hs := length_of_skip ht
  have hu := length_of_skip hr
  have hstring := length_string hk
  omega

theorem length_number {s x r : List Char} (h : number s = some (x, r)) :
    1 + r.length ≤ s.length := by
  rcases number_eq_some_iff.mp h with ⟨rfl, hx, _⟩
  cases x with
  | nil => cases hx
  | cons c x =>
    rw [List.length_append, List.length_cons]
    omega

theorem Reads.weight_le {p : Part} {s r : List Char} (h : Reads p s r) :
    p.weight + r.length ≤ s.length := by
  induction h with
  | null h | true h | false h =>
    have hs := length_of_skip h
    simp only [List.length_cons] at hs
    simp only [Part.weight, Json.weight]
    omega
  | @num s r x h =>
    have hs := length_skip_le s
    have hx := length_number h
    simp only [Part.weight, Json.weight]
    omega
  | str h hx =>
    have hs := length_of_skip h
    have ht := length_string hx
    simp only [Part.weight, Json.weight]
    omega
  | emptyArr h hr | emptyObj h hr =>
    have hs := length_of_skip h
    have ht := length_of_skip hr
    simp only [Part.weight, Json.weight, weightItems, weightMembers]
    omega
  | arr h hv hvs ihv ihvs | item h hv hvs ihv ihvs =>
    have hs := length_of_skip h
    simp only [Part.weight, Json.weight, weightItems] at ihv ihvs ⊢
    omega
  | closeArr h =>
    have hs := length_of_skip h
    simp only [Part.weight, weightItems]
    omega
  | closeObj h =>
    have hs := length_of_skip h
    simp only [Part.weight, weightMembers]
    omega
  | obj h hk hv hms ihv ihms | member h hk hv hms ihv ihms =>
    have hs := length_of_skip h
    have ht := length_key hk
    simp only [Part.weight, Json.weight, weightMembers] at ihv ihms ⊢
    omega

end weight

section preserves

theorem stops_of_skip {s r : List Char} {c : Char} (h : skip s = c :: r)
    (hc : isNumberChar c = Bool.false) :
    stops s = Bool.true := by
  cases s with
  | nil => rfl
  | cons d s =>
    cases hd : isSpace d with
    | true =>
      cases hnumber : isNumberChar d with
      | true => rw [not_isSpace_of_isNumberChar hnumber] at hd; cases hd
      | false => simp [stops, hnumber]
    | false =>
      rw [skip_cons_of_not_isSpace hd] at h
      cases h
      simp [stops, hc]

/--
An operation on texts that leaves their tokens as they are.
-/
structure Preserves (f : List Char → List Char) : Prop where
  skip : ∀ {s x r}, skip s = x ++ r → (∀ c ∈ x, isSpace c = Bool.false) → x ≠ [] →
    Json.skip (f s) = x ++ f r
  string : ∀ {s x r}, string s = some (x, r) → Json.string (f s) = some (x, f r)

variable {f : List Char → List Char} {s r x k : List Char}

theorem Preserves.skip_cons (hf : Preserves f) {c : Char} (h : Json.skip s = c :: r)
    (hc : isSpace c = Bool.false) :
    Json.skip (f s) = c :: f r := by
  exact hf.skip (x := [c]) h (by simpa using hc) (by simp)

theorem Preserves.key (hf : Preserves f) (h : Json.key s = some (k, r)) :
    Json.key (f s) = some (k, f r) := by
  rcases key_eq_some_iff.mp h with ⟨u, w, hu, hk, hr⟩
  rw [key_eq_some_iff]
  exact ⟨_, _, hf.skip_cons hu rfl, hf.string hk, hf.skip_cons hr rfl⟩

theorem Preserves.number (hf : Preserves f) (h : Json.number (Json.skip s) = some (x, r))
    (hr : stops (f r) = Bool.true) :
    Json.number (Json.skip (f s)) = some (x, f r) := by
  rw [number_eq_some_iff] at h
  rcases h with ⟨hs, hnumber, hx, _⟩
  rw [number_eq_some_iff]
  refine ⟨?_, hnumber, hx, hr⟩
  apply hf.skip hs
  . intro c hc
    exact not_isSpace_of_isNumberChar (hx c hc)
  . rintro rfl
    cases hnumber

theorem Preserves.stops (hf : Preserves f) {p : Part} (h : Reads p s r) (hp : ∀ v, p ≠ .value v) :
    Json.stops (f s) = Bool.true := by
  cases h with
  | closeArr h | item h | closeObj h | member h => exact stops_of_skip (hf.skip_cons h rfl) rfl
  | _ => exact absurd rfl (hp _)

/--
Such an operation does not change what is read, and what it puts behind a text only matters after a
number.
-/
theorem Preserves.reads (hf : Preserves f) {p : Part} (h : Reads p s r)
    (hend : ∀ v, p = .value v → Json.stops (f r) = Bool.true) :
    Reads p (f s) (f r) := by
  induction h with
  | null h => exact .null (hf.skip (x := ['n', 'u', 'l', 'l']) h (by simp [isSpace]) (by simp))
  | true h => exact .true (hf.skip (x := ['t', 'r', 'u', 'e']) h (by simp [isSpace]) (by simp))
  | false h => exact .false (hf.skip (x := ['f', 'a', 'l', 's', 'e']) h (by simp [isSpace]) (by simp))
  | num h => exact .num (hf.number h (hend _ rfl))
  | str h hx => exact .str (hf.skip_cons h rfl) (hf.string hx)
  | emptyArr h hr => exact .emptyArr (hf.skip_cons h rfl) (hf.skip_cons hr rfl)
  | arr h hv hvs ihv ihvs =>
    have hstops := hf.stops hvs (by simp)
    exact .arr (hf.skip_cons h rfl) (ihv fun _ _ => hstops) (ihvs (by simp))
  | emptyObj h hr => exact .emptyObj (hf.skip_cons h rfl) (hf.skip_cons hr rfl)
  | obj h hk hv hms ihv ihms =>
    have hstops := hf.stops hms (by simp)
    exact .obj (hf.skip_cons h rfl) (hf.key hk) (ihv fun _ _ => hstops) (ihms (by simp))
  | closeArr h => exact .closeArr (hf.skip_cons h rfl)
  | item h hv hvs ihv ihvs =>
    have hstops := hf.stops hvs (by simp)
    exact .item (hf.skip_cons h rfl) (ihv fun _ _ => hstops) (ihvs (by simp))
  | closeObj h => exact .closeObj (hf.skip_cons h rfl)
  | member h hk hv hms ihv ihms =>
    have hstops := hf.stops hms (by simp)
    exact .member (hf.skip_cons h rfl) (hf.key hk) (ihv fun _ _ => hstops) (ihms (by simp))

end preserves

section strip

-- A text loses its newlines and goes on with `t`.
def strip (t s : List Char) : List Char :=
  s.filter (· ≠ '\n') ++ t

variable {t : List Char}

theorem strip_append {x : List Char} (hx : ∀ c ∈ x, c ≠ '\n') (s : List Char) :
    strip t (x ++ s) = x ++ strip t s := by
  have hfilter : x.filter (· ≠ '\n') = x := by
    rw [List.filter_eq_self]
    simpa using hx
  rw [strip, strip, List.filter_append, hfilter, List.append_assoc]

theorem skip_strip_cons_of_isSpace {c : Char} (hc : isSpace c = Bool.true) (s : List Char) :
    skip (strip t (c :: s)) = skip (strip t s) := by
  by_cases hnewline : c = '\n'
  . rw [hnewline]
    rfl
  . rw [← List.singleton_append, strip_append (by simpa using hnewline), List.singleton_append,
      skip_cons_of_isSpace hc]

-- The space before a token is gone before it is stripped, or after.
theorem skip_strip_skip (s : List Char) : skip (strip t s) = skip (strip t (skip s)) := by
  induction s with
  | nil => rfl
  | cons c s ih =>
    cases hc : isSpace c with
    | true => rw [skip_strip_cons_of_isSpace hc, skip_cons_of_isSpace hc, ih]
    | false => rw [skip_cons_of_not_isSpace hc]

theorem skip_strip {s x r : List Char} (h : skip s = x ++ r) (hx : ∀ c ∈ x, isSpace c = Bool.false)
    (hne : x ≠ []) :
    skip (strip t s) = x ++ strip t r := by
  have hnewlines : ∀ d ∈ x, d ≠ '\n' := by
    rintro d hd rfl
    cases hx _ hd
  rw [skip_strip_skip, h, strip_append hnewlines]
  cases x with
  | nil => exact absurd rfl hne
  | cons d x => exact skip_cons_of_not_isSpace (hx d List.mem_cons_self) _

theorem skip_strip_of_nil {s : List Char} (h : skip s = []) : skip (strip t s) = skip t := by
  rw [skip_strip_skip, h]
  rfl

theorem string_strip {s x r : List Char} (h : string s = some (x, r)) :
    string (strip t s) = some (x, strip t r) := by
  rcases string_token h with ⟨text, rfl, hvisible, hread⟩
  have hnewlines : ∀ c ∈ text ++ ['"'], c ≠ '\n' := by
    rintro c hc rfl
    rw [List.mem_append, List.mem_singleton] at hc
    rcases hc with hc | hc
    . exact absurd (hvisible _ hc) (by decide)
    . cases hc
  rw [List.append_cons, strip_append hnewlines, ← List.append_cons]
  exact hread _

theorem preserves_strip (t : List Char) : Preserves (strip t) where
  skip := skip_strip
  string := string_strip

-- Newlines between the tokens of a text do not matter.
theorem Reads.strip {p : Part} {s r : List Char} (h : Reads p s r)
    (hend : ∀ v, p = .value v → stops (strip t r) = Bool.true) :
    Reads p (strip t s) (strip t r) :=
  (preserves_strip t).reads h hend

end strip

section control

-- No text contains such a character.
def isControl (c : Char) : Bool :=
  c.toNat < 0x20 && !isSpace c

variable {c : Char}

theorem isControl_iff : isControl c = Bool.true ↔ c.toNat < 0x20 ∧ isSpace c = Bool.false := by
  simp [isControl]

theorem mem_skip (hc : isControl c = Bool.true) {s : List Char} (h : c ∈ s) : c ∈ skip s := by
  induction s with
  | nil => cases h
  | cons d s ih =>
    cases hd : isSpace d with
    | true =>
      rw [skip_cons_of_isSpace hd]
      rw [List.mem_cons] at h
      rcases h with rfl | h
      . rw [(isControl_iff.mp hc).2] at hd
        cases hd
      . exact ih h
    | false =>
      rw [skip_cons_of_not_isSpace hd]
      exact h

theorem mem_of_skip (hc : isControl c = Bool.true) {s x r : List Char} (h : c ∈ s)
    (hs : skip s = x ++ r) (hx : ∀ d ∈ x, 0x20 ≤ d.toNat) :
    c ∈ r := by
  have hmem := mem_skip hc h
  rw [hs, List.mem_append] at hmem
  rcases hmem with hmem | hmem
  . have hle := hx c hmem
    have hlt := (isControl_iff.mp hc).1
    omega
  . exact hmem

theorem mem_of_string (hc : isControl c = Bool.true) {s x r : List Char} (h : c ∈ s)
    (hs : string s = some (x, r)) :
    c ∈ r := by
  rcases string_token hs with ⟨t, rfl, ht, _⟩
  have hlt := (isControl_iff.mp hc).1
  rw [List.mem_append, List.mem_cons] at h
  rcases h with h | rfl | h
  . have hle := ht c h
    omega
  . cases hc
  . exact h

theorem mem_of_key (hc : isControl c = Bool.true) {s k r : List Char} (h : c ∈ s)
    (hs : key s = some (k, r)) :
    c ∈ r := by
  rcases key_eq_some_iff.mp hs with ⟨t, u, ht, hk, hr⟩
  have ht := mem_of_skip (x := ['"']) hc h ht (by simp)
  have hu := mem_of_string hc ht hk
  exact mem_of_skip (x := [':']) hc hu hr (by simp)

theorem mem_of_number (hc : isControl c = Bool.true) {s x r : List Char} (h : c ∈ s)
    (hs : number (skip s) = some (x, r)) :
    c ∈ r := by
  rcases number_eq_some_iff.mp hs with ⟨heq, _, hx, _⟩
  have hmem := mem_skip hc h
  rw [heq, List.mem_append] at hmem
  rcases hmem with hmem | hmem
  . have hle := le_of_isNumberChar (hx c hmem)
    have hlt := (isControl_iff.mp hc).1
    omega
  . exact hmem

theorem Reads.mem_of_mem (hc : isControl c = Bool.true) {p : Part} {s r : List Char}
    (h : Reads p s r) (hmem : c ∈ s) :
    c ∈ r := by
  induction h with
  | null h => exact mem_of_skip (x := ['n', 'u', 'l', 'l']) hc hmem h (by simp)
  | true h => exact mem_of_skip (x := ['t', 'r', 'u', 'e']) hc hmem h (by simp)
  | false h => exact mem_of_skip (x := ['f', 'a', 'l', 's', 'e']) hc hmem h (by simp)
  | num h => exact mem_of_number hc hmem h
  | str h hx => exact mem_of_string hc (mem_of_skip (x := ['"']) hc hmem h (by simp)) hx
  | emptyArr h hr =>
    have ht := mem_of_skip (x := ['[']) hc hmem h (by simp)
    exact mem_of_skip (x := [']']) hc ht hr (by simp)
  | arr h hv hvs ihv ihvs => exact ihvs (ihv (mem_of_skip (x := ['[']) hc hmem h (by simp)))
  | emptyObj h hr =>
    have ht := mem_of_skip (x := ['{']) hc hmem h (by simp)
    exact mem_of_skip (x := ['}']) hc ht hr (by simp)
  | obj h hk hv hms ihv ihms =>
    have ht := mem_of_skip (x := ['{']) hc hmem h (by simp)
    exact ihms (ihv (mem_of_key hc ht hk))
  | closeArr h => exact mem_of_skip (x := [']']) hc hmem h (by simp)
  | item h hv hvs ihv ihvs => exact ihvs (ihv (mem_of_skip (x := [',']) hc hmem h (by simp)))
  | closeObj h => exact mem_of_skip (x := ['}']) hc hmem h (by simp)
  | member h hk hv hms ihv ihms =>
    have ht := mem_of_skip (x := [',']) hc hmem h (by simp)
    exact ihms (ihv (mem_of_key hc ht hk))

end control

section inversion

theorem number_of_not_isNumberChar {c : Char} (hc : isNumberChar c = Bool.false) (s : List Char) :
    number (c :: s) = none := by
  rw [Option.eq_none_iff_forall_ne_some]
  rintro ⟨x, r⟩ h
  rcases number_eq_some_iff.mp h with ⟨hs, hnumber, hx, _⟩
  cases x with
  | nil => cases hnumber
  | cons d x =>
    cases hs
    rw [hx c (by simp)] at hc
    cases hc

-- Only what comes after the leading space matters.
theorem Reads.of_skip_eq {p : Part} {s s' r : List Char} (h : Reads p s r) (hs : skip s' = skip s) :
    Reads p s' r := by
  cases h with
  | null h => exact .null (hs.trans h)
  | true h => exact .true (hs.trans h)
  | false h => exact .false (hs.trans h)
  | num h => exact .num (hs ▸ h)
  | str h hx => exact .str (hs.trans h) hx
  | emptyArr h hr => exact .emptyArr (hs.trans h) hr
  | arr h hv hvs => exact .arr (hs.trans h) hv hvs
  | emptyObj h hr => exact .emptyObj (hs.trans h) hr
  | obj h hk hv hms => exact .obj (hs.trans h) hk hv hms
  | closeArr h => exact .closeArr (hs.trans h)
  | item h hv hvs => exact .item (hs.trans h) hv hvs
  | closeObj h => exact .closeObj (hs.trans h)
  | member h hk hv hms => exact .member (hs.trans h) hk hv hms

theorem Reads.of_brace {s t r : List Char} {v : Tree} (h : Reads (.value v) s r)
    (hs : skip s = '{' :: t) :
    (v = .obj [] ∧ skip t = '}' :: r)
      ∨ ∃ k u w j ms, v = .obj ((k, j) :: ms) ∧ key t = some (k, u) ∧ Reads (.value j) u w
          ∧ Reads (.members ms) w r := by
  cases h with
  | emptyObj h hr =>
    cases hs.symm.trans h
    exact .inl ⟨rfl, hr⟩
  | obj h hk hv hms =>
    cases hs.symm.trans h
    exact .inr ⟨_, _, _, _, _, rfl, hk, hv, hms⟩
  | num h =>
    rw [hs, number_of_not_isNumberChar rfl] at h
    cases h
  | null h | true h | false h | str h | emptyArr h | arr h => cases hs.symm.trans h

theorem Reads.of_bracket {s t r : List Char} {v : Tree} (h : Reads (.value v) s r)
    (hs : skip s = '[' :: t) :
    (v = .arr [] ∧ skip t = ']' :: r)
      ∨ ∃ w j vs, v = .arr (j :: vs) ∧ Reads (.value j) t w ∧ Reads (.items vs) w r := by
  cases h with
  | emptyArr h hr =>
    cases hs.symm.trans h
    exact .inl ⟨rfl, hr⟩
  | arr h hv hvs =>
    cases hs.symm.trans h
    exact .inr ⟨_, _, _, rfl, hv, hvs⟩
  | num h =>
    rw [hs, number_of_not_isNumberChar rfl] at h
    cases h
  | null h | true h | false h | str h | emptyObj h | obj h => cases hs.symm.trans h

theorem Reads.of_quote {s t r : List Char} {v : Tree} (h : Reads (.value v) s r)
    (hs : skip s = '"' :: t) :
    ∃ x, v = .str x ∧ string t = some (x, r) := by
  cases h with
  | str h hx =>
    cases hs.symm.trans h
    exact ⟨_, rfl, hx⟩
  | num h =>
    rw [hs, number_of_not_isNumberChar rfl] at h
    cases h
  | null h | true h | false h | emptyArr h | arr h | emptyObj h | obj h => cases hs.symm.trans h

theorem Reads.of_number {s x t r : List Char} {v : Tree} (h : Reads (.value v) s r)
    (hs : number (skip s) = some (x, t)) :
    v = .num x ∧ r = t := by
  cases h with
  | num h =>
    cases hs.symm.trans h
    exact ⟨rfl, rfl⟩
  | null h | true h | false h | str h | emptyArr h | arr h | emptyObj h | obj h =>
    rw [h, number_of_not_isNumberChar rfl] at hs
    cases hs

theorem Reads.of_comma {s t r : List Char} {ms : List (List Char × Tree)}
    (h : Reads (.members ms) s r) (hs : skip s = ',' :: t) :
    ∃ k u w j ns, ms = (k, j) :: ns ∧ key t = some (k, u) ∧ Reads (.value j) u w
      ∧ Reads (.members ns) w r := by
  cases h with
  | closeObj h => cases hs.symm.trans h
  | member h hk hv hms =>
    cases hs.symm.trans h
    exact ⟨_, _, _, _, _, rfl, hk, hv, hms⟩

end inversion

end Json
