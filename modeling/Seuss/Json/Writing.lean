import Mathlib.Data.List.Forall2
import Seuss.Json.Parser

/-!
This module contains JSON texts as they are put together from the texts of their parts: what such a text
is read as, and that it is read in one way only.
-/

namespace Json

section append

variable {t : List Char}

theorem skip_append {s x r : List Char} (h : skip s = x ++ r) (hne : x ≠ []) :
    skip (s ++ t) = x ++ (r ++ t) := by
  rw [skip] at h
  rw [skip, List.dropWhile_append, h, if_neg (by simp [hne]), List.append_assoc]

theorem skip_append_of_nil {s : List Char} (h : skip s = []) : skip (s ++ t) = skip t := by
  rw [skip] at h
  rw [skip, List.dropWhile_append, h]
  rfl

theorem string_append {s x r : List Char} (h : string s = some (x, r)) :
    string (s ++ t) = some (x, r ++ t) := by
  rcases string_token h with ⟨text, rfl, _, hread⟩
  rw [List.append_assoc, List.cons_append]
  exact hread _

theorem preserves_append (t : List Char) : Preserves (· ++ t) where
  skip h _ hne := skip_append h hne
  string := string_append

theorem Reads.append {p : Part} {s r : List Char} (h : Reads p s r)
    (hend : ∀ v, p = .value v → stops (r ++ t) = Bool.true) :
    Reads p (s ++ t) (r ++ t) :=
  (preserves_append t).reads h hend

end append

/--
There is one way to read a value.
-/
theorem Reads.unique {s r u : List Char} {v w : Tree} (h : Reads (.value v) s r)
    (h' : Reads (.value w) s u) :
    v = w ∧ r = u := by
  have hv : parseValue (s.length + 1) s = some (v, r) := h.parsed (Nat.le_refl _)
  have hw : parseValue (s.length + 1) s = some (w, u) := h'.parsed (Nat.le_refl _)
  rw [hv, Option.some.injEq, Prod.mk.injEq] at hw
  exact hw

section texts

def quoted (s : List Char) : List Char :=
  '"' :: (s ++ ['"'])

def memberText (m : List Char × List Char) : List Char :=
  quoted m.1 ++ ':' :: m.2

-- what is left of an object or an array after one of its elements
def membersText (ms : List (List Char × List Char)) : List Char :=
  match ms with
  | [] => ['}']
  | m :: ms => ',' :: (memberText m ++ membersText ms)

def itemsText (vs : List (List Char)) : List Char :=
  match vs with
  | [] => [']']
  | v :: vs => ',' :: (v ++ itemsText vs)

def objectText (ms : List (List Char × List Char)) : List Char :=
  match ms with
  | [] => ['{', '}']
  | m :: ms => '{' :: (memberText m ++ membersText ms)

def arrayText (vs : List (List Char)) : List Char :=
  match vs with
  | [] => ['[', ']']
  | v :: vs => '[' :: (v ++ itemsText vs)

theorem stops_membersText (ms : List (List Char × List Char)) (r : List Char) :
    stops (membersText ms ++ r) = true := by
  cases ms <;> rfl

theorem stops_itemsText (vs : List (List Char)) (r : List Char) :
    stops (itemsText vs ++ r) = true := by
  cases vs <;> rfl

theorem memberText_append (k s r : List Char) :
    memberText (k, s) ++ r = '"' :: (k ++ '"' :: ':' :: (s ++ r)) := by
  simp [memberText, quoted]

theorem quoted_append (s r : List Char) : quoted s ++ r = '"' :: (s ++ '"' :: r) := by
  simp [quoted]

end texts

-- `s` is read as `v` whatever comes after it, up to space.
def Writes (v : Tree) (s : List Char) : Prop :=
  ∀ r, stops r = true → ∃ u, Reads (.value v) (s ++ r) u ∧ skip u = skip r

def Plain (s : List Char) : Prop :=
  ∀ c ∈ s, isPlain c = true

structure WritesMember (m : List Char × Tree) (t : List Char × List Char) : Prop where
  name : m.1 = t.1
  plain : Plain t.1
  value : Writes m.2 t.2

section writes

variable {v : Tree} {s r u k : List Char} {ms : List (List Char × Tree)}
  {ts : List (List Char × List Char)}

theorem writesMember (hk : k.all isPlain = true) (h : Writes v s) : WritesMember (k, v) (k, s) :=
  ⟨rfl, List.all_eq_true.mp hk, h⟩

theorem Writes.parse (h : Writes v s) : parse s = some v := by
  rcases h [] rfl with ⟨u, hu, hskip⟩
  rw [List.append_nil] at hu
  exact parse_eq_some_iff.mpr ⟨u, hu, hskip⟩

theorem writes_of_parse (h : Json.parse s = some v) : Writes v s := by
  rcases parse_eq_some_iff.mp h with ⟨u, hu, hskip⟩
  intro r hr
  refine ⟨u ++ r, hu.append ?_, skip_append_of_nil hskip⟩
  intro _ _
  cases u with
  | nil => exact hr
  | cons c u =>
    -- what is left is space
    cases hc : isSpace c with
    | true =>
      cases hnumber : isNumberChar c with
      | true =>
        rw [not_isSpace_of_isNumberChar hnumber] at hc
        cases hc
      | false =>
        rw [List.cons_append, stops, hnumber]
        rfl
    | false =>
      rw [skip_cons_of_not_isSpace hc] at hskip
      cases hskip

theorem writes_literal {us : List CodeUnit} (h : Literal s us) : Writes (.str (decode us)) (quoted s) := by
  intro r _
  rw [quoted_append]
  exact ⟨r, .str rfl (string_eq_some_iff.mpr ⟨s, us, rfl, h, rfl⟩), rfl⟩

theorem writes_quoted (h : Plain s) : Writes (.str s) (quoted s) := by
  have hliteral := writes_literal (literal_of_plain h)
  rwa [decode_map_byte] at hliteral

theorem writes_number (h : isNumber s = true) (hs : ∀ c ∈ s, isNumberChar c = true) :
    Writes (.num s) s := by
  intro r hr
  refine ⟨r, .num (number_eq_some_iff.mpr ⟨?_, h, hs, hr⟩), rfl⟩
  cases s with
  | nil => cases h
  | cons c s =>
    exact skip_cons_of_not_isSpace (not_isSpace_of_isNumberChar (hs c List.mem_cons_self)) _

theorem reads_membersText (h : List.Forall₂ WritesMember ms ts) (r : List Char) :
    Reads (.members ms) (membersText ts ++ r) r := by
  induction h with
  | nil => exact .closeObj rfl
  | @cons m t ms ts hm hms ih =>
    rcases m with ⟨k, v⟩
    rcases t with ⟨k', s⟩
    rcases hm with ⟨rfl, hplain, hvalue⟩
    rcases hvalue (membersText ts ++ r) (stops_membersText ts r) with ⟨u, hu, hskip⟩
    have hkey := key_of_plain hplain (s ++ (membersText ts ++ r))
    refine .member (t := '"' :: (k ++ '"' :: ':' :: (s ++ (membersText ts ++ r)))) ?_ hkey hu
      (ih.of_skip_eq hskip)
    rw [membersText, List.cons_append, List.append_assoc, memberText_append]
    rfl

theorem writes_objectText (h : List.Forall₂ WritesMember ms ts) : Writes (.obj ms) (objectText ts) := by
  intro r _
  refine ⟨r, ?_, rfl⟩
  cases h with
  | nil => exact .emptyObj rfl rfl
  | @cons m t ms ts hm hms =>
    rcases m with ⟨k, v⟩
    rcases t with ⟨k', s⟩
    rcases hm with ⟨rfl, hplain, hvalue⟩
    rcases hvalue (membersText ts ++ r) (stops_membersText ts r) with ⟨u, hu, hskip⟩
    have hkey := key_of_plain hplain (s ++ (membersText ts ++ r))
    refine .obj (t := '"' :: (k ++ '"' :: ':' :: (s ++ (membersText ts ++ r)))) ?_ hkey hu
      ((reads_membersText hms r).of_skip_eq hskip)
    rw [objectText, List.cons_append, List.append_assoc, memberText_append]
    rfl

theorem reads_itemsText {vs : List Tree} {ts : List (List Char)} (h : List.Forall₂ Writes vs ts)
    (r : List Char) :
    Reads (.items vs) (itemsText ts ++ r) r := by
  induction h with
  | nil => exact .closeArr rfl
  | @cons v s vs ts hv hvs ih =>
    rcases hv (itemsText ts ++ r) (stops_itemsText ts r) with ⟨u, hu, hskip⟩
    refine .item (t := s ++ (itemsText ts ++ r)) ?_ hu (ih.of_skip_eq hskip)
    rw [itemsText, List.cons_append, List.append_assoc]
    rfl

theorem writes_arrayText {vs : List Tree} {ts : List (List Char)} (h : List.Forall₂ Writes vs ts) :
    Writes (.arr vs) (arrayText ts) := by
  intro r _
  refine ⟨r, ?_, rfl⟩
  cases h with
  | nil => exact .emptyArr rfl rfl
  | @cons v s vs ts hv hvs =>
    rcases hv (itemsText ts ++ r) (stops_itemsText ts r) with ⟨u, hu, hskip⟩
    refine .arr (t := s ++ (itemsText ts ++ r)) ?_ hu ((reads_itemsText hvs r).of_skip_eq hskip)
    rw [arrayText, List.cons_append, List.append_assoc]
    rfl

end writes

section reading

variable {v j : Tree} {s r u k x : List Char} {ms : List (List Char × Tree)}
  {ts : List (List Char × List Char)}

theorem Writes.of_reads (h : Writes v s) (hr : stops r = true) (hj : Reads (.value j) (s ++ r) u) :
    j = v ∧ skip u = skip r := by
  rcases h r hr with ⟨w, hw, hskip⟩
  rcases hj.unique hw with ⟨rfl, rfl⟩
  exact ⟨rfl, hskip⟩

theorem Reads.of_quoted (h : Reads (.value j) (quoted x ++ r) u) :
    ∃ y, j = .str y ∧ string (x ++ '"' :: r) = some (y, u) := by
  rw [quoted_append] at h
  exact h.of_quote rfl

theorem Reads.of_objectText (h : Reads (.value j) (objectText ((k, s) :: ts) ++ r) u) (hk : Plain k) :
    ∃ v w ms, j = .obj ((k, v) :: ms) ∧ Reads (.value v) (s ++ (membersText ts ++ r)) w
      ∧ Reads (.members ms) w u := by
  have hkey := key_of_plain hk (s ++ (membersText ts ++ r))
  rw [objectText, List.cons_append, List.append_assoc, memberText_append] at h
  rcases h.of_brace rfl with ⟨_, hclosing⟩ | ⟨_, _, w, v, ms, rfl, hkey', hv, hms⟩
  . cases hclosing
  . cases hkey.symm.trans hkey'
    exact ⟨v, w, ms, rfl, hv, hms⟩

theorem Reads.of_membersText (h : Reads (.members ms) (membersText ((k, s) :: ts) ++ r) u)
    (hk : Plain k) :
    ∃ v w ns, ms = (k, v) :: ns ∧ Reads (.value v) (s ++ (membersText ts ++ r)) w
      ∧ Reads (.members ns) w u := by
  have hkey := key_of_plain hk (s ++ (membersText ts ++ r))
  rw [membersText, List.cons_append, List.append_assoc, memberText_append] at h
  rcases h.of_comma rfl with ⟨_, _, w, v, ns, rfl, hkey', hv, hns⟩
  cases hkey.symm.trans hkey'
  exact ⟨v, w, ns, rfl, hv, hns⟩

theorem Reads.of_arrayText {ss : List (List Char)} (h : Reads (.value j) (arrayText (s :: ss) ++ r) u)
    (hs : skip (s ++ (itemsText ss ++ r)) ≠ ']' :: u) :
    ∃ w v vs, j = .arr (v :: vs) ∧ Reads (.value v) (s ++ (itemsText ss ++ r)) w
      ∧ Reads (.items vs) w u := by
  rw [arrayText, List.cons_append, List.append_assoc] at h
  rcases h.of_bracket rfl with ⟨_, hclosing⟩ | hcons
  . exact absurd hclosing hs
  . exact hcons

-- A member whose value was written for `v` is read, and the rest is left.
theorem Reads.of_member (h : Reads (.members ms) (membersText ((k, s) :: ts) ++ r) u) (hk : Plain k)
    (hs : Writes v s) :
    ∃ ns, ms = (k, v) :: ns ∧ Reads (.members ns) (membersText ts ++ r) u := by
  rcases h.of_membersText hk with ⟨j, w, ns, rfl, hj, hns⟩
  rcases hs.of_reads (stops_membersText ts r) hj with ⟨rfl, hskip⟩
  exact ⟨ns, rfl, hns.of_skip_eq hskip.symm⟩

theorem plainUntilQuote_membersText (ts : List (List Char × List Char)) (r : List Char) :
    PlainUntilQuote (membersText ((k, s) :: ts) ++ r) := by
  rw [membersText, List.cons_append, List.append_assoc, memberText_append]
  exact plainUntilQuote_of_plain (x := [',']) (List.all_eq_true.mp rfl) _

end reading

end Json
