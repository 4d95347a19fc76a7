import Seuss.Json.Grammar

/-!
This module contains the parser of JSON texts. It accepts what the grammar derives, with the same
value.
-/

namespace Json

mutual

def parseValue (fuel : Nat) (s : List Char) : Option (Tree × List Char) :=
  match fuel with
  | 0 => none
  | fuel + 1 =>
    match skip s with
    | 'n' :: 'u' :: 'l' :: 'l' :: r => some (.null, r)
    | 't' :: 'r' :: 'u' :: 'e' :: r => some (.bool true, r)
    | 'f' :: 'a' :: 'l' :: 's' :: 'e' :: r => some (.bool false, r)
    | '"' :: t => (string t).map fun p => (.str p.1, p.2)
    | '[' :: t =>
      match skip t with
      | ']' :: r => some (.arr [], r)
      | _ =>
        (parseValue fuel t).bind fun p =>
          (parseItems fuel p.2).map fun q => (.arr (p.1 :: q.1), q.2)
    | '{' :: t =>
      match skip t with
      | '}' :: r => some (.obj [], r)
      | _ =>
        (key t).bind fun k =>
          (parseValue fuel k.2).bind fun p =>
            (parseMembers fuel p.2).map fun q => (.obj ((k.1, p.1) :: q.1), q.2)
    | s => (number s).map fun p => (.num p.1, p.2)

def parseItems (fuel : Nat) (s : List Char) : Option (List Tree × List Char) :=
  match fuel with
  | 0 => none
  | fuel + 1 =>
    match skip s with
    | ']' :: r => some ([], r)
    | ',' :: t =>
      (parseValue fuel t).bind fun p =>
        (parseItems fuel p.2).map fun q => (p.1 :: q.1, q.2)
    | _ => none

def parseMembers (fuel : Nat) (s : List Char) :
    Option (List (List Char × Tree) × List Char) :=
  match fuel with
  | 0 => none
  | fuel + 1 =>
    match skip s with
    | '}' :: r => some ([], r)
    | ',' :: t =>
      (key t).bind fun k =>
        (parseValue fuel k.2).bind fun p =>
          (parseMembers fuel p.2).map fun q => ((k.1, p.1) :: q.1, q.2)
    | _ => none

end

def parse (s : List Char) : Option Tree :=
  match parseValue (s.length + 1) s with
  | some (v, r) => if skip r = [] then some v else none
  | none => none

-- What the parser does on `fuel` for a part.
def Part.Parsed (p : Part) (fuel : Nat) (s r : List Char) : Prop :=
  match p with
  | .value v => parseValue fuel s = some (v, r)
  | .items vs => parseItems fuel s = some (vs, r)
  | .members ms => parseMembers fuel s = some (ms, r)

theorem Reads.not_closing {s t u : List Char} {v : Tree} (h : Reads (.value v) s u) :
    skip s ≠ ']' :: t := by
  intro hs
  cases h with
  | num h =>
    rw [hs, number_of_not_isNumberChar rfl] at h
    cases h
  | null h | true h | false h | str h | emptyArr h | arr h | emptyObj h | obj h =>
    cases hs.symm.trans h

theorem parseValue_of_number {s x r : List Char} (h : number (skip s) = some (x, r)) (fuel : Nat) :
    parseValue (fuel + 1) s = some (.num x, r) := by
  simp only [parseValue]
  split
  case h_7 => simp [h]
  all_goals
    next hs =>
      rw [hs, number_of_not_isNumberChar rfl] at h
      cases h

/--
The parser reads what the grammar derives, when it has more fuel than there is text.
-/
theorem Reads.parsed {p : Part} {s r : List Char} (h : Reads p s r) {fuel : Nat}
    (hfuel : s.length ≤ fuel) :
    p.Parsed (fuel + 1) s r := by
  induction h generalizing fuel with
  | null h | true h | false h => simp [Part.Parsed, parseValue, h]
  | closeArr h => simp [Part.Parsed, parseItems, h]
  | closeObj h => simp [Part.Parsed, parseMembers, h]
  | num h => exact parseValue_of_number h fuel
  | str h hx => simp [Part.Parsed, parseValue, h, hx]
  | emptyArr h hr | emptyObj h hr => simp [Part.Parsed, parseValue, h, hr]
  | arr h hv hvs ihv ihvs =>
    have hs := length_of_skip h
    have hle := hv.weight_le
    rcases Nat.exists_eq_add_one_of_ne_zero (n := fuel) (by omega) with ⟨fuel, rfl⟩
    have hvalue := @ihv fuel (by omega)
    have hitems := @ihvs fuel (by omega)
    simp only [Part.Parsed] at hvalue hitems
    rw [Part.Parsed, parseValue]
    simp only [h]
    split
    . next hclosing => exact absurd hclosing hv.not_closing
    . simp [hvalue, hitems]
  | item h hv hvs ihv ihvs =>
    have hs := length_of_skip h
    have hle := hv.weight_le
    rcases Nat.exists_eq_add_one_of_ne_zero (n := fuel) (by omega) with ⟨fuel, rfl⟩
    have hvalue := @ihv fuel (by omega)
    have hitems := @ihvs fuel (by omega)
    simp only [Part.Parsed] at hvalue hitems
    rw [Part.Parsed, parseItems]
    simp [h, hvalue, hitems]
  | obj h hk hv hms ihv ihms =>
    have hs := length_of_skip h
    have hkey := length_key hk
    have hle := hv.weight_le
    rcases Nat.exists_eq_add_one_of_ne_zero (n := fuel) (by omega) with ⟨fuel, rfl⟩
    have hvalue := @ihv fuel (by omega)
    have hmembers := @ihms fuel (by omega)
    rcases key_eq_some_iff.mp hk with ⟨_, _, hquote, _⟩
    simp only [Part.Parsed] at hvalue hmembers
    rw [Part.Parsed, parseValue]
    simp [h, hquote, hk, hvalue, hmembers]
  | member h hk hv hms ihv ihms =>
    have hs := length_of_skip h
    have hkey := length_key hk
    have hle := hv.weight_le
    rcases Nat.exists_eq_add_one_of_ne_zero (n := fuel) (by omega) with ⟨fuel, rfl⟩
    have hvalue := @ihv fuel (by omega)
    have hmembers := @ihms fuel (by omega)
    simp only [Part.Parsed] at hvalue hmembers
    rw [Part.Parsed, parseMembers]
    simp [h, hk, hvalue, hmembers]

section sound

variable {fuel : Nat} {s r : List Char}
  (ih : ∀ {p : Part} {s r : List Char}, p.Parsed fuel s r → Reads p s r)
include ih

theorem reads_of_parseValue {v : Tree} (h : parseValue (fuel + 1) s = some (v, r)) :
    Reads (.value v) s r := by
  simp only [parseValue] at h
  split at h
  . next hs =>
    cases h
    exact .null hs
  . next hs =>
    cases h
    exact .true hs
  . next hs =>
    cases h
    exact .false hs
  . next hs =>
    rw [Option.map_eq_some_iff] at h
    rcases h with ⟨_, hx, heq⟩
    cases heq
    exact .str hs hx
  . next hs =>
    split at h
    . next hr =>
      cases h
      exact .emptyArr hs hr
    . simp only [Option.bind_eq_some_iff, Option.map_eq_some_iff] at h
      rcases h with ⟨_, hv, _, hvs, heq⟩
      cases heq
      exact .arr hs (ih (p := .value _) hv) (ih (p := .items _) hvs)
  . next hs =>
    split at h
    . next hr =>
      cases h
      exact .emptyObj hs hr
    . simp only [Option.bind_eq_some_iff, Option.map_eq_some_iff] at h
      rcases h with ⟨_, hk, _, hv, _, hms, heq⟩
      cases heq
      exact .obj hs hk (ih (p := .value _) hv) (ih (p := .members _) hms)
  . rw [Option.map_eq_some_iff] at h
    rcases h with ⟨_, hx, heq⟩
    cases heq
    exact .num hx

theorem reads_of_parseItems {vs : List Tree} (h : parseItems (fuel + 1) s = some (vs, r)) :
    Reads (.items vs) s r := by
  simp only [parseItems] at h
  split at h
  . next hs =>
    cases h
    exact .closeArr hs
  . next hs =>
    simp only [Option.bind_eq_some_iff, Option.map_eq_some_iff] at h
    rcases h with ⟨_, hv, _, hvs, heq⟩
    cases heq
    exact .item hs (ih (p := .value _) hv) (ih (p := .items _) hvs)
  . cases h

theorem reads_of_parseMembers {ms : List (List Char × Tree)}
    (h : parseMembers (fuel + 1) s = some (ms, r)) :
    Reads (.members ms) s r := by
  simp only [parseMembers] at h
  split at h
  . next hs =>
    cases h
    exact .closeObj hs
  . next hs =>
    simp only [Option.bind_eq_some_iff, Option.map_eq_some_iff] at h
    rcases h with ⟨_, hk, _, hv, _, hms, heq⟩
    cases heq
    exact .member hs hk (ih (p := .value _) hv) (ih (p := .members _) hms)
  . cases h

end sound

/--
The parser accepts only what the grammar derives.
-/
theorem reads_of_parsed {p : Part} {s r : List Char} {fuel : Nat} (h : p.Parsed fuel s r) :
    Reads p s r := by
  induction fuel generalizing p s r with
  | zero => cases p <;> cases h
  | succ fuel ih =>
    cases p with
    | value v => exact reads_of_parseValue ih h
    | items vs => exact reads_of_parseItems ih h
    | members ms => exact reads_of_parseMembers ih h

theorem parse_eq_some_iff {s : List Char} {v : Tree} :
    parse s = some v ↔ ∃ r, Reads (.value v) s r ∧ skip r = [] := by
  unfold parse
  constructor
  . intro h
    split at h
    . next w r hr =>
      split at h
      . next hend =>
        cases h
        exact ⟨r, reads_of_parsed (p := .value v) hr, hend⟩
      . cases h
    . cases h
  . rintro ⟨r, hr, hend⟩
    have hparsed : parseValue (s.length + 1) s = some (v, r) := hr.parsed (Nat.le_refl _)
    simp [hparsed, hend]

theorem not_mem_of_parse {s : List Char} {v : Tree} (h : parse s = some v) {c : Char}
    (hc : isControl c = Bool.true) :
    c ∉ s := by
  intro hmem
  rcases parse_eq_some_iff.mp h with ⟨r, hr, hend⟩
  have hskip := mem_skip hc (hr.mem_of_mem hc hmem)
  rw [hend] at hskip
  cases hskip

end Json
