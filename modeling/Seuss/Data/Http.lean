import Mathlib.Data.List.Forall2
import Mathlib.Data.List.TakeWhile

/-!
This module contains HTTP/1 requests as one reads them: a request line and header fields, each of them
ended by CR LF, an empty line and the body.
-/

structure HttpRequest where
  method : List Char
  target : List Char
  version : List Char
  fields : List (List Char × List Char)
  body : List Char

namespace HttpRequest

def isTokenChar (c : Char) : Bool :=
  0x21 ≤ c.toNat && c.toNat ≤ 0x7e && !"()<>@,;:\\\"/[]?=\x7b\x7d".toList.contains c

def isToken (s : List Char) : Bool :=
  s ≠ [] && s.all isTokenChar

def isBlank (c : Char) : Bool :=
  c == ' ' || c == '\t'

-- what comes before the first CR LF and what comes after it
def splitLine (s : List Char) : Option (List Char × List Char) :=
  match s with
  | '\r' :: '\n' :: s => some ([], s)
  | c :: s => (splitLine s).map fun p => (c :: p.1, p.2)
  | [] => none

def trim (s : List Char) : List Char :=
  ((s.dropWhile isBlank).reverse.dropWhile isBlank).reverse

def parseField (line : List Char) : Option (List Char × List Char) :=
  let name := line.takeWhile isTokenChar
  match line.dropWhile isTokenChar with
  | ':' :: value => if name = [] then none else some (name, trim value)
  | _ => none

-- the fields up to the empty line, and the body
def parseFields (fuel : Nat) (s : List Char) : Option (List (List Char × List Char) × List Char) :=
  match fuel with
  | 0 => none
  | fuel + 1 =>
    match splitLine s with
    | none => none
    | some ([], body) => some ([], body)
    | some (line, s) =>
      (parseField line).bind fun field =>
        (parseFields fuel s).map fun p => (field :: p.1, p.2)

def parseRequestLine (line : List Char) : Option (List Char × List Char × List Char) :=
  let (method, line) := line.span (· ≠ ' ')
  let (target, line) := (line.drop 1).span (· ≠ ' ')
  let version := line.drop 1
  if isToken method ∧ target ≠ [] ∧ version ∈ ["HTTP/1.0".toList, "HTTP/1.1".toList] then
    some (method, target, version)
  else
    none

def parse (s : List Char) : Option HttpRequest :=
  (splitLine s).bind fun (line, s) =>
    (parseRequestLine line).bind fun (method, target, version) =>
      (parseFields (s.length + 1) s).map fun (fields, body) =>
        { method, target, version, fields, body }

def field? (req : HttpRequest) (name : List Char) : Option (List Char) :=
  (req.fields.find? fun field => field.1.map Char.toLower = name.map Char.toLower).map (·.2)

def contentLength? (req : HttpRequest) : Option Nat :=
  (req.field? "Content-Length".toList).bind fun value =>
    if value ≠ [] ∧ value.all Char.isDigit then some (Nat.ofDigitChars 10 value 0) else none

theorem splitLine_append {line : List Char} (h : '\r' ∉ line) (s : List Char) :
    splitLine (line ++ '\r' :: '\n' :: s) = some (line, s) := by
  induction line with
  | nil => rfl
  | cons c line ih =>
    rw [List.mem_cons, not_or] at h
    rw [List.cons_append, splitLine]
    . rw [ih h.2]
      rfl
    . rintro t rfl
      exact absurd rfl h.1

theorem trim_of_not_blank {value : List Char} (h : ∀ c ∈ value, isBlank c = false) :
    trim (' ' :: value) = value := by
  have hdrop : value.dropWhile isBlank = value := by
    rw [List.dropWhile_eq_self_iff]
    intro hpos
    rw [Bool.not_eq_true]
    exact h _ (List.getElem_mem hpos)
  have hreverse : value.reverse.dropWhile isBlank = value.reverse := by
    rw [List.dropWhile_eq_self_iff]
    intro hpos
    rw [Bool.not_eq_true]
    exact h _ (List.mem_reverse.mp (List.getElem_mem hpos))
  rw [trim, List.dropWhile_cons_of_pos rfl, hdrop, hreverse, List.reverse_reverse]

theorem parseField_append {name value : List Char} (hname : isToken name = true)
    (h : ∀ c ∈ value, isBlank c = false) :
    parseField (name ++ ':' :: ' ' :: value) = some (name, value) := by
  simp only [isToken, Bool.and_eq_true, decide_eq_true_eq, List.all_eq_true] at hname
  have hcolon : isTokenChar ':' = false := by
    decide
  simp [parseField, List.takeWhile_append_of_pos hname.2, List.dropWhile_append_of_pos hname.2,
    hcolon, hname.1, trim_of_not_blank h]

/--
Lines that are fields are read as these fields, up to the empty line.
-/
theorem parseFields_lines {lines : List (List Char)} {fields : List (List Char × List Char)}
    (h : List.Forall₂ (fun line field => parseField line = some field ∧ '\r' ∉ line) lines fields)
    (body : List Char) {fuel : Nat} (hfuel : lines.length < fuel) :
    parseFields fuel ((lines.map (· ++ ['\r', '\n'])).flatten ++ '\r' :: '\n' :: body)
      =
    some (fields, body) := by
  induction h generalizing fuel with
  | nil =>
    cases fuel with
    | zero => omega
    | succ fuel => rfl
  | @cons line field lines fields hline hlines ih =>
    cases fuel with
    | zero => omega
    | succ fuel =>
      rw [List.length_cons] at hfuel
      have hrest := @ih fuel (by omega)
      cases line with
      | nil => cases hline.1
      | cons c line =>
        have hsplit := splitLine_append hline.2
          ((lines.map (· ++ ['\r', '\n'])).flatten ++ '\r' :: '\n' :: body)
        rw [List.cons_append] at hsplit
        simp [parseFields, hsplit, hline.1, hrest]

theorem length_le_length_flatten (lines : List (List Char)) :
    lines.length ≤ (lines.map (· ++ ['\r', '\n'])).flatten.length := by
  induction lines with
  | nil => simp
  | cons line lines ih =>
    simp only [List.map_cons, List.flatten_cons, List.length_append, List.length_cons,
      List.length_nil]
    omega

theorem parse_lines {line method target version : List Char}
    (hline : parseRequestLine line = some (method, target, version)) (hreturn : '\r' ∉ line)
    {lines : List (List Char)} {fields : List (List Char × List Char)}
    (h : List.Forall₂ (fun line field => parseField line = some field ∧ '\r' ∉ line) lines fields)
    (body : List Char) :
    parse (line ++ '\r' :: '\n' ::
        ((lines.map (· ++ ['\r', '\n'])).flatten ++ '\r' :: '\n' :: body))
      =
    some { method, target, version, fields, body } := by
  have hlength := length_le_length_flatten lines
  rw [parse, splitLine_append hreturn]
  simp only [Option.bind_some, hline]
  rw [parseFields_lines h body]
  . rfl
  . rw [List.length_append]
    omega

end HttpRequest
