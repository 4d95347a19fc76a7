import Seuss.OpenWhisk.ContentLoop

/-!
This module contains what the `content_` of an activation says, compared with the object that Kafka
delivered.
-/

namespace Seuss
namespace Msg

section text

variable (yajl : Yajl)

-- the members as they are written from the `i`-th one on
def contentMembers (i : Nat) (members : List (CString × Json.Tree)) : CString :=
  match members with
  | [] => []
  | m :: members =>
    (if i > 0 then ",".toList else []) ++ contentMember yajl m ++ contentMembers (i + 1) members

theorem iterate_contentBody (members : List (CString × Json.Tree)) (i : Nat) (ss : CString) :
    CountedLoop.iterate members.length (contentBody yajl members) i ss
      =
    ss ++ contentMembers yajl i (members.drop i) := by
  induction hn : members.length - i generalizing i ss with
  | zero =>
    rw [CountedLoop.iterate_of_le _ _ (by omega), List.drop_of_length_le (by omega), contentMembers,
      List.append_nil]
  | succ n ih =>
    have hlt : i < members.length := by
      omega
    rw [CountedLoop.iterate_of_lt _ _ hlt, ih (i + 1) _ (by omega), List.drop_eq_getElem_cons hlt]
    simp only [contentBody, List.getElem?_eq_getElem hlt, contentMembers]
    split <;> simp

/--
The loop takes one step for every member that is left and writes it, as long as its counter can number
all of them.
-/
theorem contentLoop_eq {members : List (CString × Json.Tree)} (h : members.length < 65536) {i : Nat}
    (hi : i ≤ members.length) (fuel : Nat) (ss : CString) :
    contentLoop yajl members fuel (.ofNat i) ss
      =
    if members.length - i < fuel then
      .ok (ss ++ contentMembers yajl i (members.drop i))
    else
      .error .outOfFuel := by
  have hcounter : (UInt16.ofNat i).toBitVec = BitVec.ofNat 16 i := rfl
  rw [contentLoop_eq_run, hcounter, CountedLoop.run_eq _ h hi, iterate_contentBody]
  split <;> rfl

def contentTail (members : List (CString × Json.Tree)) : CString :=
  match members with
  | [] => ['}']
  | m :: members => ',' :: (contentMember yajl m ++ contentTail members)

def contentText (members : List (CString × Json.Tree)) : CString :=
  match members with
  | [] => ['{', '}']
  | m :: members => '{' :: (contentMember yajl m ++ contentTail yajl members)

theorem contentMembers_tail (i : Nat) (members : List (CString × Json.Tree)) :
    contentMembers yajl (i + 1) members ++ ['}'] = contentTail yajl members := by
  induction members generalizing i with
  | nil => rfl
  | cons m members ih =>
    rw [contentTail, ← ih (i + 1)]
    simp [contentMembers]

theorem contentMembers_text (members : List (CString × Json.Tree)) :
    ['{'] ++ contentMembers yajl 0 members ++ ['}'] = contentText yajl members := by
  cases members with
  | nil => rfl
  | cons m members =>
    rw [contentText, ← contentMembers_tail yajl 0]
    simp [contentMembers]

theorem getContent_iff {node : Json.Tree} {members : List (CString × Json.Tree)}
    (h : yajl.treeGet node ["content".toList] .object = some (.obj members)) {c : CString} :
    (∃ fuel, getContent yajl fuel node = .ok c)
      ↔
    members.length < 65536 ∧ c = contentText yajl members := by
  simp only [getContent, h]
  by_cases hlength : members.length < 65536
  . have hloop : ∀ fuel, contentLoop yajl members fuel 0 "\x7b".toList
        = if members.length < fuel then
            .ok ("\x7b".toList ++ contentMembers yajl 0 members)
          else
            .error .outOfFuel := by
      intro fuel
      exact contentLoop_eq yajl hlength (Nat.zero_le _) fuel _
    have htext := contentMembers_text yajl members
    constructor
    . rintro ⟨fuel, hc⟩
      rw [hloop] at hc
      split at hc
      . cases hc
        exact ⟨hlength, htext⟩
      . cases hc
    . rintro ⟨_, rfl⟩
      refine ⟨members.length + 1, ?_⟩
      rw [hloop, if_pos (by omega)]
      exact congrArg Except.ok htext
  . constructor
    . rintro ⟨fuel, hc⟩
      rw [contentLoop_of_le yajl (by omega)] at hc
      cases hc
    . rintro ⟨hlt, _⟩
      exact absurd hlt hlength

theorem getContent_of_none {node : Json.Tree}
    (h : yajl.treeGet node ["content".toList] .object = none) (fuel : Nat) :
    getContent yajl fuel node = .ok ['{', '}'] := by
  rw [getContent, h]
  rfl

end text

section number

theorem numberChar_ofInt {n : Int} {c : Char} (h : c ∈ CString.ofInt n) :
    Json.isNumberChar c = true := by
  cases n with
  | ofNat n =>
    exact Json.isNumberChar_of_isDigit (Nat.isDigit_of_mem_toDigits (by decide) (by decide) h)
  | negSucc n =>
    rw [CString.ofInt, List.mem_cons] at h
    rcases h with rfl | h
    . rfl
    . exact Json.isNumberChar_of_isDigit (Nat.isDigit_of_mem_toDigits (by decide) (by decide) h)

theorem isNumber_ofInt (n : Int) : Json.isNumber (CString.ofInt n) = true := by
  cases n with
  | ofNat n => exact Json.isNumber_toDigits n
  | negSucc n => exact Json.isNumber_minus_toDigits (n + 1)

theorem numberValue_ofInt (n : Int) : Json.numberValue (CString.ofInt n) = n := by
  cases n with
  | ofNat n =>
    rw [CString.ofInt, CString.ofNat, Json.numberValue_toDigits]
    rfl
  | negSucc n =>
    rw [CString.ofInt, CString.ofNat, Json.numberValue_minus_toDigits, Int.cast_negSucc]

theorem number_ofInt (n : Int) {r : CString} (hr : Json.stops r = true) :
    Json.number (Json.skip (CString.ofInt n ++ r)) = some (CString.ofInt n, r) := by
  have hskip : Json.skip (CString.ofInt n ++ r) = CString.ofInt n ++ r := by
    have hchars : ∀ c ∈ CString.ofInt n, Json.isNumberChar c = true := fun _ => numberChar_ofInt
    have hnumber := isNumber_ofInt n
    revert hchars hnumber
    generalize CString.ofInt n = x
    intro hchars hnumber
    cases x with
    | nil => cases hnumber
    | cons c x =>
      have hc := Json.not_isSpace_of_isNumberChar (hchars c List.mem_cons_self)
      exact Json.skip_cons_of_not_isSpace hc _
  rw [hskip, Json.number_eq_some_iff]
  exact ⟨rfl, isNumber_ofInt n, fun _ => numberChar_ofInt, hr⟩

end number

section kept

variable {yajl : Yajl} {k : CString} {v : Json.Tree} {members : List (CString × Json.Tree)}

def Exact (yajl : Yajl) (v : Json.Tree) : Prop :=
  match v with
  | .str s => ∀ c ∈ s, Json.isPlain c = true
  | .num x => Json.numberValue x = (yajl.getInteger (.num x)).toInt
  | _ => False

def Kept (yajl : Yajl) (m : CString × Json.Tree) : Prop :=
  (∀ c ∈ m.1, Json.isPlain c = true) ∧ Exact yajl m.2

theorem cstr_of_plain {s : CString} (h : ∀ c ∈ s, Json.isPlain c = true) :
    CString.cstr s = s := by
  rw [CString.cstr, List.takeWhile_eq_self_iff]
  intro c hc
  rw [decide_eq_true_eq]
  rintro rfl
  cases h _ hc

theorem contentValue_cases (yajl : Yajl) (v : Json.Tree) :
    (∃ s, v = .str s ∧ contentValue yajl v = '"' :: (CString.cstr s ++ ['"']))
      ∨ ((∀ s, v ≠ .str s) ∧ contentValue yajl v = CString.ofInt (yajl.getInteger v).toInt) := by
  cases v with
  | str s => exact .inl ⟨s, rfl, rfl⟩
  | _ => exact .inr ⟨by simp, rfl⟩

theorem contentMember_append (yajl : Yajl) (k : CString) (v : Json.Tree) (r : CString) :
    contentMember yajl (k, v) ++ r
      =
    '"' :: (CString.cstr k ++ '"' :: ':' :: (contentValue yajl v ++ r)) := by
  simp [contentMember]

theorem stops_contentTail (yajl : Yajl) (members : List (CString × Json.Tree)) :
    Json.stops (contentTail yajl members) = true := by
  cases members with
  | nil => rfl
  | cons m members => rfl

theorem plainUntilQuote_contentTail (yajl : Yajl) (members : List (CString × Json.Tree)) :
    Json.PlainUntilQuote (contentTail yajl members) := by
  cases members with
  | nil =>
    rw [contentTail]
    exact Json.plainUntilQuote_of_not_mem (by decide)
  | cons m members =>
    rw [contentTail, contentMember_append]
    exact Json.plainUntilQuote_of_plain (x := [',']) (List.all_eq_true.mp rfl) _

theorem isPlain_of_isNumberChar {c : Char} (h : Json.isNumberChar c = true) :
    Json.isPlain c = true := by
  rw [Json.isPlain_iff]
  refine ⟨?_, ?_, Json.le_of_isNumberChar h⟩
  . rintro rfl
    cases h
  . rintro rfl
    cases h

theorem plainUntilQuote_number (yajl : Yajl) (n : Int) (members : List (CString × Json.Tree)) :
    Json.PlainUntilQuote (':' :: (CString.ofInt n ++ contentTail yajl members)) := by
  cases members with
  | nil =>
    rw [contentTail]
    apply Json.plainUntilQuote_of_not_mem
    intro hmem
    rw [List.mem_cons, List.mem_append] at hmem
    rcases hmem with hmem | hmem | hmem
    . cases hmem
    . cases numberChar_ofInt hmem
    . exact absurd hmem (by decide)
  | cons m members =>
    have hplain : ∀ c ∈ ':' :: (CString.ofInt n ++ [',']), Json.isPlain c = true := by
      intro c hc
      rw [List.mem_cons, List.mem_append, List.mem_singleton] at hc
      rcases hc with rfl | hc | rfl
      . rfl
      . exact isPlain_of_isNumberChar (numberChar_ofInt hc)
      . rfl
    have htext := Json.plainUntilQuote_of_plain hplain
      (CString.cstr m.1 ++ '"' :: ':' :: (contentValue yajl m.2 ++ contentTail yajl members))
    rw [contentTail, contentMember_append]
    simpa using htext

theorem plainUntilQuote_contentValue (yajl : Yajl) (v : Json.Tree)
    (members : List (CString × Json.Tree)) :
    Json.PlainUntilQuote (':' :: (contentValue yajl v ++ contentTail yajl members)) := by
  rcases contentValue_cases yajl v with ⟨s, rfl, hvalue⟩ | ⟨_, hvalue⟩
  . rw [hvalue]
    exact Json.plainUntilQuote_of_plain (x := [':']) (List.all_eq_true.mp rfl) _
  . rw [hvalue]
    exact plainUntilQuote_number yajl _ members

theorem plain_of_key {u : CString}
    (h : Json.key (contentMember yajl (k, v) ++ contentTail yajl members) = some (k, u)) :
    (∀ c ∈ k, Json.isPlain c = true) ∧ u = contentValue yajl v ++ contentTail yajl members := by
  rw [contentMember_append, Json.key_eq_some_iff] at h
  rcases h with ⟨t, w, ht, hk, hu⟩
  cases ht
  rcases Json.plain_of_string_eq (CString.cstr_isPrefix k) hk (plainUntilQuote_contentValue yajl v _)
    with ⟨_, hplain, rfl⟩
  cases hu
  exact ⟨hplain, rfl⟩

/--
A value is read as one that is equal to it only if it is a string without escapes or a number that
`YAJL_GET_INTEGER` reads exactly.
-/
theorem exact_of_reads {w : Json.Tree} {r : CString}
    (h : Json.Reads (.value w) (contentValue yajl v ++ contentTail yajl members) r)
    (hmap : w.map Json.numberValue = v.map Json.numberValue) :
    Exact yajl v ∧ r = contentTail yajl members := by
  rcases contentValue_cases yajl v with ⟨s, rfl, hvalue⟩ | ⟨hne, hvalue⟩
  . rw [hvalue, List.cons_append, List.append_assoc] at h
    rcases h.of_quote rfl with ⟨x, rfl, hx⟩
    cases hmap
    rcases Json.plain_of_string_eq (CString.cstr_isPrefix s) hx (plainUntilQuote_contentTail yajl _)
      with ⟨_, hplain, rfl⟩
    exact ⟨hplain, rfl⟩
  . rw [hvalue] at h
    rcases h.of_number (number_ofInt _ (stops_contentTail yajl members)) with ⟨rfl, rfl⟩
    refine ⟨?_, rfl⟩
    cases v with
    | num x =>
      simp only [Json.map, Json.num.injEq, numberValue_ofInt] at hmap
      exact hmap.symm
    | str s => exact absurd rfl (hne s)
    | _ => cases hmap

theorem kept_of_reads {ms : List (CString × Json.Tree)} {s r : CString}
    (h : Json.Reads (.members ms) s r) (hs : s = contentTail yajl members)
    (hmap : Json.mapMembers Json.numberValue ms = Json.mapMembers Json.numberValue members) :
    ∀ m ∈ members, Kept yajl m := by
  induction members generalizing ms s with
  | nil => simp
  | cons m members ih =>
    rcases m with ⟨k, v⟩
    rw [hs] at h
    rcases h.of_comma rfl with ⟨k', u, w, v', ns, rfl, hk, hv, hns⟩
    rw [Json.mapMembers, Json.mapMembers, List.cons.injEq, Prod.mk.injEq] at hmap
    rcases hmap with ⟨⟨rfl, hmapv⟩, hmapns⟩
    rcases plain_of_key hk with ⟨hplain, rfl⟩
    rcases exact_of_reads hv hmapv with ⟨hexact, rfl⟩
    rw [List.forall_mem_cons]
    exact ⟨⟨hplain, hexact⟩, ih hns rfl hmapns⟩

theorem key_of_plain {r : CString} (hk : ∀ c ∈ k, Json.isPlain c = true) :
    Json.key (contentMember yajl (k, v) ++ r) = some (k, contentValue yajl v ++ r) := by
  rw [contentMember_append, cstr_of_plain hk]
  exact Json.key_of_plain hk _

theorem reads_of_exact (members : List (CString × Json.Tree)) (h : Exact yajl v) :
    ∃ w, Json.Reads (.value w) (contentValue yajl v ++ contentTail yajl members)
          (contentTail yajl members)
      ∧ w.map Json.numberValue = v.map Json.numberValue := by
  cases v with
  | str s =>
    have hvalue : contentValue yajl (.str s) ++ contentTail yajl members
        = '"' :: (s ++ '"' :: contentTail yajl members) := by
      simp [contentValue, cstr_of_plain h]
    rw [hvalue]
    exact ⟨.str s, .str rfl (Json.string_of_plain h _), rfl⟩
  | num x =>
    refine ⟨.num _, .num (number_ofInt _ (stops_contentTail yajl members)), ?_⟩
    simp only [Json.map, numberValue_ofInt, Json.num.injEq]
    exact h.symm
  | _ => cases h

theorem reads_of_kept (h : ∀ m ∈ members, Kept yajl m) :
    ∃ ms, Json.Reads (.members ms) (contentTail yajl members) []
      ∧ Json.mapMembers Json.numberValue ms = Json.mapMembers Json.numberValue members := by
  induction members with
  | nil => exact ⟨[], .closeObj rfl, rfl⟩
  | cons m members ih =>
    rcases m with ⟨k, v⟩
    rw [List.forall_mem_cons] at h
    rcases ih h.2 with ⟨ms, hms, hmapms⟩
    rcases reads_of_exact members h.1.2 with ⟨w, hw, hmapw⟩
    refine ⟨(k, w) :: ms, .member rfl (key_of_plain h.1.1) hw hms, ?_⟩
    rw [Json.mapMembers, Json.mapMembers, hmapms, hmapw]

-- The object that a text denotes, with its numbers as numbers.
def denotes (c : CString) (j : Json.Tree) : Prop :=
  (Json.parse c).map (Json.map Json.numberValue) = some (j.map Json.numberValue)

theorem denotes_contentText :
    denotes (contentText yajl members) (.obj members) ↔ ∀ m ∈ members, Kept yajl m := by
  unfold denotes
  rw [Option.map_eq_some_iff]
  constructor
  . rintro ⟨j, hparse, hmap⟩
    rw [Json.parse_eq_some_iff] at hparse
    rcases hparse with ⟨r, hj, _⟩
    cases members with
    | nil => simp
    | cons m members =>
      rcases m with ⟨k, v⟩
      rcases hj.of_brace rfl with ⟨rfl, _⟩ | ⟨k', u, w, v', ns, rfl, hk, hv, hns⟩
      . cases hmap
      . simp only [Json.map, Json.mapMembers, Json.obj.injEq, List.cons.injEq, Prod.mk.injEq] at hmap
        rcases hmap with ⟨⟨rfl, hmapv⟩, hmapns⟩
        rcases plain_of_key hk with ⟨hplain, rfl⟩
        rcases exact_of_reads hv hmapv with ⟨hexact, rfl⟩
        rw [List.forall_mem_cons]
        exact ⟨⟨hplain, hexact⟩, kept_of_reads hns rfl hmapns⟩
  . intro h
    cases members with
    | nil => exact ⟨.obj [], rfl, rfl⟩
    | cons m members =>
      rcases m with ⟨k, v⟩
      rw [List.forall_mem_cons] at h
      rcases reads_of_kept h.2 with ⟨ms, hms, hmapms⟩
      rcases reads_of_exact members h.1.2 with ⟨w, hw, hmapw⟩
      refine ⟨.obj ((k, w) :: ms), ?_, ?_⟩
      . rw [Json.parse_eq_some_iff]
        exact ⟨[], .obj rfl (key_of_plain h.1.1) hw hms, rfl⟩
      . simp only [Json.map, Json.mapMembers, hmapms, hmapw]

end kept

section meaning

variable {yajl : Yajl} {json : CString} {top members : List (CString × Json.Tree)}

/--
`ActivationMessage(json)` gets as far as to set `content_`, and `content_` is a JSON text of the object.
-/
def KeepsMeaning (yajl : Yajl) (json : CString) (members : List (CString × Json.Tree)) : Prop :=
  ∃ node fuel c, yajl.treeParse (CString.cstr json) = some node
    ∧ getContent yajl fuel node = .ok c
    ∧ denotes c (.obj members)

theorem cstr_of_parse {j : Json.Tree} (h : Json.parse json = some j) : CString.cstr json = json := by
  rw [CString.cstr, List.takeWhile_eq_self_iff]
  intro c hc
  rw [decide_eq_true_eq]
  rintro rfl
  exact Json.not_mem_of_parse h rfl hc

-- the member that `yajl_tree_get` takes for `content`
def contentFound (top : List (CString × Json.Tree)) : Option (CString × Json.Tree) :=
  top.find? fun m => CString.cstr m.1 = "content".toList

-- No member before `content` has a name that a NUL cuts to `content`.
def Unshadowed (top : List (CString × Json.Tree)) : Prop :=
  ∀ m, contentFound top = some m → m.1 = "content".toList

def contentOf (yajl : Yajl) (v : Json.Tree) : CString :=
  match v with
  | .obj members => contentText yajl members
  | _ => ['{', '}']

def Numbered (v : Json.Tree) : Prop :=
  ∀ members, v = .obj members → members.length ≤ 65535

theorem contentFound_of_lookup {v : Json.Tree} (h : top.lookup "content".toList = some v) :
    ∃ m, contentFound top = some m ∧ (m.1 = "content".toList → m.2 = v) := by
  induction top with
  | nil => cases h
  | cons m top ih =>
    unfold contentFound at ih ⊢
    rw [List.find?_cons]
    by_cases hname : m.1 = "content".toList
    . have hcstr : CString.cstr m.1 = "content".toList := by
        rw [hname]
        decide
      rw [List.lookup_cons, hname, BEq.rfl] at h
      rw [hcstr]
      exact ⟨m, rfl, fun _ => Option.some.inj h⟩
    . rw [List.lookup_cons, beq_false_of_ne (Ne.symm hname)] at h
      split
      . exact ⟨m, rfl, fun heq => absurd heq hname⟩
      . exact ih h

section finds

variable (hyajl : yajl.Finds) (hparse : Json.parse json = some (.obj top))
include hyajl hparse

-- `content_` is written for the member that is found, whatever its name goes on with.
theorem keepsMeaning_iff_of_found {m : CString × Json.Tree} (hfound : contentFound top = some m) :
    KeepsMeaning yajl json members ↔ Numbered m.2 ∧ denotes (contentOf yajl m.2) (.obj members) := by
  have htree : yajl.treeParse (CString.cstr json) = some (.obj top) := by
    rw [cstr_of_parse hparse]
    exact hyajl.treeParse _ _ hparse
  have hget : yajl.treeGet (.obj top) ["content".toList] .object
      = (some m.2).filter YajlType.object.holds := by
    have hfind : findNode (.obj top) ["content".toList] = some m.2 := by
      unfold contentFound at hfound
      rw [findNode, hfound]
      rfl
    rw [hyajl.treeGet, hfind]
  have hwritten : ∀ c, (∃ fuel, getContent yajl fuel (.obj top) = .ok c)
      ↔ Numbered m.2 ∧ c = contentOf yajl m.2 := by
    intro c
    cases hm : m.2 with
    | obj taken =>
      rw [hm] at hget
      rw [getContent_iff yajl hget, Nat.lt_succ_iff]
      simp [Numbered, contentOf]
    | null | bool | num | str | arr =>
      rw [hm] at hget
      simp only [getContent_of_none yajl hget, exists_const, Except.ok.injEq]
      simp [Numbered, contentOf, eq_comm]
  unfold KeepsMeaning
  constructor
  . rintro ⟨node, fuel, c, hnode, hc, hdenotes⟩
    cases htree.symm.trans hnode
    rcases (hwritten c).mp ⟨fuel, hc⟩ with ⟨hnumbered, rfl⟩
    exact ⟨hnumbered, hdenotes⟩
  . rintro ⟨hnumbered, hdenotes⟩
    rcases (hwritten _).mpr ⟨hnumbered, rfl⟩ with ⟨fuel, hc⟩
    exact ⟨.obj top, fuel, _, htree, hc, hdenotes⟩

variable (hcontent : top.lookup "content".toList = some (.obj members))
include hcontent

theorem keepsMeaning_iff_of_unshadowed (h : Unshadowed top) :
    KeepsMeaning yajl json members
      ↔
    members.length ≤ 65535 ∧ ∀ m ∈ members, Kept yajl m := by
  rcases contentFound_of_lookup hcontent with ⟨m, hfound, hvalue⟩
  rw [keepsMeaning_iff_of_found hyajl hparse hfound, hvalue (h m hfound), contentOf,
    denotes_contentText]
  simp [Numbered]

/--
`content_` denotes the object that Kafka delivered just where the 16 bits of the loop counter are enough
for it, its names and strings need no escapes, and whatever else is in it is a number that
`YAJL_GET_INTEGER` reads exactly. That is, if the object is found: of a payload with an earlier name that
a NUL cuts to `content`, it is the other value that is written.
-/
theorem keepsMeaning_iff :
    (Unshadowed top →
      (KeepsMeaning yajl json members
        ↔
      members.length ≤ 65535 ∧ ∀ m ∈ members, Kept yajl m))
      ∧ ∀ m, contentFound top = some m → m.1 ≠ "content".toList →
        (KeepsMeaning yajl json members
          ↔
        Numbered m.2 ∧ denotes (contentOf yajl m.2) (.obj members)) := by
  refine ⟨keepsMeaning_iff_of_unshadowed hyajl hparse hcontent, ?_⟩
  intro m hfound _
  exact keepsMeaning_iff_of_found hyajl hparse hfound

end finds

-- An integer of 64 bits is such a number.
theorem exact_of_integer (hyajl : yajl.Finds) (n : Int64) :
    Exact yajl (.num (CString.ofInt n.toInt)) := by
  rw [Exact, hyajl.getInteger, numberValue_ofInt]

end meaning

section example_

def exampleInteger (x : CString) : Int :=
  match x with
  | '-' :: ds => - (Json.digitsValue ds : Int)
  | ds => Json.digitsValue ds

def pathYajl : Yajl where
  treeParse := Json.parse
  treeGet node path t := (findNode node path).filter t.holds
  getInteger v :=
    match v with
    | .num x => .ofInt (exampleInteger x)
    | _ => 0

theorem exampleInteger_ofInt (n : Int) : exampleInteger (CString.ofInt n) = n := by
  cases n with
  | ofNat n =>
    have hdigits : Json.digitsValue (Nat.toDigits 10 n) = n := Nat.ofDigitChars_ten_toDigits
    unfold exampleInteger
    split
    . next ds hds =>
      have hminus : '-' ∈ Nat.toDigits 10 n := by
        rw [CString.ofInt, CString.ofNat] at hds
        rw [hds]
        exact List.mem_cons_self
      cases Nat.isDigit_of_mem_toDigits (by decide) (by decide) hminus
    . exact congrArg Int.ofNat hdigits
  | negSucc n =>
    have hdigits : Json.digitsValue (Nat.toDigits 10 (n + 1)) = n + 1 :=
      Nat.ofDigitChars_ten_toDigits
    rw [CString.ofInt, CString.ofNat, exampleInteger, hdigits]
    rfl

theorem pathYajl_finds : pathYajl.Finds where
  treeParse _ _ h := h
  treeGet _ _ _ := rfl
  getInteger n := by
    have hinteger := exampleInteger_ofInt n.toInt
    simp only [pathYajl, hinteger]
    exact Int64.ofInt_toInt n

-- `{"content":{"a":"b","n":7}}`
def plainPayload : CString :=
  "\x7b\"content\":\x7b\"a\":\"b\",\"n\":7\x7d\x7d".toList

def plainMembers : List (CString × Json.Tree) :=
  [(['a'], .str ['b']), (['n'], .num ['7'])]

theorem parse_plainPayload :
    Json.parse plainPayload = some (.obj [("content".toList, .obj plainMembers)]) := by
  have hb : Json.Reads (.value (.str ['b'])) ['"', 'b', '"', ',', '"', 'n', '"', ':', '7', '}', '}']
      [',', '"', 'n', '"', ':', '7', '}', '}'] := .str rfl rfl
  have hseven : Json.Reads (.value (.num ['7'])) ['7', '}', '}'] ['}', '}'] := .num rfl
  rw [Json.parse_eq_some_iff]
  refine ⟨[], ?_, rfl⟩
  refine .obj rfl (Json.key_of_plain (k := "content".toList) (List.all_eq_true.mp rfl) _) ?_
    (.closeObj (s := ['}']) rfl)
  refine .obj rfl (Json.key_of_plain (k := ['a']) (List.all_eq_true.mp rfl) _) hb ?_
  refine .member rfl (Json.key_of_plain (k := ['n']) (List.all_eq_true.mp rfl) _) hseven ?_
  exact .closeObj rfl

theorem keepsMeaning_iff_plainPayload : KeepsMeaning pathYajl plainPayload plainMembers := by
  have hunshadowed : Unshadowed [("content".toList, .obj plainMembers)] := by
    intro m hfound
    cases hfound
    rfl
  refine ((keepsMeaning_iff pathYajl_finds parse_plainPayload rfl).1 hunshadowed).mpr ⟨by decide, ?_⟩
  rw [plainMembers, List.forall_mem_cons, List.forall_mem_singleton]
  refine ⟨⟨List.all_eq_true.mp rfl, List.all_eq_true.mp rfl⟩, List.all_eq_true.mp rfl, ?_⟩
  have hseven : CString.ofInt (7 : Int64).toInt = ['7'] := by
    decide
  rw [← hseven]
  exact exact_of_integer pathYajl_finds 7

-- `{"content":{"text":"\""}}`
def quotePayload : CString :=
  "\x7b\"content\":\x7b\"text\":\"\\\"\"\x7d\x7d".toList

def quoteMembers : List (CString × Json.Tree) :=
  [("text".toList, .str ['"'])]

theorem parse_quotePayload :
    Json.parse quotePayload = some (.obj [("content".toList, .obj quoteMembers)]) := by
  have hquote : Json.string ['\\', '"', '"', '}', '}'] = some (['"'], ['}', '}']) :=
    Json.string_eq_some_iff.mpr ⟨['\\', '"'], _, rfl, .escape rfl .nil, rfl⟩
  rw [Json.parse_eq_some_iff]
  refine ⟨[], ?_, rfl⟩
  refine .obj rfl (Json.key_of_plain (k := "content".toList) (List.all_eq_true.mp rfl) _) ?_
    (.closeObj (s := ['}']) rfl)
  exact .obj rfl (Json.key_of_plain (k := "text".toList) (List.all_eq_true.mp rfl) _)
    (.str rfl hquote) (.closeObj rfl)

theorem quotePayload_not_keepsMeaning :
    Json.parse quotePayload = some (.obj [("content".toList, .obj quoteMembers)])
      ∧ ¬ KeepsMeaning pathYajl quotePayload quoteMembers := by
  refine ⟨parse_quotePayload, ?_⟩
  intro h
  rcases (keepsMeaning_iff_of_found pathYajl_finds parse_quotePayload rfl).mp h with ⟨_, hdenotes⟩
  have hdenotes : denotes (contentText pathYajl quoteMembers) (.obj quoteMembers) := hdenotes
  have htext : Exact pathYajl (.str ['"']) := (denotes_contentText.mp hdenotes _ List.mem_cons_self).2
  cases htext '"' List.mem_cons_self

end example_

end Msg
end Seuss
