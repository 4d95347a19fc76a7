import Seuss.Data.CountedLoop
import Seuss.Json.Writing
import Seuss.OpenWhisk.Activation

/-!
This module contains the loop that writes `content_` with the indexes that it visits: its counter is a
`uint16_t`, the number of members a `size_t`.
-/

namespace Seuss
namespace Msg

section trace

variable (yajl : Yajl) (members : List (CString × Json.Tree))

-- `contentLoop` that notes `i` at the start of every iteration
def contentTrace (fuel : Nat) (i : UInt16) (ss : CString) : Except Fault (List Nat × CString) :=
  match fuel with
  | 0 => .error .outOfFuel
  | fuel + 1 =>
    match members[i.toNat]? with
    | none => .ok ([], ss)
    | some m => do
      let ss := if i > 0 then ss ++ ",".toList else ss
      let (visited, ss) ← contentTrace fuel (i + 1) (ss ++ contentMember yajl m)
      return (i.toNat :: visited, ss)

theorem contentTrace_map_snd (fuel : Nat) (i : UInt16) (ss : CString) :
    (contentTrace yajl members fuel i ss).map Prod.snd = contentLoop yajl members fuel i ss := by
  induction fuel generalizing i ss with
  | zero => rfl
  | succ fuel ih =>
    rw [contentTrace, contentLoop]
    cases members[i.toNat]? with
    | none => rfl
    | some m =>
      dsimp only
      rw [← ih]
      cases contentTrace yajl members fuel (i + 1) _ <;> rfl

def contentBody (i : Nat) (ss : CString) : CString :=
  match members[i]? with
  | none => ss
  | some m => (if i > 0 then ss ++ ",".toList else ss) ++ contentMember yajl m

def ofFuel (o : Option α) : Except Fault α :=
  match o with
  | none => .error .outOfFuel
  | some a => .ok a

theorem ofFuel_inj {o p : Option α} : ofFuel o = ofFuel p ↔ o = p := by
  cases o <;> cases p <;> simp [ofFuel]

theorem contentTrace_eq_run (fuel : Nat) (i : UInt16) (ss : CString) :
    contentTrace yajl members fuel i ss
      =
    ofFuel (CountedLoop.run members.length (contentBody yajl members) fuel i.toBitVec ss) := by
  induction fuel generalizing i ss with
  | zero => rfl
  | succ fuel ih =>
    have hpos : i > 0 ↔ i.toNat > 0 := by
      rw [gt_iff_lt, UInt16.lt_iff_toNat_lt]
      rfl
    have hnat : i.toBitVec.toNat = i.toNat := rfl
    have hnext : i.toBitVec + 1 = (i + 1).toBitVec := rfl
    rw [contentTrace, CountedLoop.run, hnat, hnext]
    by_cases hlt : i.toNat < members.length
    . rw [List.getElem?_eq_getElem hlt, if_pos hlt]
      simp only [contentBody, List.getElem?_eq_getElem hlt, hpos]
      rw [ih]
      cases CountedLoop.run members.length (contentBody yajl members) fuel (i + 1).toBitVec _ <;> rfl
    . rw [List.getElem?_eq_none (by omega), if_neg hlt]
      rfl

theorem contentLoop_eq_run (fuel : Nat) (i : UInt16) (ss : CString) :
    contentLoop yajl members fuel i ss
      =
    (ofFuel (CountedLoop.run members.length (contentBody yajl members) fuel i.toBitVec ss)).map
      Prod.snd := by
  rw [← contentTrace_map_snd, contentTrace_eq_run]

variable {members} in
theorem contentLoop_of_le (h : 65536 ≤ members.length) (fuel : Nat) (i : UInt16) (ss : CString) :
    contentLoop yajl members fuel i ss = .error .outOfFuel := by
  rw [contentLoop_eq_run, CountedLoop.run_of_le _ h]
  rfl

/--
The loop comes to its end as soon as `i` has numbered every member once and in order, and no sooner.
-/
def VisitsEach : Prop :=
  ∃ ss, ∀ fuel, contentTrace yajl members fuel 0 "\x7b".toList
    = if members.length < fuel then .ok (List.range members.length, ss) else .error .outOfFuel

theorem visitsEach_iff : VisitsEach yajl members ↔ members.length ≤ 65535 := by
  rw [← Nat.lt_succ_iff]
  refine Iff.trans ?_ (CountedLoop.stops_iff (w := 16) (contentBody yajl members) "\x7b".toList)
  apply exists_congr
  intro ss
  apply forall_congr'
  intro fuel
  rw [contentTrace_eq_run, ← ofFuel_inj, apply_ite ofFuel]
  rfl

variable {members} in
theorem not_visitsEach_of_le (h : 65536 ≤ members.length) : ¬ VisitsEach yajl members := by
  rintro ⟨ss, hstops⟩
  have hend := hstops (members.length + 1)
  rw [if_pos (Nat.lt_succ_self _), contentTrace_eq_run, CountedLoop.run_of_le _ h] at hend
  cases hend

end trace

section wide

def wideMembers : List (CString × Json.Tree) :=
  (List.range 65536).map fun i => (CString.ofNat i, .num ['1'])

-- `{"content":{"0":1,"1":1,...,"65535":1}}`
def widePayload : CString :=
  let members := (List.range 65536).map fun i => (CString.ofNat i, ['1'])
  Json.objectText [("content".toList, Json.objectText members)]

theorem length_wideMembers : wideMembers.length = 65536 := by
  rw [wideMembers, List.length_map, List.length_range]

theorem plain_ofNat (n : Nat) : Json.Plain (CString.ofNat n) := by
  intro c hc
  have hdigit := CString.isDigit_of_mem_ofNat hc
  rw [Json.isPlain_iff]
  refine ⟨?_, ?_, ?_⟩
  . rintro rfl
    cases hdigit
  . rintro rfl
    cases hdigit
  . rw [Char.isDigit, Bool.and_eq_true, decide_eq_true_eq, decide_eq_true_eq] at hdigit
    have hle : 48 ≤ c.toNat := hdigit.1
    omega

theorem parse_widePayload :
    Json.parse widePayload = some (.obj [("content".toList, .obj wideMembers)]) := by
  have hone : Json.Writes (.num ['1']) ['1'] := by
    apply Json.writes_number rfl
    exact List.all_eq_true.mp rfl
  have hmembers : List.Forall₂ Json.WritesMember wideMembers
      ((List.range 65536).map fun i => (CString.ofNat i, ['1'])) := by
    rw [wideMembers, List.forall₂_map_left_iff, List.forall₂_map_right_iff, List.forall₂_same]
    intro i _
    exact ⟨rfl, plain_ofNat i, hone⟩
  apply Json.Writes.parse
  unfold widePayload
  apply Json.writes_objectText
  refine .cons (Json.writesMember rfl ?_) .nil
  exact Json.writes_objectText hmembers

theorem widePayload_not_visitsEach :
    Json.parse widePayload = some (.obj [("content".toList, .obj wideMembers)])
      ∧ (∀ yajl, ¬ VisitsEach yajl wideMembers)
      ∧ ∀ yajl fuel, contentLoop yajl wideMembers fuel 0 "\x7b".toList = .error .outOfFuel := by
  have hlen : 65536 ≤ wideMembers.length := Nat.le_of_eq length_wideMembers.symm
  refine ⟨parse_widePayload, ?_, ?_⟩
  . intro yajl
    exact not_visitsEach_of_le yajl hlen
  . intro yajl fuel
    exact contentLoop_of_le yajl hlen fuel 0 _

end wide

end Msg
end Seuss
