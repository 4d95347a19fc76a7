import Seuss.Basic
import Seuss.Data.CInt
import Seuss.Data.CountedLoop

/-!
This module contains `genRevisionVec`, which generates the names of the functions that a benchmark invokes:
`fns` of them, each as often as the others, in an order of its own.
-/

namespace Seuss
namespace OpenWhisk

section revisions

inductive Failure where
  | assertion
  | undefined
  | lengthError
  deriving DecidableEq, Repr

variable (build : Build)

-- `assert(runs % fns == 0)`
def assertDivisible (runs fns : CInt) : Except Failure Unit :=
  match build with
  | .release => .ok ()
  | .debug =>
    match CInt.rem runs fns with
    | none => .error .undefined
    | some rest => if rest = 0 then .ok () else .error .assertion

-- `vector<std::string>(n)`, where `n` becomes a `size_t`
def makeVector (n : CInt) : Except Failure (List CString) :=
  if n.toInt < 0 then .error .lengthError else .ok (List.replicate n.toInt.toNat [])

-- `i*repeats + j`
def revisionIndex (repeats : CInt) (i j : Nat) : Option CInt := do
  let row ← CInt.mul (CInt.ofSize i) repeats
  CInt.add row (CInt.ofSize j)

def assignRevision (tmp : CString) (repeats : CInt) (i : Nat) (ret : List CString) (j : Nat) :
    Except Failure (List CString) :=
  match revisionIndex repeats i j with
  | none => .error .undefined
  | some index =>
    if 0 ≤ index.toInt ∧ index.toInt < ret.length then
      .ok (ret.set index.toInt.toNat tmp)
    else
      .error .undefined

variable (rand : Nat → Nat)

def revisionName (i : Nat) : CString :=
  CString.ofNat (rand i)

def fillRevision (runs fns : CInt) (ret : List CString) (i : Nat) : Except Failure (List CString) :=
  let tmp := revisionName rand i
  match CInt.div runs fns with
  | none => .error .undefined
  | some repeats => (List.range repeats.toInt.toNat).foldlM (assignRevision tmp repeats i) ret

-- `ret` as it is handed to `std::random_shuffle`
def fillRevisionVec (runs fns : CInt) : Except Failure (List CString) := do
  assertDivisible build runs fns
  let ret ← makeVector runs
  (List.range fns.toInt.toNat).foldlM (fillRevision rand runs fns) ret

structure Shuffle where
  run : List CString → List CString
  perm : ∀ l, (run l).Perm l

variable (shuffle : Shuffle)

def genRevisionVec (runs fns : CInt) : Except Failure (List CString) := do
  let ret ← fillRevisionVec build rand runs fns
  return shuffle.run ret

end revisions

section fill

variable {runs fns repeats : CInt} {i j : Nat} {tmp : CString} {ret : List CString}

theorem revisionIndex_eq (hrepeats : 0 ≤ repeats.toInt) (hj : j < repeats.toInt.toNat)
    (hlt : i * repeats.toInt.toNat + j < 2147483648) :
    ∃ index, revisionIndex repeats i j = some index
      ∧ index.toInt = (i * repeats.toInt.toNat + j : Nat) := by
  have hrow : i * 1 ≤ i * repeats.toInt.toNat := Nat.mul_le_mul_left i (by omega)
  have hi : (CInt.ofSize i).toInt = i := CInt.toInt_ofSize (by omega)
  have hj : (CInt.ofSize j).toInt = j := CInt.toInt_ofSize (by omega)
  have hprod : (i : Int) * repeats.toInt = (i * repeats.toInt.toNat : Nat) := by
    rw [Int.natCast_mul, Int.toNat_of_nonneg hrepeats]
  generalize i * repeats.toInt.toNat = product at *
  rcases CInt.exists_ofInt? (n := (i : Int) * repeats.toInt) (by omega) (by omega) with
    ⟨row, hrow, hrowval⟩
  rcases CInt.exists_ofInt? (n := row.toInt + j) (by omega) (by omega) with
    ⟨index, hindex, hval⟩
  refine ⟨index, ?_, by omega⟩
  unfold revisionIndex CInt.mul
  rw [hi, hrow]
  unfold CInt.add
  rw [Option.bind_eq_bind, Option.bind_some, hj]
  exact hindex

theorem assignRevision_eq (hrepeats : 0 ≤ repeats.toInt) (hj : j < repeats.toInt.toNat)
    (hret : i * repeats.toInt.toNat + j < ret.length) (hlength : ret.length ≤ 2147483647) :
    assignRevision tmp repeats i ret j = .ok (ret.set (i * repeats.toInt.toNat + j) tmp) := by
  rcases revisionIndex_eq (i := i) hrepeats hj (by omega) with ⟨index, hindex, hval⟩
  unfold assignRevision
  rw [hindex]
  dsimp only
  rw [if_pos (by omega), hval]
  rfl

-- The inner loop has written the first `j` names of the group.
theorem assignRevision_append {before rest : List CString} (hrepeats : 0 ≤ repeats.toInt)
    (hj : j < repeats.toInt.toNat) (hbefore : before.length = i * repeats.toInt.toNat)
    (hrest : repeats.toInt.toNat ≤ rest.length) (hlength : before.length + rest.length ≤ 2147483647) :
    assignRevision tmp repeats i (before ++ (List.replicate j tmp ++ rest.drop j)) j
      =
    .ok (before ++ (List.replicate (j + 1) tmp ++ rest.drop (j + 1))) := by
  have htotal : (before ++ (List.replicate j tmp ++ rest.drop j)).length
      = before.length + rest.length := by
    rw [List.length_append, List.length_append, List.length_replicate, List.length_drop]
    omega
  rw [assignRevision_eq hrepeats hj (by omega) (by omega), ← hbefore,
    List.set_append_right _ _ (by omega), Nat.add_sub_cancel_left,
    List.set_append_right _ _ (by simp), List.length_replicate, Nat.sub_self,
    List.drop_eq_getElem_cons (by omega), List.set_cons_zero, List.replicate_succ',
    List.append_assoc]
  rfl

theorem fillRevision_append (rand : Nat → Nat) {before rest : List CString}
    (hdiv : CInt.div runs fns = some repeats) (hrepeats : 0 ≤ repeats.toInt)
    (hbefore : before.length = i * repeats.toInt.toNat)
    (hrest : repeats.toInt.toNat ≤ rest.length) (hlength : before.length + rest.length ≤ 2147483647) :
    fillRevision rand runs fns (before ++ rest) i
      =
    .ok (before ++ (List.replicate repeats.toInt.toNat (revisionName rand i)
      ++ rest.drop repeats.toInt.toNat)) := by
  unfold fillRevision
  rw [hdiv]
  apply CountedLoop.foldlM_range fun j =>
    before ++ (List.replicate j (revisionName rand i) ++ rest.drop j)
  intro j hj
  exact assignRevision_append hrepeats hj hbefore hrest hlength

-- the first `n` groups of the vector, without what follows them
def revisionGroups (rand : Nat → Nat) (repeats n : Nat) : List CString :=
  (List.range n).flatMap fun i => List.replicate repeats (revisionName rand i)

theorem revisionGroups_succ (rand : Nat → Nat) (repeats n : Nat) :
    revisionGroups rand repeats (n + 1)
      =
    revisionGroups rand repeats n ++ List.replicate repeats (revisionName rand n) := by
  simp [revisionGroups, List.range_succ]

theorem length_revisionGroups (rand : Nat → Nat) (repeats n : Nat) :
    (revisionGroups rand repeats n).length = n * repeats := by
  induction n with
  | zero => simp [revisionGroups]
  | succ n ih =>
    rw [revisionGroups_succ, List.length_append, List.length_replicate, ih, Nat.succ_mul]

/--
The outer loop writes one group behind the other; what is left over keeps the empty strings that it was
made with.
-/
theorem fillRevision_loop (rand : Nat → Nat) (hruns : 0 ≤ runs.toInt) (hfns : 0 < fns.toInt)
    (hdiv : CInt.div runs fns = some repeats) :
    (List.range fns.toInt.toNat).foldlM (fillRevision rand runs fns)
        (List.replicate runs.toInt.toNat [])
      =
    .ok (revisionGroups rand repeats.toInt.toNat fns.toInt.toNat
      ++ List.replicate (runs.toInt.toNat - fns.toInt.toNat * repeats.toInt.toNat) []) := by
  have hquot : repeats.toInt = runs.toInt / fns.toInt := by
    rw [(CInt.div_eq_some.mp hdiv).2, Int.tdiv_eq_ediv_of_nonneg hruns]
  have hrepeats : 0 ≤ repeats.toInt := by
    rw [hquot]
    exact Int.ediv_nonneg hruns (Int.le_of_lt hfns)
  have hbound := CInt.toInt_lt runs
  have htotal : fns.toInt.toNat * repeats.toInt.toNat ≤ runs.toInt.toNat := by
    have hle := Int.mul_ediv_self_le (x := runs.toInt) (k := fns.toInt) (by omega)
    rw [← hquot] at hle
    rw [← Int.ofNat_le, Int.natCast_mul, Int.toNat_of_nonneg (Int.le_of_lt hfns),
      Int.toNat_of_nonneg hrepeats, Int.toNat_of_nonneg hruns]
    exact hle
  have hrow : ∀ i, i < fns.toInt.toNat →
      fillRevision rand runs fns (revisionGroups rand repeats.toInt.toNat i
          ++ List.replicate (runs.toInt.toNat - i * repeats.toInt.toNat) []) i
        = .ok (revisionGroups rand repeats.toInt.toNat (i + 1)
          ++ List.replicate (runs.toInt.toNat - (i + 1) * repeats.toInt.toNat) []) := by
    intro i hi
    have hnext : (i + 1) * repeats.toInt.toNat ≤ fns.toInt.toNat * repeats.toInt.toNat :=
      Nat.mul_le_mul_right _ hi
    rw [Nat.succ_mul] at hnext
    have hgroups := length_revisionGroups rand repeats.toInt.toNat i
    have hrest : (List.replicate (runs.toInt.toNat - i * repeats.toInt.toNat) ([] : CString)).length
        = runs.toInt.toNat - i * repeats.toInt.toNat := List.length_replicate
    rw [fillRevision_append rand hdiv hrepeats hgroups (by omega) (by omega), revisionGroups_succ,
      List.drop_replicate, Nat.sub_sub, Nat.succ_mul, List.append_assoc]
  have hloop := CountedLoop.foldlM_range _ hrow
  rw [Nat.zero_mul, Nat.sub_zero] at hloop
  exact hloop

end fill

/--
The vector has `runs` non-empty names, `fns` different ones that are `runs / fns` times in it each.
-/
structure Grouped (runs fns : CInt) (ret : List CString) : Prop where
  length : ret.length = runs.toInt
  nonempty : ∀ name ∈ ret, name ≠ []
  groups : ∃ (names : List CString) (repeats : CInt), CInt.div runs fns = some repeats
    ∧ names.length = fns.toInt
    ∧ names.Nodup
    ∧ ret.Perm (names.flatMap (List.replicate repeats.toInt.toNat))

section grouped

variable {runs fns repeats : CInt} {ret ret' : List CString} {rand : Nat → Nat}

theorem Grouped.perm (h : Grouped runs fns ret) (hperm : ret'.Perm ret) : Grouped runs fns ret' := by
  rcases h.groups with ⟨names, repeats, hdiv, hlength, hnodup, hgroups⟩
  constructor
  . rw [hperm.length_eq]
    exact h.length
  . intro name hname
    exact h.nonempty name (hperm.mem_iff.mp hname)
  . exact ⟨names, repeats, hdiv, hlength, hnodup, hperm.trans hgroups⟩

theorem revisionName_ne_nil (i : Nat) : revisionName rand i ≠ [] := by
  exact Nat.toDigits_ne_nil

theorem revisionName_inj {i j : Nat} : revisionName rand i = revisionName rand j ↔ rand i = rand j := by
  constructor
  . intro h
    have hatoi := congrArg CString.atoi h
    rw [revisionName, revisionName, CString.atoi_ofNat, CString.atoi_ofNat] at hatoi
    exact Int.ofNat_inj.mp hatoi
  . intro h
    rw [revisionName, revisionName, h]

theorem mul_repeats (hruns : 0 ≤ runs.toInt) (hfns : 0 < fns.toInt) (hdvd : fns.toInt ∣ runs.toInt)
    (hdiv : CInt.div runs fns = some repeats) :
    fns.toInt.toNat * repeats.toInt.toNat = runs.toInt.toNat := by
  have hquot := (CInt.div_eq_some.mp hdiv).2
  have hrepeats : 0 ≤ repeats.toInt := by
    rw [hquot]
    exact Int.tdiv_nonneg hruns (Int.le_of_lt hfns)
  rw [← Int.ofNat_inj, Int.natCast_mul, Int.toNat_of_nonneg (Int.le_of_lt hfns),
    Int.toNat_of_nonneg hrepeats, Int.toNat_of_nonneg hruns, hquot, Int.mul_tdiv_cancel' hdvd]

theorem grouped_revisionGroups (hruns : 0 ≤ runs.toInt) (hfns : 0 < fns.toInt)
    (hdvd : fns.toInt ∣ runs.toInt) (hdiv : CInt.div runs fns = some repeats)
    (hrand : ∀ i j : Nat, i < fns.toInt → j < fns.toInt → rand i = rand j → i = j) :
    Grouped runs fns (revisionGroups rand repeats.toInt.toNat fns.toInt.toNat) := by
  constructor
  . rw [length_revisionGroups, mul_repeats hruns hfns hdvd hdiv, Int.toNat_of_nonneg hruns]
  . intro name hname
    rcases List.mem_flatMap.mp hname with ⟨i, _, hi⟩
    rw [List.eq_of_mem_replicate hi]
    exact revisionName_ne_nil i
  . refine ⟨(List.range fns.toInt.toNat).map (revisionName rand), repeats, hdiv, ?_, ?_, ?_⟩
    . rw [List.length_map, List.length_range, Int.toNat_of_nonneg (Int.le_of_lt hfns)]
    . apply List.Nodup.map_on _ List.nodup_range
      intro i hi j hj heq
      rw [List.mem_range] at hi hj
      exact hrand i j (by omega) (by omega) (revisionName_inj.mp heq)
    . rw [List.flatMap_map]
      exact List.Perm.refl _

end grouped

end OpenWhisk
end Seuss
