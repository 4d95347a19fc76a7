import Seuss.Data.Machine
import Seuss.OpenWhisk.Bench
import Seuss.OpenWhisk.Revisions

/-!
This module contains the loop of the benchmark that invokes the generated functions, and shows for which of
the accepted lines the benchmark does what it is configured to do.
-/

namespace Seuss
namespace OpenWhisk

section dispatch

-- the activations in flight are named by the revision that they invoke
structure Dispatch where
  concurrencyPool : Int
  revisionVec : List CString
  inFlight : List CString

inductive DispatchEvent where
  | scheduleActivation
  | complete (k : Nat)

-- `while(concurrencyPool < 1)` holds the next activation back; a completion can come at any time.
def Dispatch.step (s : Dispatch) (e : DispatchEvent) : Option Dispatch :=
  match e with
  | .scheduleActivation =>
    match s.revisionVec with
    | [] => none
    | re :: revisionVec =>
      if s.concurrencyPool < 1 then
        none
      else
        some {
          concurrencyPool := s.concurrencyPool - 1
          revisionVec := revisionVec
          inFlight := re :: s.inFlight
        }
  | .complete k =>
    if k < s.inFlight.length then
      some { s with concurrencyPool := s.concurrencyPool + 1, inFlight := s.inFlight.eraseIdx k }
    else
      none

def dispatch (b : Bench) (revisionVec : List CString) : Machine Dispatch DispatchEvent where
  init := { concurrencyPool := b.parallel.toInt, revisionVec := revisionVec, inFlight := [] }
  step := Dispatch.step

variable {b : Bench} {ret : List CString} {s t : Dispatch} {e : DispatchEvent}

/--
The pool is what `parallel` leaves over for further activations.
-/
structure Dispatch.Inv (b : Bench) (s : Dispatch) : Prop where
  pool : s.concurrencyPool + s.inFlight.length = b.parallel.toInt
  bound : s.inFlight ≠ [] → 0 ≤ s.concurrencyPool

theorem Dispatch.Inv.step (h : s.Inv b) (hs : s.step e = some t) : t.Inv b := by
  cases e with
  | scheduleActivation =>
    simp only [Dispatch.step] at hs
    split at hs
    . cases hs
    . split at hs
      . cases hs
      . cases hs
        have hpool := h.pool
        constructor
        . simp only [List.length_cons]
          omega
        . intro _
          dsimp only
          omega
  | complete k =>
    simp only [Dispatch.step] at hs
    split at hs
    . next hlt =>
      cases hs
      have hpool := h.pool
      have hbound := h.bound (List.ne_nil_of_length_pos (Nat.zero_lt_of_lt hlt))
      constructor
      . simp only [List.length_eraseIdx_of_lt hlt]
        omega
      . intro _
        dsimp only
        omega
    . cases hs

theorem Dispatch.inv_of_reachable (h : (dispatch b ret).Reachable s) : s.Inv b := by
  refine h.invariant ?_ fun _ _ _ _ hinv hs => hinv.step hs
  constructor
  . simp [dispatch]
  . intro hne
    exact absurd rfl hne

/--
There are never more activations in flight than the operator asked for.
-/
theorem inFlight_le (h : (dispatch b ret).Reachable s) (hne : s.inFlight ≠ []) :
    s.inFlight.length ≤ b.parallel.toInt := by
  have hinv := Dispatch.inv_of_reachable h
  have hpool := hinv.pool
  have hbound := hinv.bound hne
  omega

/--
The loop gets on until all of the vector is invoked: there is room for one more activation, or one in
flight that makes room when it completes.
-/
theorem dispatch_progress (h : (dispatch b ret).Reachable s) (hparallel : 1 ≤ b.parallel.toInt)
    (hret : s.revisionVec ≠ []) :
    ∃ e t, (dispatch b ret).step s e = some t := by
  have hinv := Dispatch.inv_of_reachable h
  cases hflight : s.inFlight with
  | nil =>
    have hpool := hinv.pool
    rw [hflight, List.length_nil] at hpool
    refine ⟨.scheduleActivation, ?_⟩
    cases hvec : s.revisionVec with
    | nil => exact absurd hvec hret
    | cons re revisionVec =>
      simp only [dispatch, Dispatch.step, hvec]
      rw [if_neg (by omega)]
      exact ⟨_, rfl⟩
  | cons re inFlight =>
    refine ⟨.complete 0, ?_⟩
    simp only [dispatch, Dispatch.step, hflight]
    rw [if_pos (List.length_pos_of_ne_nil (List.cons_ne_nil _ _))]
    exact ⟨_, rfl⟩

end dispatch

section sound

variable (build : Build) (rand : Nat → Nat) (shuffle : Shuffle)

/--
What `test` needs of the configuration that it goes on with: the assertion of `genRevisionVec` holds, its
vector is grouped before and after it is shuffled, and the loop over it can begin.
-/
structure Sound (b : Bench) : Prop where
  divisible : CInt.rem b.runs b.fns = some 0
  filled : ∃ ret, fillRevisionVec build rand b.runs b.fns = .ok ret ∧ Grouped b.runs b.fns ret
  generated : ∃ ret, genRevisionVec build rand shuffle b.runs b.fns = .ok ret
    ∧ Grouped b.runs b.fns ret
    ∧ ∃ e s, (dispatch b ret).step (dispatch b ret).init e = some s
  parallel : 1 ≤ b.parallel.toInt

variable {build} {rand} {shuffle} {b : Bench}

theorem runs_ne_zero (h : b.vecGood = true) : b.runs.toInt ≠ 0 := by
  unfold Bench.vecGood at h
  split at h
  . cases h
  . split at h
    . cases h
    . next hruns =>
      rw [Ne, CInt.toInt_eq_zero]
      exact hruns

theorem Sound.fits (h : Sound build rand shuffle b) (hgood : b.vecGood = true) :
    1 ≤ b.runs.toInt ∧ 1 ≤ b.fns.toInt ∧ b.fns.toInt ∣ b.runs.toInt ∧ 1 ≤ b.parallel.toInt := by
  rcases CInt.rem_eq_some h.divisible with ⟨hne, hrem⟩
  rcases h.filled with ⟨ret, _, hgrouped⟩
  rcases hgrouped.groups with ⟨names, repeats, _, hnames, _⟩
  have hlength := hgrouped.length
  have hruns := runs_ne_zero hgood
  rw [Ne, ← CInt.toInt_eq_zero] at hne
  refine ⟨by omega, by omega, ?_, h.parallel⟩
  exact Int.dvd_of_tmod_eq_zero hrem.symm

variable (build) (rand) in
theorem fillRevisionVec_eq (hruns : 1 ≤ b.runs.toInt) (hfns : 1 ≤ b.fns.toInt)
    (hdvd : b.fns.toInt ∣ b.runs.toInt) (hdivisible : CInt.rem b.runs b.fns = some 0)
    {repeats : CInt} (hdiv : CInt.div b.runs b.fns = some repeats) :
    fillRevisionVec build rand b.runs b.fns
      =
    .ok (revisionGroups rand repeats.toInt.toNat b.fns.toInt.toNat) := by
  have hnonneg : 0 ≤ b.runs.toInt := by
    omega
  have hassert : assertDivisible build b.runs b.fns = .ok () := by
    unfold assertDivisible
    cases build with
    | debug =>
      rw [hdivisible]
      rfl
    | release => rfl
  have hvector : makeVector b.runs = .ok (List.replicate b.runs.toInt.toNat []) := by
    unfold makeVector
    rw [if_neg (Int.not_lt.mpr hnonneg)]
  have hloop := fillRevision_loop rand hnonneg hfns hdiv
  rw [mul_repeats hnonneg hfns hdvd hdiv, Nat.sub_self, List.replicate_zero, List.append_nil] at hloop
  unfold fillRevisionVec
  rw [hassert, hvector]
  exact hloop

theorem sound_of_fits (hruns : 1 ≤ b.runs.toInt) (hfns : 1 ≤ b.fns.toInt)
    (hdvd : b.fns.toInt ∣ b.runs.toInt) (hparallel : 1 ≤ b.parallel.toInt)
    (hrand : ∀ i j : Nat, i < b.fns.toInt → j < b.fns.toInt → rand i = rand j → i = j) :
    Sound build rand shuffle b := by
  rcases CInt.exists_div b.runs hfns with ⟨repeats, hdiv, _⟩
  have hdivisible : CInt.rem b.runs b.fns = some 0 := by
    rcases CInt.exists_rem b.runs hfns with ⟨rest, hrest, hval⟩
    rw [Int.tmod_eq_zero_of_dvd hdvd, CInt.toInt_eq_zero] at hval
    rw [hrest, hval]
  have hfill := fillRevisionVec_eq build rand hruns hfns hdvd hdivisible hdiv
  have hgrouped := grouped_revisionGroups (by omega) hfns hdvd hdiv hrand
  have hshuffled := hgrouped.perm (shuffle.perm _)
  have hne : shuffle.run (revisionGroups rand repeats.toInt.toNat b.fns.toInt.toNat) ≠ [] := by
    intro hnil
    have hlength := hshuffled.length
    rw [hnil, List.length_nil] at hlength
    omega
  constructor
  . exact hdivisible
  . exact ⟨_, hfill, hgrouped⟩
  . refine ⟨_, ?_, hshuffled, dispatch_progress (Machine.reachable_init _) hparallel hne⟩
    unfold genRevisionVec
    rw [hfill]
    rfl
  . exact hparallel

/--
The check of the prompt lets configurations through that `genRevisionVec` and the loop after it cannot
handle: it does not look at `fns` and `parallel`, and at `runs` only whether it is 0.
-/
theorem accepted_sound_iff {line : CString} (hline : Accepted line)
    (hrand : ∀ i j : Nat, i < (Bench.ofString line).fns.toInt → j < (Bench.ofString line).fns.toInt →
      rand i = rand j → i = j) :
    Sound build rand shuffle (Bench.ofString line)
      ↔
    1 ≤ (Bench.ofString line).runs.toInt
      ∧ 1 ≤ (Bench.ofString line).fns.toInt
      ∧ (Bench.ofString line).fns.toInt ∣ (Bench.ofString line).runs.toInt
      ∧ 1 ≤ (Bench.ofString line).parallel.toInt := by
  constructor
  . intro h
    exact h.fits hline.2.2
  . rintro ⟨hruns, hfns, hdvd, hparallel⟩
    exact sound_of_fits hruns hfns hdvd hparallel hrand

def reversing : Shuffle where
  run := List.reverse
  perm := List.reverse_perm

theorem sound_sixRuns :
    Sound .debug id reversing (Bench.ofString "6 3 2 10".toList)
      ∧ Bench.ofString "6 3 2 10".toList = ⟨6, 3, 2, 10, [6, 3, 2, 10]⟩ := by
  have hline : Accepted "6 3 2 10".toList := ⟨by decide, by decide, by decide⟩
  refine ⟨(accepted_sound_iff hline fun _ _ _ _ h => h).mpr ?_, by decide⟩
  exact ⟨by decide, by decide, by decide, by decide⟩

theorem zeroFns_not_sound :
    Accepted "1 0".toList
      ∧ genRevisionVec .debug id reversing 1 0 = .error .undefined
      ∧ genRevisionVec .release id reversing 1 0 = .ok [[]]
      ∧ ¬ Sound .debug id reversing (Bench.ofString "1 0".toList)
      ∧ ¬ Sound .release id reversing (Bench.ofString "1 0".toList) := by
  have hrem : CInt.rem (Bench.ofString "1 0".toList).runs (Bench.ofString "1 0".toList).fns ≠ some 0 := by
    decide
  refine ⟨⟨by decide, by decide, by decide⟩, by decide, by decide, ?_, ?_⟩
  . exact fun h => hrem h.divisible
  . exact fun h => hrem h.divisible

end sound

end OpenWhisk
end Seuss
