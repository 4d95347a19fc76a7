import Seuss.Deployment.Isolation

/-!
This module shows where the code that runs an invocation comes from: from the cold start that the
instance goes back to, which was for the same function.
-/

namespace Seuss
namespace Deployment

open Invoker Ownership

variable {n : Nat}

-- One of the first `k` starts is a cold start for `f` that sent `code` to its instance.
def ColdStarted (starts : List Start) (k : Nat) (f : UInt64) (code : CString) : Prop :=
  ∃ j st, j < k ∧ starts[j]? = some st ∧ st.path = .cold ∧ st.fid = f ∧ st.invocation.code = code

structure Coded (s : State n) : Prop where
  instances : ∀ umiId inst, s.instances.find? umiId = some inst →
    ∃ f, inst.owner = some f ∧ ColdStarted s.starts s.starts.length f inst.code
  snapshots : ∀ sv snapshot, s.snapshots.find? sv = some snapshot →
    ∃ f, s.snapshotOwner sv = some f ∧ ColdStarted s.starts s.starts.length f snapshot.code
  starts : ∀ k st, s.starts[k]? = some st → ColdStarted s.starts (k + 1) st.fid st.code
  cold : ∀ st ∈ s.starts, st.path = .cold → st.code = st.invocation.code

theorem Coded.new (limit reuseLimit : UInt16) : Coded (State.new limit reuseLimit n) where
  instances := by simp [State.new, Deployed.new]
  snapshots := by simp [State.new, Deployed.new]
  starts := by simp [State.new, Deployed.new]
  cold := by simp [State.new, Deployed.new]

section ColdStarted

variable {starts : List Start} {st : Start} {k l : Nat} {f : UInt64} {code : CString}

theorem ColdStarted.concat (h : ColdStarted starts k f code) (hkl : k ≤ l) :
    ColdStarted (starts ++ [st]) l f code := by
  rcases h with ⟨j, st', hj, hst', h⟩
  refine ⟨j, st', by omega, ?_, h⟩
  exact History.getElem?_concat_of_getElem? hst'

theorem coldStarted_concat (hcold : st.path = .cold) :
    ColdStarted (starts ++ [st]) (starts.length + 1) st.fid st.invocation.code :=
  ⟨starts.length, st, by omega, by simp, hcold, rfl, rfl⟩

end ColdStarted

section Coded

variable {s t : State n} {e : Event n}

theorem Coded.instance_coldStarted {umiId : UmiId} {inst : Instance} {f : UInt64} (h : Coded s)
    (hinst : s.instances.find? umiId = some inst) (howner : inst.owner = some f) :
    ColdStarted s.starts s.starts.length f inst.code := by
  rcases h.instances umiId inst hinst with ⟨g, hg, hcold⟩
  rw [howner] at hg
  cases hg
  exact hcold

theorem Coded.start {path : StartPath} {c : Fin n} {i : Invocation} {umiId : UmiId}
    {inst : Instance} (h : Coded s)
    (hinst : s.instances.find? umiId = none ∨ s.instances.find? umiId = some inst)
    (hserved : ∀ f ∈ inst.served, f = i.info.functionId)
    (hcode : path = .cold ∧ inst.code = i.code
      ∨ path ≠ .cold ∧ ColdStarted s.starts s.starts.length i.info.functionId inst.code) :
    Coded (s.start path c i umiId inst) := by
  have hgrows : Grows s.toDeployed (s.start path c i umiId inst).toDeployed := grows_start hinst
  have hlength : (s.start path c i umiId inst).starts.length = s.starts.length + 1 :=
    List.length_append
  have hstarted : ColdStarted (s.start path c i umiId inst).starts (s.starts.length + 1)
      i.info.functionId inst.code := by
    rcases hcode with ⟨hpath, hcode⟩ | ⟨_, hcode⟩
    . rw [hcode]
      exact coldStarted_concat hpath
    . exact hcode.concat (by omega)
  refine ⟨?_, ?_, ?_, ?_⟩
  . intro u inst' hfind
    rw [hlength]
    simp only [State.start, UnorderedMap.find?_insert] at hfind
    split at hfind
    . cases hfind
      exact ⟨_, owner_served hserved, hstarted⟩
    . rcases h.instances u inst' hfind with ⟨f, howner, hcold⟩
      exact ⟨f, howner, hcold.concat (by omega)⟩
  . intro sv snapshot hfind
    rw [hlength]
    rcases h.snapshots sv snapshot hfind with ⟨f, howner, hcold⟩
    exact ⟨f, hgrows.snapshots _ _ howner, hcold.concat (by omega)⟩
  . intro k st hst
    rcases History.getElem?_concat_cases hst with hst | ⟨hk, rfl⟩
    . exact (h.starts k st hst).concat (by omega)
    . rw [hk]
      exact hstarted
  . apply Pool.forall_put h.cold
    intro hpath
    rcases hcode with ⟨_, hcode⟩ | ⟨hne, _⟩
    . exact hcode
    . exact absurd hpath hne

theorem Coded.processColdStart {c : Fin n} {i : Invocation} {umiId : UmiId} (h : Coded s)
    (hfresh : s.instances.find? umiId = none) : Coded (s.processColdStart c i umiId) := by
  have hstart : Coded (s.start .cold c i umiId { origin := .base, code := i.code, served := [] }) :=
    h.start (.inl hfresh) (by simp) (.inl ⟨rfl, rfl⟩)
  unfold State.processColdStart
  dsimp only
  split
  . exact hstart
  . exact ⟨hstart.instances, hstart.snapshots, hstart.starts, hstart.cold⟩

theorem Coded.snapshotTaken {checkpoint : Checkpoint} {inst : Instance} {sv : SnapshotId}
    (h : Coded s) (hfresh : s.snapshots.find? sv = none)
    (hinst : s.instances.find? checkpoint.umiId = some inst)
    (howner : s.coldStarted checkpoint.umiId = some checkpoint.fid) :
    Coded (s.snapshotTaken checkpoint inst sv) := by
  have hgrows : Grows s.toDeployed (s.snapshotTaken checkpoint inst sv).toDeployed :=
    grows_snapshotTaken hfresh
  refine ⟨h.instances, ?_, h.starts, h.cold⟩
  intro sv' snapshot hfind
  simp only [State.snapshotTaken, UnorderedMap.find?_insert] at hfind
  split at hfind
  . next heq =>
    cases hfind
    rw [heq]
    have hsource := howner
    rw [Deployed.coldStarted, ownerOf_eq_some] at hsource
    rcases hsource with ⟨inst', hinst', hcold⟩
    rw [hinst] at hinst'
    cases hinst'
    refine ⟨checkpoint.fid, ?_, h.instance_coldStarted hinst (owner_of_coldStartedFor hcold).2⟩
    rw [snapshotOwner_snapshotTaken]
    exact howner
  . rcases h.snapshots sv' snapshot hfind with ⟨f, howner, hcold⟩
    exact ⟨f, hgrows.snapshots _ _ howner, hcold⟩

theorem Coded.moved (howned : Owned s) (h : Coded s) (hmoved : Moved s e t) : Coded t := by
  cases hmoved with
  | hot c core i umiId inst he hcached hcore hinst ht =>
    rw [ht]
    rcases howned.stalled_served hcached hinst with ⟨howner, hserved⟩
    have hcold := h.instance_coldStarted hinst howner
    have hcores : Coded { s with cores := Function.update s.cores c core } :=
      ⟨h.instances, h.snapshots, h.starts, h.cold⟩
    exact hcores.start (.inr hinst) hserved (.inr ⟨by simp, hcold⟩)
  | warm c i umiId sv snapshot he hfresh hcached hsnapshot ht =>
    rw [ht]
    rcases h.snapshots sv snapshot hsnapshot with ⟨f, howner, hcold⟩
    rw [howned.snapmap _ _ hcached] at howner
    cases howner
    exact h.start (.inl hfresh) (by simp) (.inr ⟨by simp, hcold⟩)
  | cold c i umiId he hfresh ht =>
    rw [ht]
    exact h.processColdStart hfresh
  | wasted k checkpoint inst sv hcheckpoint hinst hfresh ht =>
    have howner := howned.checkpoints checkpoint (List.mem_of_getElem? hcheckpoint)
    have htaken := h.snapshotTaken hfresh hinst howner
    rw [ht]
    exact ⟨htaken.instances, htaken.snapshots, htaken.starts, htaken.cold⟩
  | stored k checkpoint inst sv hcheckpoint hinst hfresh hfree hroom ht =>
    have howner := howned.checkpoints checkpoint (List.mem_of_getElem? hcheckpoint)
    have htaken := h.snapshotTaken hfresh hinst howner
    rw [ht]
    exact ⟨htaken.instances, htaken.snapshots, htaken.starts, htaken.cold⟩
  | unavailable c core fid hcore ht =>
    rw [ht]
    exact ⟨h.instances, h.snapshots, h.starts, h.cold⟩
  | closed session core halted hsession hcore ht =>
    rw [ht]
    exact ⟨h.instances, h.snapshots, h.starts, h.cold⟩
  | other sessions halted hsessions ht =>
    rw [ht]
    exact ⟨h.instances, h.snapshots, h.starts, h.cold⟩

end Coded

end Deployment
end Seuss
