import Seuss.Data.Ownership
import Seuss.Data.Pool
import Seuss.Deployment.Basic

/-!
This module shows that the instances and snapshots of an invoker node are isolated by function id: an
instance belongs to the function of its first session, and whatever the caches hold at a function id
belongs to that function.
-/

namespace Seuss
namespace Deployment

open Invoker Ownership

variable {n : Nat} {build : Build}

def Instance.owner (inst : Instance) : Option UInt64 :=
  inst.served.head?

def Instance.coldStartedFor (inst : Instance) : Option UInt64 :=
  match inst.origin with
  | .base => inst.owner
  | .snapshot _ => none

def Deployed.instanceOwner (s : Deployed n) : UmiId → Option UInt64 :=
  ownerOf Instance.owner s.instances

def Deployed.coldStarted (s : Deployed n) : UmiId → Option UInt64 :=
  ownerOf Instance.coldStartedFor s.instances

def Deployed.snapshotOwner (s : Deployed n) : SnapshotId → Option UInt64 :=
  ownerOf (fun snapshot => s.coldStarted snapshot.source) s.snapshots

section owners

variable {s t : State n} {path : StartPath} {c : Fin n} {i : Invocation} {umiId : UmiId}
  {inst : Instance}

theorem owner_served (h : ∀ f ∈ inst.served, f = i.info.functionId) :
    Instance.owner { inst with served := inst.served ++ [i.info.functionId] }
      =
    some i.info.functionId := by
  unfold Instance.owner
  cases hserved : inst.served with
  | nil => rfl
  | cons f rest =>
    have hf := h f (by simp [hserved])
    simp [hf]

theorem extends_start {own : Instance → Option UInt64}
    (hown : ∀ f fid, own inst = some f → own { inst with served := inst.served ++ [fid] } = some f)
    (h : s.instances.find? umiId = none ∨ s.instances.find? umiId = some inst) :
    Extends (ownerOf own s.instances) (ownerOf own (s.start path c i umiId inst).instances) := by
  apply extends_insert
  intro b hb f hf
  rcases h with hnone | hsome
  . rw [hnone] at hb
    cases hb
  . rw [hsome] at hb
    cases hb
    exact hown f _ hf

theorem owner_served_of_owner (f fid : UInt64) (h : inst.owner = some f) :
    Instance.owner { inst with served := inst.served ++ [fid] } = some f := by
  unfold Instance.owner at h ⊢
  rw [List.head?_append, h]
  rfl

theorem owner_of_coldStartedFor {f : UInt64} (h : inst.coldStartedFor = some f) :
    inst.origin = .base ∧ inst.owner = some f := by
  unfold Instance.coldStartedFor at h
  split at h
  . next horigin => exact ⟨horigin, h⟩
  . cases h

theorem coldStartedFor_served (f fid : UInt64) (h : inst.coldStartedFor = some f) :
    Instance.coldStartedFor { inst with served := inst.served ++ [fid] } = some f := by
  rcases owner_of_coldStartedFor h with ⟨horigin, howner⟩
  unfold Instance.coldStartedFor
  simp only [horigin]
  exact owner_served_of_owner f fid howner

structure Grows (s t : Deployed n) : Prop where
  instances : Extends s.instanceOwner t.instanceOwner
  coldStarted : Extends s.coldStarted t.coldStarted
  snapshots : Extends s.snapshotOwner t.snapshotOwner

theorem grows_start (h : s.instances.find? umiId = none ∨ s.instances.find? umiId = some inst) :
    Grows s.toDeployed (s.start path c i umiId inst).toDeployed := by
  have hcold : Extends s.coldStarted (s.start path c i umiId inst).coldStarted :=
    extends_start coldStartedFor_served h
  refine ⟨extends_start owner_served_of_owner h, hcold, ?_⟩
  apply extends_ownerOf
  intro snapshot f hf
  exact hcold _ _ hf

theorem snapshotOwner_snapshotTaken {checkpoint : Checkpoint} {sv : SnapshotId} :
    (s.snapshotTaken checkpoint inst sv).snapshotOwner sv = s.coldStarted checkpoint.umiId := by
  unfold Deployed.snapshotOwner State.snapshotTaken
  rw [ownerOf_insert_self]
  rfl

theorem grows_snapshotTaken {checkpoint : Checkpoint} {sv : SnapshotId}
    (hfresh : s.snapshots.find? sv = none) :
    Grows s.toDeployed (s.snapshotTaken checkpoint inst sv).toDeployed := by
  refine ⟨Extends.refl _, Extends.refl _, ?_⟩
  apply extends_insert_fresh
  exact hfresh

end owners

structure Owned (s : State n) : Prop where
  stalled : ∀ c, Keyed s.instanceOwner (s.cores c).stalledInstanceMap
  snapmap : Keyed s.snapshotOwner s.root.snapmap
  sessions : ∀ session ∈ s.sessions, s.instanceOwner session.umiId = some session.fid
  checkpoints : ∀ checkpoint ∈ s.checkpoints,
    s.coldStarted checkpoint.umiId = some checkpoint.fid
  starts : ∀ st ∈ s.starts, s.instanceOwner st.umiId = some st.fid
  served : ∀ umiId inst, s.instances.find? umiId = some inst →
    ∀ f ∈ inst.served, inst.owner = some f
  origins : ∀ umiId inst sv f, s.instances.find? umiId = some inst → inst.origin = .snapshot sv →
    inst.owner = some f → s.snapshotOwner sv = some f

theorem Owned.new (limit reuseLimit : UInt16) : Owned (State.new limit reuseLimit n) where
  stalled := fun _ => Keyed.empty
  snapmap := Keyed.empty
  sessions := by simp [State.new, Deployed.new]
  checkpoints := by simp [State.new, Deployed.new]
  starts := by simp [State.new, Deployed.new]
  served := by simp [State.new, Deployed.new]
  origins := by simp [State.new, Deployed.new]

section Owned

variable {s t : State n} {e : Event n}

theorem Owned.start {path : StartPath} {c : Fin n} {i : Invocation} {umiId : UmiId}
    {inst : Instance} (h : Owned s)
    (hinst : s.instances.find? umiId = none ∨ s.instances.find? umiId = some inst)
    (hserved : ∀ f ∈ inst.served, f = i.info.functionId)
    (horigin : ∀ sv, inst.origin = .snapshot sv → s.snapshotOwner sv = some i.info.functionId) :
    Owned (s.start path c i umiId inst) := by
  have hgrows : Grows s.toDeployed (s.start path c i umiId inst).toDeployed := grows_start hinst
  have howner : (s.start path c i umiId inst).instanceOwner umiId = some i.info.functionId := by
    unfold Deployed.instanceOwner State.start
    rw [ownerOf_insert_self]
    exact owner_served hserved
  refine ⟨?_, ?_, ?_, ?_, ?_, ?_, ?_⟩
  . intro c
    exact (h.stalled c).mono hgrows.instances
  . exact h.snapmap.mono hgrows.snapshots
  . refine Pool.forall_put ?_ howner
    intro session hsession
    exact hgrows.instances _ _ (h.sessions session hsession)
  . intro checkpoint hcheckpoint
    exact hgrows.coldStarted _ _ (h.checkpoints checkpoint hcheckpoint)
  . refine Pool.forall_put ?_ howner
    intro st hst
    exact hgrows.instances _ _ (h.starts st hst)
  . intro u inst' hfind f hf
    simp only [State.start, UnorderedMap.find?_insert] at hfind
    split at hfind
    . cases hfind
      rw [owner_served hserved]
      rw [List.mem_append, List.mem_singleton] at hf
      rcases hf with hf | hf
      . rw [hserved f hf]
      . rw [hf]
    . exact h.served u inst' hfind f hf
  . intro u inst' sv f hfind hsv hf
    apply hgrows.snapshots
    simp only [State.start, UnorderedMap.find?_insert] at hfind
    split at hfind
    . cases hfind
      rw [owner_served hserved] at hf
      cases hf
      exact horigin sv hsv
    . exact h.origins u inst' sv f hfind hsv hf

theorem Owned.processColdStart {c : Fin n} {i : Invocation} {umiId : UmiId} (h : Owned s)
    (hfresh : s.instances.find? umiId = none) : Owned (s.processColdStart c i umiId) := by
  have hstart : Owned (s.start .cold c i umiId { origin := .base, code := i.code, served := [] }) :=
    h.start (.inl hfresh) (by simp) (by simp)
  unfold State.processColdStart
  dsimp only
  split
  . exact hstart
  . refine ⟨hstart.stalled, hstart.snapmap, hstart.sessions, ?_, hstart.starts, hstart.served,
      hstart.origins⟩
    refine Pool.forall_put hstart.checkpoints ?_
    unfold Deployed.coldStarted State.start
    rw [ownerOf_insert_self]
    rfl

theorem Owned.cores {c : Fin n} {core : HotInstances} (h : Owned s)
    (hcore : Keyed s.instanceOwner core.stalledInstanceMap) :
    Owned { s with cores := Function.update s.cores c core } := by
  refine ⟨?_, h.snapmap, h.sessions, h.checkpoints, h.starts, h.served, h.origins⟩
  intro d
  dsimp only
  rw [Function.update_apply]
  split
  . exact hcore
  . exact h.stalled d

theorem Owned.snapshotTaken {checkpoint : Checkpoint} {inst : Instance} {sv : SnapshotId}
    (h : Owned s) (hfresh : s.snapshots.find? sv = none) :
    Owned (s.snapshotTaken checkpoint inst sv) := by
  have hgrows : Grows s.toDeployed (s.snapshotTaken checkpoint inst sv).toDeployed :=
    grows_snapshotTaken hfresh
  refine ⟨h.stalled, h.snapmap.mono hgrows.snapshots, h.sessions, h.checkpoints, h.starts, h.served,
    ?_⟩
  intro u inst' sv f hfind hsv hf
  apply hgrows.snapshots
  exact h.origins u inst' sv f hfind hsv hf

theorem Owned.checkpoints_take (h : Owned s) (k : Nat) (stored deleted : List SnapshotId) :
    Owned {
      s with
      checkpoints := s.checkpoints.eraseIdx k
      stored := stored
      deleted := deleted
    } :=
  ⟨h.stalled, h.snapmap, h.sessions, Pool.forall_take h.checkpoints k, h.starts, h.served, h.origins⟩

theorem Owned.stalled_served {c : Fin n} {fid : UInt64} {umiId : UmiId} {inst : Instance}
    (h : Owned s) (hcached : (s.cores c).stalledInstanceMap.find? fid = some umiId)
    (hinst : s.instances.find? umiId = some inst) :
    inst.owner = some fid ∧ ∀ f ∈ inst.served, f = fid := by
  have howner := h.stalled c _ _ hcached
  rw [Deployed.instanceOwner, ownerOf_eq_some] at howner
  rcases howner with ⟨inst', hinst', howner⟩
  rw [hinst] at hinst'
  cases hinst'
  refine ⟨howner, ?_⟩
  intro f hf
  have hf := h.served umiId inst hinst f hf
  rw [howner] at hf
  cases hf
  rfl

theorem Owned.moved (h : Owned s) (hmoved : Moved s e t) : Owned t := by
  cases hmoved with
  | hot c core i umiId inst he hcached hcore hinst ht =>
    rw [ht]
    rcases h.stalled_served hcached hinst with ⟨howner, hserved⟩
    have hcores : Owned { s with cores := Function.update s.cores c core } := by
      apply h.cores
      rw [hcore]
      exact (h.stalled c).erase _
    refine hcores.start (.inr hinst) hserved ?_
    intro sv hsv
    exact h.origins umiId inst sv _ hinst hsv howner
  | warm c i umiId sv snapshot he hfresh hcached hsnapshot ht =>
    rw [ht]
    refine h.start (.inl hfresh) (by simp) ?_
    intro sv' hsv
    cases hsv
    exact h.snapmap _ _ hcached
  | cold c i umiId he hfresh ht =>
    rw [ht]
    exact h.processColdStart hfresh
  | wasted k checkpoint inst sv hcheckpoint hinst hfresh ht =>
    rw [ht]
    exact (h.snapshotTaken hfresh).checkpoints_take k _ _
  | stored k checkpoint inst sv hcheckpoint hinst hfresh hfree hroom ht =>
    have htaken : Owned (s.snapshotTaken checkpoint inst sv) := h.snapshotTaken hfresh
    have hsource : (s.snapshotTaken checkpoint inst sv).snapshotOwner sv = some checkpoint.fid := by
      rw [snapshotOwner_snapshotTaken]
      exact h.checkpoints checkpoint (List.mem_of_getElem? hcheckpoint)
    rw [ht]
    exact ⟨htaken.stalled, htaken.snapmap.insert hsource, htaken.sessions,
      Pool.forall_take htaken.checkpoints k, htaken.starts, htaken.served, htaken.origins⟩
  | unavailable c core fid hcore ht =>
    rw [ht]
    apply h.cores
    rcases hcore with hcore | hcore
    . rw [hcore]
      exact h.stalled c
    . rw [hcore]
      exact (h.stalled c).erase fid
  | closed session core halted hsession hcore ht =>
    have hcores : Owned { s with cores := Function.update s.cores session.core core } := by
      apply h.cores
      rcases hcore with hcore | hcore
      . rw [hcore]
        exact h.stalled session.core
      . rw [hcore]
        exact (h.stalled session.core).insert (h.sessions session hsession)
    rw [ht]
    exact ⟨hcores.stalled, hcores.snapmap, hcores.sessions, hcores.checkpoints, hcores.starts,
      hcores.served, hcores.origins⟩
  | other sessions halted hsessions ht =>
    rw [ht]
    refine ⟨h.stalled, h.snapmap, ?_, h.checkpoints, h.starts, h.served, h.origins⟩
    intro session hsession
    exact h.sessions session (hsessions session hsession)

end Owned

structure Settled (s : State n) : Prop where
  bootstrapped : s.root.isBootstrapped = true
  size : s.root.snapmap.size ≤ defaultSnapmapLimit
  handed : ∀ sv ∈ s.handed, ∃ snapshot, s.snapshots.find? sv = some snapshot
  nodup : s.handed.Nodup
  fates : (s.stored ++ s.deleted).Perm s.handed
  stored : ∀ sv, sv ∈ s.stored ↔ ∃ f, s.root.snapmap.find? f = some sv

theorem Settled.new (limit reuseLimit : UInt16) : Settled (State.new limit reuseLimit n) where
  bootstrapped := rfl
  size := by simp [State.new, InvokerRoot.bootstrapped]
  handed := by simp [State.new, Deployed.new]
  nodup := by simp [State.new, Deployed.new]
  fates := by simp [State.new, Deployed.new]
  stored := by simp [State.new, Deployed.new, InvokerRoot.bootstrapped]

section Settled

variable {s t : State n} {e : Event n}

theorem Settled.start {path : StartPath} {c : Fin n} {i : Invocation} {umiId : UmiId}
    {inst : Instance} (h : Settled s) : Settled (s.start path c i umiId inst) :=
  ⟨h.bootstrapped, h.size, h.handed, h.nodup, h.fates, h.stored⟩

theorem Settled.handed_put {checkpoint : Checkpoint} {inst : Instance} {sv : SnapshotId}
    (h : Settled s) :
    ∀ sv' ∈ (s.snapshotTaken checkpoint inst sv).handed,
      ∃ snapshot, (s.snapshotTaken checkpoint inst sv).snapshots.find? sv' = some snapshot := by
  apply Pool.forall_put
  . intro sv' hsv'
    rcases h.handed sv' hsv' with ⟨snapshot, hfind⟩
    dsimp only [State.snapshotTaken]
    rw [UnorderedMap.find?_insert]
    split
    . exact ⟨_, rfl⟩
    . exact ⟨snapshot, hfind⟩
  . exact ⟨_, UnorderedMap.find?_insert_self ..⟩

theorem Settled.nodup_put {sv : SnapshotId} (h : Settled s) (hfresh : s.snapshots.find? sv = none) :
    (s.handed ++ [sv]).Nodup := by
  rw [List.nodup_append_comm, List.singleton_append, List.nodup_cons]
  refine ⟨?_, h.nodup⟩
  intro hmem
  rcases h.handed sv hmem with ⟨snapshot, hfind⟩
  rw [hfresh] at hfind
  cases hfind

theorem Settled.moved (h : Settled s) (hmoved : Moved s e t) : Settled t := by
  cases hmoved with
  | hot c core i umiId inst he hcached hcore hinst ht =>
    rw [ht]
    exact ⟨h.bootstrapped, h.size, h.handed, h.nodup, h.fates, h.stored⟩
  | warm c i umiId sv snapshot he hfresh hcached hsnapshot ht =>
    rw [ht]
    exact h.start
  | cold c i umiId he hfresh ht =>
    rw [ht]
    unfold State.processColdStart
    dsimp only
    split
    . exact h.start
    . exact ⟨h.bootstrapped, h.size, h.handed, h.nodup, h.fates, h.stored⟩
  | wasted k checkpoint inst sv hcheckpoint hinst hfresh ht =>
    rw [ht]
    refine ⟨h.bootstrapped, h.size, h.handed_put, h.nodup_put hfresh, ?_, h.stored⟩
    dsimp only [State.snapshotTaken]
    rw [← List.append_assoc]
    exact h.fates.append_right [sv]
  | stored k checkpoint inst sv hcheckpoint hinst hfresh hfree hroom ht =>
    rw [ht]
    refine ⟨h.bootstrapped, ?_, h.handed_put, h.nodup_put hfresh, ?_, ?_⟩
    . dsimp only [State.snapshotTaken]
      rw [UnorderedMap.size_insert_of_not_mem _ (UnorderedMap.find?_eq_none.mp hfree)]
      exact hroom
    . dsimp only [State.snapshotTaken]
      have hswap : (s.stored ++ [sv] ++ s.deleted).Perm (s.stored ++ s.deleted ++ [sv]) := by
        rw [List.append_assoc, List.append_assoc]
        exact List.perm_append_comm.append_left s.stored
      exact hswap.trans (h.fates.append_right [sv])
    . intro sv'
      dsimp only [State.snapshotTaken]
      rw [List.mem_append, List.mem_singleton, h.stored]
      constructor
      . rintro (⟨f, hf⟩ | rfl)
        . refine ⟨f, ?_⟩
          rw [UnorderedMap.find?_insert_ne _ _ _, hf]
          rintro rfl
          rw [hfree] at hf
          cases hf
        . exact ⟨checkpoint.fid, UnorderedMap.find?_insert_self ..⟩
      . rintro ⟨f, hf⟩
        rw [UnorderedMap.find?_insert] at hf
        split at hf
        . cases hf
          exact .inr rfl
        . exact .inl ⟨f, hf⟩
  | unavailable c core fid hcore ht =>
    rw [ht]
    exact ⟨h.bootstrapped, h.size, h.handed, h.nodup, h.fates, h.stored⟩
  | closed session core halted hsession hcore ht =>
    rw [ht]
    exact ⟨h.bootstrapped, h.size, h.handed, h.nodup, h.fates, h.stored⟩
  | other sessions halted hsessions ht =>
    rw [ht]
    exact ⟨h.bootstrapped, h.size, h.handed, h.nodup, h.fates, h.stored⟩

end Settled

-- `sv` was captured from an instance that was cold-started for `f`.
def State.CapturedFor (s : State n) (sv : SnapshotId) (f : UInt64) : Prop :=
  ∃ snapshot source, s.snapshots.find? sv = some snapshot
    ∧ s.instances.find? snapshot.source = some source
    ∧ source.origin = .base
    ∧ source.served.head? = some f

-- Every session of the instance was for `f`, and so was the snapshot it was started from.
def State.BelongsTo (s : State n) (umiId : UmiId) (f : UInt64) : Prop :=
  ∃ inst, s.instances.find? umiId = some inst
    ∧ inst.served ≠ []
    ∧ (∀ g ∈ inst.served, g = f)
    ∧ ∀ sv, inst.origin = .snapshot sv → s.CapturedFor sv f

-- No session of the instance was for `f`, nor was it started from a snapshot that was made for `f`.
def State.Foreign (s : State n) (umiId : UmiId) (f : UInt64) : Prop :=
  ∀ inst, s.instances.find? umiId = some inst →
    f ∉ inst.served ∧ ∀ sv, inst.origin = .snapshot sv → ¬ s.CapturedFor sv f

structure Isolated (s : State n) : Prop where
  stalled : ∀ c f umiId, (s.cores c).stalledInstanceMap.find? f = some umiId → s.BelongsTo umiId f
  snapmap : ∀ f sv, s.root.snapmap.find? f = some sv → s.CapturedFor sv f
  starts : ∀ st ∈ s.starts, s.BelongsTo st.umiId st.fid
  settled : ∀ sv ∈ s.handed, s.stored.count sv + s.deleted.count sv = 1
  handed : ∀ sv ∈ s.stored ++ s.deleted, sv ∈ s.handed
  stored : ∀ sv, sv ∈ s.stored ↔ ∃ f, s.root.snapmap.find? f = some sv
  size : s.root.snapmap.size ≤ defaultSnapmapLimit

section Isolated

variable {limit reuseLimit : UInt16} {s t : State n} {e : Event n}

theorem capturedFor_of_snapshotOwner {sv : SnapshotId} {f : UInt64}
    (h : s.snapshotOwner sv = some f) : s.CapturedFor sv f := by
  rw [Deployed.snapshotOwner, ownerOf_eq_some] at h
  rcases h with ⟨snapshot, hsnapshot, h⟩
  rw [Deployed.coldStarted, ownerOf_eq_some] at h
  rcases h with ⟨source, hsource, h⟩
  exact ⟨snapshot, source, hsnapshot, hsource, owner_of_coldStartedFor h⟩

theorem Owned.belongsTo {umiId : UmiId} {f : UInt64} (h : Owned s)
    (howner : s.instanceOwner umiId = some f) : s.BelongsTo umiId f := by
  rw [Deployed.instanceOwner, ownerOf_eq_some] at howner
  rcases howner with ⟨inst, hinst, howner⟩
  refine ⟨inst, hinst, ?_, ?_, ?_⟩
  . intro hnil
    rw [Instance.owner, hnil] at howner
    cases howner
  . intro g hg
    have hg := h.served umiId inst hinst g hg
    rw [howner] at hg
    cases hg
    rfl
  . intro sv hsv
    apply capturedFor_of_snapshotOwner
    exact h.origins umiId inst sv f hinst hsv howner

theorem State.CapturedFor.unique {sv : SnapshotId} {f g : UInt64} (hf : s.CapturedFor sv f)
    (hg : s.CapturedFor sv g) : f = g := by
  rcases hf with ⟨snapshot, source, hsnapshot, hsource, _, hf⟩
  rcases hg with ⟨snapshot', source', hsnapshot', hsource', _, hg⟩
  cases hsnapshot.symm.trans hsnapshot'
  cases hsource.symm.trans hsource'
  exact Option.some.inj (hf.symm.trans hg)

theorem Settled.count_fates {sv : SnapshotId} (h : Settled s) (hsv : sv ∈ s.handed) :
    s.stored.count sv + s.deleted.count sv = 1 := by
  rw [← List.count_append, h.fates.count_eq]
  exact List.count_eq_one_of_mem h.nodup hsv

theorem isolated_of_inv (howned : Owned s) (hsettled : Settled s) : Isolated s where
  stalled := fun c f umiId hfind => howned.belongsTo (howned.stalled c f umiId hfind)
  snapmap := fun f sv hfind => capturedFor_of_snapshotOwner (howned.snapmap f sv hfind)
  starts := fun st hst => howned.belongsTo (howned.starts st hst)
  settled := fun _ hsv => hsettled.count_fates hsv
  handed := fun _ hsv => hsettled.fates.mem_iff.mp hsv
  stored := hsettled.stored
  size := hsettled.size

theorem machine_step :
    (machine build limit reuseLimit n).step s e = some t ↔ s.step build e = some (.ok t) := by
  apply Machine.bind_toOption_eq_some

theorem inv_of_reachable (h : (machine build limit reuseLimit n).Reachable s) :
    Owned s ∧ Settled s := by
  refine h.invariant (P := fun s => Owned s ∧ Settled s) ⟨.new limit reuseLimit, .new limit reuseLimit⟩
    ?_
  rintro s e t _ ⟨howned, hsettled⟩ hstep
  have hmoved := moved_of_step (machine_step.mp hstep)
  exact ⟨howned.moved hmoved, hsettled.moved hmoved⟩

theorem snapmap_of_moved {f : UInt64} {sv : SnapshotId} (h : Moved s e t)
    (hfind : s.root.snapmap.find? f = some sv) : t.root.snapmap.find? f = some sv := by
  rcases root_of_moved h with hroot | ⟨fid, sv', hfree, hroot⟩
  . rw [hroot]
    exact hfind
  . rw [hroot]
    dsimp only
    rw [UnorderedMap.find?_insert_ne _ _ _, hfind]
    rintro rfl
    rw [hfree] at hfind
    cases hfind

theorem snapmap_of_runFrom {f : UInt64} {sv : SnapshotId} {es : List (Event n)}
    (hrun : (machine build limit reuseLimit n).runFrom s es = some t)
    (hfind : s.root.snapmap.find? f = some sv) : t.root.snapmap.find? f = some sv := by
  induction es generalizing s with
  | nil =>
    cases hrun
    exact hfind
  | cons e es ih =>
    rw [Machine.runFrom_cons] at hrun
    rcases hrun with ⟨u, hstep, hrest⟩
    apply ih hrest
    exact snapmap_of_moved (moved_of_step (machine_step.mp hstep)) hfind

-- `SetSnapshot` neither asserts nor leaves a snapshot lying.
theorem captured_enabled {k : Nat} {checkpoint : Checkpoint} {sv : SnapshotId} (howned : Owned s)
    (hsettled : Settled s) (hcheckpoint : s.checkpoints[k]? = some checkpoint)
    (hfresh : s.snapshots.find? sv = none) :
    ∃ t, s.step build (.captured k sv) = some (.ok t) ∧ t.handed = s.handed ++ [sv] := by
  have howner := howned.checkpoints checkpoint (List.mem_of_getElem? hcheckpoint)
  rw [Deployed.coldStarted, ownerOf_eq_some] at howner
  rcases howner with ⟨inst, hinst, _⟩
  have hset : ∃ root fate, s.root.setSnapshot build checkpoint.fid sv = .ok (root, fate) :=
    InvokerRoot.setSnapshot_of_isBootstrapped hsettled.bootstrapped
  rcases hset with ⟨root, fate, hset⟩
  rw [State.step, if_pos hfresh, hcheckpoint]
  simp only [Option.map_some, State.checkpointReached, hinst, State.snapshotTaken, bind, Except.bind,
    hset]
  cases fate with
  | stored => exact ⟨_, rfl, rfl⟩
  | deleted => exact ⟨_, rfl, rfl⟩

/--
Whatever happens on the cores of a node, its caches never mix functions up, every snapshot is either
stored or deleted, and one that is stored stays.
-/
theorem isolation (h : (machine build limit reuseLimit n).Reachable s) :
    Isolated s
      ∧ (∀ k checkpoint sv, s.checkpoints[k]? = some checkpoint → s.snapshots.find? sv = none →
        ∃ t, (machine build limit reuseLimit n).step s (.captured k sv) = some t
          ∧ t.handed = s.handed ++ [sv])
      ∧ ∀ es t, (machine build limit reuseLimit n).runFrom s es = some t →
        ∀ f sv, s.root.snapmap.find? f = some sv →
          t.root.snapmap.find? f = some sv ∧ sv ∉ t.deleted := by
  rcases inv_of_reachable h with ⟨howned, hsettled⟩
  refine ⟨isolated_of_inv howned hsettled, ?_, ?_⟩
  . intro k checkpoint sv hcheckpoint hfresh
    rcases captured_enabled howned hsettled hcheckpoint hfresh with ⟨t, hstep, hhanded⟩
    exact ⟨t, machine_step.mpr hstep, hhanded⟩
  . intro es t hrun f sv hfind
    have hkept := snapmap_of_runFrom hrun hfind
    have hsettled' := (inv_of_reachable (h.runFrom hrun)).2
    have hstored := (hsettled'.stored sv).mpr ⟨f, hkept⟩
    have hmem := hsettled'.fates.mem_iff.mp (List.mem_append_left t.deleted hstored)
    have hcount := hsettled'.count_fates hmem
    have hpos := List.count_pos_iff.mpr hstored
    refine ⟨hkept, ?_⟩
    rw [← List.count_eq_zero]
    omega

end Isolated

def invocationOf (tid fid : UInt64) : Invocation where
  info := {
    transactionId := tid
    functionId := fid
    argsSize := 0
    activationId := .filled 'a'
    exec := .zero
  }
  code := "code".toList
  args := []

def firstCore : Fin 2 := 0

def secondCore : Fin 2 := 1

-- Two cold starts of a function race for the snapshot, its instance and its snapshot are used again
-- and a session of another function is aborted.
def racingStarts : List (Event 2) :=
  [
    .coldStart firstCore (invocationOf 1 7) 1,
    .coldStart secondCore (invocationOf 2 7) 2,
    .captured 1 10,
    .captured 0 11,
    .closed 0 fun _ => true,
    .finished 0,
    .hotStart firstCore (invocationOf 3 7) fun _ => true,
    .warmStart secondCore (invocationOf 4 7) 3,
    .coldStart firstCore (invocationOf 5 8) 4,
    .aborted 3,
    .closed 1 fun _ => true
  ]

theorem racingStarts_run : ((machine .debug 16 16 2).run racingStarts).isSome := by
  decide

theorem isolation_racingStarts :
    ∃ s, (machine .debug 16 16 2).run racingStarts = some s
      ∧ s.stored = [10]
      ∧ s.deleted = [11]
      ∧ s.starts.map (fun st => (st.path, st.umiId)) = [(.cold, 1), (.cold, 2), (.hot, 1), (.warm, 3),
        (.cold, 4)]
      ∧ Isolated s := by
  have hrun := (Option.some_get racingStarts_run).symm
  refine ⟨_, hrun, by decide, by decide, by decide, ?_⟩
  exact (isolation ⟨racingStarts, hrun⟩).1

end Deployment
end Seuss
