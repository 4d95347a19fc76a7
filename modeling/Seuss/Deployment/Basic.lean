import Seuss.Data.Machine
import Seuss.Invoker.HotInstances

/-!
This module contains the instances and snapshots of one invoker node and how the three start paths,
the callbacks of a session and the checkpoint of a cold start use the caches. Each of them is one
step, and they come in any order on any core: the order in which `Invoker::Invoke` tries the paths is
one of them.
-/

namespace Seuss
namespace Deployment

open Invoker

inductive Origin where
  | base
  | snapshot (sv : SnapshotId)
  deriving DecidableEq, Repr

structure Instance where
  origin : Origin
  -- what its first session, or that of the instance its snapshot is from, sends to `/init`
  code : CString
  -- the functions of its sessions, in the order in which they were opened
  served : List UInt64
  deriving DecidableEq

structure Snapshot where
  source : UmiId
  code : CString
  deriving DecidableEq

-- What the callbacks of `new_invocation_session` capture.
structure Session (n : Nat) where
  core : Fin n
  fid : UInt64
  umiId : UmiId
  deriving DecidableEq

-- a `hot_sv_f` that is not fulfilled yet
structure Checkpoint where
  fid : UInt64
  umiId : UmiId
  deriving DecidableEq

inductive StartPath where
  | hot
  | warm
  | cold
  deriving DecidableEq, Repr

structure Start where
  path : StartPath
  invocation : Invocation
  umiId : UmiId
  code : CString
  deriving DecidableEq

def Start.fid (st : Start) : UInt64 :=
  st.invocation.info.functionId

structure Deployed (n : Nat) where
  cores : Fin n → HotInstances
  -- every instance and every snapshot there has been
  instances : UnorderedMap UmiId Instance
  snapshots : UnorderedMap SnapshotId Snapshot
  sessions : List (Session n)
  checkpoints : List Checkpoint
  starts : List Start
  -- the snapshots that `SetSnapshot` was called with, and what it did with them
  handed : List SnapshotId
  stored : List SnapshotId
  deleted : List SnapshotId
  halted : List UmiId

structure State (n : Nat) extends Deployed n where
  root : InvokerRoot

def Deployed.new (limit reuseLimit : UInt16) (n : Nat) : Deployed n where
  cores := fun _ => .new limit reuseLimit
  instances := ∅
  snapshots := ∅
  sessions := []
  checkpoints := []
  starts := []
  handed := []
  stored := []
  deleted := []
  halted := []

def State.new (limit reuseLimit : UInt16) (n : Nat) : State n where
  toDeployed := .new limit reuseLimit n
  root := .bootstrapped

inductive Event (n : Nat) where
  | hotStart (c : Fin n) (i : Invocation) (managed : UmiId → Bool)
  | warmStart (c : Fin n) (i : Invocation) (umiId : UmiId)
  | coldStart (c : Fin n) (i : Invocation) (umiId : UmiId)
  | captured (k : Nat) (sv : SnapshotId)
  | closed (k : Nat) (managed : UmiId → Bool)
  | aborted (k : Nat)
  | finished (k : Nat)

variable {n : Nat} (build : Build)

def Event.start? (e : Event n) : Option (Fin n × Invocation) :=
  match e with
  | .hotStart c i _ | .warmStart c i _ | .coldStart c i _ => some (c, i)
  | _ => none

def State.start (s : State n) (path : StartPath) (c : Fin n) (i : Invocation) (umiId : UmiId)
    (inst : Instance) : State n :=
  let fid := i.info.functionId
  {
    s with
    instances := AList.insert umiId { inst with served := inst.served ++ [fid] } s.instances
    sessions := s.sessions ++ [{ core := c, fid := fid, umiId := umiId }]
    starts := s.starts ++ [{ path := path, invocation := i, umiId := umiId, code := inst.code }]
  }

def State.processHotStart (s : State n) (c : Fin n) (i : Invocation) (managed : UmiId → Bool) :
    Except Fault (State n) := do
  let (core, taken) ← (s.cores c).takeHotInstance managed i.info.functionId
  let s := { s with cores := Function.update s.cores c core }
  match taken with
  | none => .ok s
  | some umiId =>
    match s.instances.find? umiId with
    | none => .error .undefined
    | some inst => .ok (s.start .hot c i umiId inst)

def State.processWarmStart (s : State n) (c : Fin n) (i : Invocation) (umiId : UmiId) :
    Except Fault (State n) := do
  let cachedSnap ← s.root.getSnapshot build i.info.functionId
  match cachedSnap with
  | none => .ok s
  | some sv =>
    match s.snapshots.find? sv with
    | none => .error .undefined
    | some snapshot =>
      .ok (s.start .warm c i umiId { origin := .snapshot sv, code := snapshot.code, served := [] })

def State.processColdStart (s : State n) (c : Fin n) (i : Invocation) (umiId : UmiId) : State n :=
  let s := s.start .cold c i umiId { origin := .base, code := i.code, served := [] }
  if s.root.cacheIsFull then
    s
  else
    { s with checkpoints := s.checkpoints ++ [{ fid := i.info.functionId, umiId := umiId }] }

-- The checkpoint lies behind the initialization of the function, the snapshot has the code of the
-- instance.
def State.snapshotTaken (s : State n) (checkpoint : Checkpoint) (inst : Instance)
    (sv : SnapshotId) : State n :=
  let snapshot := { source := checkpoint.umiId, code := inst.code }
  {
    s with
    snapshots := AList.insert sv snapshot s.snapshots
    handed := s.handed ++ [sv]
  }

def State.checkpointReached (s : State n) (checkpoint : Checkpoint) (sv : SnapshotId) :
    Except Fault (State n) := do
  match s.instances.find? checkpoint.umiId with
  | none => .error .undefined
  | some inst =>
    let s := s.snapshotTaken checkpoint inst sv
    let (root, fate) ← s.root.setSnapshot build checkpoint.fid sv
    match fate with
    | .stored => .ok { s with root := root, stored := s.stored ++ [sv] }
    | .deleted => .ok { s with root := root, deleted := s.deleted ++ [sv] }

def State.sessionClosed (s : State n) (session : Session n) (managed : UmiId → Bool) :
    Except Fault (State n) := do
  let (core, saved) ←
    (s.cores session.core).saveHotInstance build managed session.fid session.umiId
  let s := { s with cores := Function.update s.cores session.core core }
  if saved then
    .ok s
  else
    .ok { s with halted := s.halted ++ [session.umiId] }

def State.sessionAborted (s : State n) (session : Session n) : State n :=
  { s with halted := s.halted ++ [session.umiId] }

-- `none` where the event cannot happen: the identifiers of new instances and snapshots are fresh.
def State.step (s : State n) (e : Event n) : Option (Except Fault (State n)) :=
  match e with
  | .hotStart c i managed => some (s.processHotStart c i managed)
  | .warmStart c i umiId =>
    if umiId ≠ 0 ∧ s.instances.find? umiId = none then
      some (s.processWarmStart build c i umiId)
    else
      none
  | .coldStart c i umiId =>
    if umiId ≠ 0 ∧ s.instances.find? umiId = none then
      some (.ok (s.processColdStart c i umiId))
    else
      none
  | .captured k sv =>
    if s.snapshots.find? sv = none then
      s.checkpoints[k]?.map fun checkpoint =>
        { s with checkpoints := s.checkpoints.eraseIdx k }.checkpointReached build checkpoint sv
    else
      none
  | .closed k managed => s.sessions[k]?.map fun session => s.sessionClosed build session managed
  | .aborted k => s.sessions[k]?.map fun session => .ok (s.sessionAborted session)
  | .finished k => s.sessions[k]?.map fun _ =>
    .ok { s with sessions := s.sessions.eraseIdx k }

def machine (limit reuseLimit : UInt16) (n : Nat) : Machine (State n) (Event n) where
  init := .new limit reuseLimit n
  step s e := (s.step build e).bind Except.toOption

inductive Moved (s : State n) (e : Event n) (t : State n) : Prop where
  | hot (c : Fin n) (core : HotInstances) (i : Invocation) (umiId : UmiId) (inst : Instance)
      (he : e.start? = some (c, i))
      (hcached : (s.cores c).stalledInstanceMap.find? i.info.functionId = some umiId)
      (hcore : core.stalledInstanceMap
        = AList.erase i.info.functionId (s.cores c).stalledInstanceMap)
      (hinst : s.instances.find? umiId = some inst)
      (ht : t = { s with cores := Function.update s.cores c core }.start .hot c i umiId inst)
  | warm (c : Fin n) (i : Invocation) (umiId : UmiId) (sv : SnapshotId) (snapshot : Snapshot)
      (he : e.start? = some (c, i))
      (hfresh : s.instances.find? umiId = none)
      (hcached : s.root.snapmap.find? i.info.functionId = some sv)
      (hsnapshot : s.snapshots.find? sv = some snapshot)
      (ht : t = s.start .warm c i umiId
        { origin := .snapshot sv, code := snapshot.code, served := [] })
  | cold (c : Fin n) (i : Invocation) (umiId : UmiId)
      (he : e.start? = some (c, i))
      (hfresh : s.instances.find? umiId = none)
      (ht : t = s.processColdStart c i umiId)
  | wasted (k : Nat) (checkpoint : Checkpoint) (inst : Instance) (sv : SnapshotId)
      (hcheckpoint : s.checkpoints[k]? = some checkpoint)
      (hinst : s.instances.find? checkpoint.umiId = some inst)
      (hfresh : s.snapshots.find? sv = none)
      (ht : t = {
        s.snapshotTaken checkpoint inst sv with
        checkpoints := s.checkpoints.eraseIdx k
        deleted := s.deleted ++ [sv]
      })
  | stored (k : Nat) (checkpoint : Checkpoint) (inst : Instance) (sv : SnapshotId)
      (hcheckpoint : s.checkpoints[k]? = some checkpoint)
      (hinst : s.instances.find? checkpoint.umiId = some inst)
      (hfresh : s.snapshots.find? sv = none)
      (hfree : s.root.snapmap.find? checkpoint.fid = none)
      (hroom : s.root.snapmap.size < defaultSnapmapLimit)
      (ht : t = {
        s.snapshotTaken checkpoint inst sv with
        checkpoints := s.checkpoints.eraseIdx k
        stored := s.stored ++ [sv]
        root := { s.root with snapmap := AList.insert checkpoint.fid sv s.root.snapmap }
      })
  | unavailable (c : Fin n) (core : HotInstances) (fid : UInt64)
      (hcore : core.stalledInstanceMap = (s.cores c).stalledInstanceMap
        ∨ core.stalledInstanceMap = AList.erase fid (s.cores c).stalledInstanceMap)
      (ht : t = { s with cores := Function.update s.cores c core })
  | closed (session : Session n) (core : HotInstances) (halted : List UmiId)
      (hsession : session ∈ s.sessions)
      (hcore : core.stalledInstanceMap = (s.cores session.core).stalledInstanceMap
        ∨ core.stalledInstanceMap
          = AList.insert session.fid session.umiId (s.cores session.core).stalledInstanceMap)
      (ht : t = {
        s with
        cores := Function.update s.cores session.core core
        halted := halted
      })
  | other (sessions : List (Session n)) (halted : List UmiId)
      (hsessions : ∀ session ∈ sessions, session ∈ s.sessions)
      (ht : t = { s with sessions := sessions, halted := halted })

section step

variable {build} {s t : State n}

theorem moved_of_processHotStart {c : Fin n} {i : Invocation} {managed : UmiId → Bool}
    (h : s.processHotStart c i managed = .ok t) : Moved s (.hotStart c i managed) t := by
  simp only [State.processHotStart, bind, Except.bind] at h
  split at h
  . cases h
  . next v htake =>
    rcases v with ⟨core, taken⟩
    cases taken with
    | none =>
      cases h
      exact .unavailable c _ i.info.functionId (HotInstances.takeHotInstance_eq_none htake) rfl
    | some umiId =>
      dsimp only at h
      split at h
      . cases h
      . next hinst =>
        cases h
        rcases HotInstances.takeHotInstance_eq_some htake with ⟨hcached, hcore⟩
        exact .hot c _ i _ _ rfl hcached hcore hinst rfl

theorem moved_of_processWarmStart {c : Fin n} {i : Invocation} {umiId : UmiId}
    (hfresh : s.instances.find? umiId = none) (h : s.processWarmStart build c i umiId = .ok t) :
    Moved s (.warmStart c i umiId) t := by
  simp only [State.processWarmStart, bind, Except.bind] at h
  split at h
  . cases h
  . next hget =>
    have hcached := InvokerRoot.getSnapshot_eq_ok hget
    split at h
    . cases h
      exact .other s.sessions s.halted (fun _ hmem => hmem) rfl
    . split at h
      . cases h
      . next hsnapshot =>
        cases h
        exact .warm c i umiId _ _ rfl hfresh hcached hsnapshot rfl

theorem moved_of_checkpointReached {k : Nat} {checkpoint : Checkpoint} {sv : SnapshotId}
    (hcheckpoint : s.checkpoints[k]? = some checkpoint) (hfresh : s.snapshots.find? sv = none)
    (h : { s with checkpoints := s.checkpoints.eraseIdx k }.checkpointReached build checkpoint sv
      = .ok t) :
    Moved s (.captured k sv) t := by
  simp only [State.checkpointReached, bind, Except.bind] at h
  split at h
  . cases h
  . next inst hinst =>
    split at h
    . cases h
    . next v hset =>
      rcases v with ⟨root, fate⟩
      cases fate with
      | stored =>
        cases h
        rcases InvokerRoot.setSnapshot_eq_stored hset with ⟨hfree, hroom, rfl⟩
        exact .stored k checkpoint inst sv hcheckpoint hinst hfresh hfree hroom rfl
      | deleted =>
        cases h
        rw [InvokerRoot.setSnapshot_eq_deleted hset]
        exact .wasted k checkpoint inst sv hcheckpoint hinst hfresh rfl

theorem moved_of_sessionClosed {k : Nat} {session : Session n} {managed : UmiId → Bool}
    (hsession : session ∈ s.sessions) (h : s.sessionClosed build session managed = .ok t) :
    Moved s (.closed k managed) t := by
  simp only [State.sessionClosed, bind, Except.bind] at h
  split at h
  . cases h
  . next hsave =>
    have hcore := HotInstances.saveHotInstance_eq_ok hsave
    split at h
    . cases h
      exact .closed session _ s.halted hsession hcore rfl
    . cases h
      exact .closed session _ _ hsession hcore rfl

theorem moved_of_step {e : Event n} (hstep : s.step build e = some (.ok t)) : Moved s e t := by
  cases e with
  | hotStart c i managed =>
    simp only [State.step, Option.some.injEq] at hstep
    exact moved_of_processHotStart hstep
  | warmStart c i umiId =>
    simp only [State.step, Option.ite_none_right_eq_some, Option.some.injEq] at hstep
    exact moved_of_processWarmStart hstep.1.2 hstep.2
  | coldStart c i umiId =>
    simp only [State.step, Option.ite_none_right_eq_some, Option.some.injEq,
      Except.ok.injEq] at hstep
    exact .cold c i umiId rfl hstep.1.2 hstep.2.symm
  | captured k sv =>
    simp only [State.step, Option.ite_none_right_eq_some, Option.map_eq_some_iff] at hstep
    rcases hstep with ⟨hfresh, checkpoint, hcheckpoint, hreached⟩
    exact moved_of_checkpointReached hcheckpoint hfresh hreached
  | closed k managed =>
    simp only [State.step, Option.map_eq_some_iff] at hstep
    rcases hstep with ⟨session, hsession, hclosed⟩
    exact moved_of_sessionClosed (List.mem_of_getElem? hsession) hclosed
  | aborted k =>
    simp only [State.step, Option.map_eq_some_iff, Except.ok.injEq] at hstep
    rcases hstep with ⟨session, hsession, rfl⟩
    exact .other s.sessions _ (fun _ hmem => hmem) rfl
  | finished k =>
    simp only [State.step, Option.map_eq_some_iff, Except.ok.injEq] at hstep
    rcases hstep with ⟨session, hsession, rfl⟩
    exact .other _ s.halted (fun _ hmem => List.mem_of_mem_eraseIdx hmem) rfl

theorem processColdStart_starts (s : State n) (c : Fin n) (i : Invocation) (umiId : UmiId) :
    (s.processColdStart c i umiId).starts
      =
    s.starts ++ [{ path := .cold, invocation := i, umiId := umiId, code := i.code }] := by
  unfold State.processColdStart
  dsimp only
  split <;> rfl

theorem processColdStart_root (s : State n) (c : Fin n) (i : Invocation) (umiId : UmiId) :
    (s.processColdStart c i umiId).root = s.root := by
  unfold State.processColdStart
  dsimp only
  split <;> rfl

theorem starts_of_moved {e : Event n} (h : Moved s e t) :
    t.starts = s.starts
      ∨ ∃ c st, e.start? = some (c, st.invocation) ∧ t.starts = s.starts ++ [st] := by
  cases h with
  | hot c core i umiId inst he hcached hcore hinst ht =>
    rw [ht]
    exact .inr ⟨c, _, he, rfl⟩
  | warm c i umiId sv snapshot he hfresh hcached hsnapshot ht =>
    rw [ht]
    exact .inr ⟨c, _, he, rfl⟩
  | cold c i umiId he hfresh ht =>
    rw [ht, processColdStart_starts]
    exact .inr ⟨c, _, he, rfl⟩
  | wasted | stored | unavailable | closed | other =>
    subst t
    exact .inl rfl

-- The root only ever gets a snapshot at a function that has none.
theorem root_of_moved {e : Event n} (h : Moved s e t) :
    t.root = s.root
      ∨ ∃ fid sv, s.root.snapmap.find? fid = none
        ∧ t.root = { s.root with snapmap := AList.insert fid sv s.root.snapmap } := by
  cases h with
  | stored k checkpoint inst sv hcheckpoint hinst hfresh hfree hroom ht =>
    rw [ht]
    exact .inr ⟨checkpoint.fid, sv, hfree, rfl⟩
  | cold c i umiId he hfresh ht =>
    rw [ht, processColdStart_root]
    exact .inl rfl
  | hot | warm | wasted | unavailable | closed | other =>
    subst t
    exact .inl rfl

end step

end Deployment
end Seuss
