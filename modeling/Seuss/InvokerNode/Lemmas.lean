import Seuss.InvokerNode.Basic

/-!
This module contains what each event of an invoker node does, and that every part of a node behaves as the
part does on its own: the queue and the cores as in `Invoker.machine`, the instances of each core as in
`Idle.machine`.
-/

namespace Seuss
namespace InvokerNode

open Invoker Deployment

variable {n : Nat} {build : Build} {limit hotLimit reuseLimit : UInt16} {s t : State n}

def State.poked (s : State n) (c : Fin n) (node : Node n) : State n :=
  {
    s with
    node := node
    active := Function.update s.active c
      (s.active c ++ entered (s.node.cores c) (node.cores c))
  }

def State.coldOpened (s : State n) (c : Fin n) (k : Nat) (a : Active) (idle : Idle.State)
    (umiId : UmiId) : State n :=
  {
    s.openSession c k a .cold idle umiId with
    checkpoints :=
      if s.node.root.cacheIsFull then
        s.checkpoints
      else
        s.checkpoints ++ [{ fid := a.fid, umiId := umiId }]
  }

def State.captured (s : State n) (k : Nat) (root : InvokerRoot) : State n :=
  { s with node := { s.node with root := root }, checkpoints := s.checkpoints.eraseIdx k }

def State.left (s : State n) (c : Fin n) (k : Nat) (node : Node n) : State n :=
  { s with node := node, active := Function.update s.active c ((s.active c).eraseIdx k) }

inductive Happens (build : Build) (limit : UInt16) (s : State n) : Event n → State n → Prop where
  | addWork (mine : Fin n) (i : Invocation) (node : Node n)
      (hnode : s.node.step build limit (.addWork mine i) = some (.ok node)) :
      Happens build limit s (.addWork mine i) { s with node := node }
  | poke (c : Fin n) (node : Node n) (hnode : s.node.step build limit (.poke c) = some (.ok node)) :
      Happens build limit s (.poke c) (s.poked c node)
  | hotMissed (c : Fin n) (k : Nat) (a : Active) (umiId : UmiId) (managed : UmiId → Bool)
      (idle : Idle.State) (ha : (s.active c)[k]? = some a) (hstage : a.stage = .trying .hot)
      (hidle : (s.idle c).step build (.hotStart a.fid managed) = some (.ok idle))
      (hsession : idle.sessions[(s.idle c).sessions.length]? = none) :
      Happens build limit s (.attempt c k umiId managed)
        ((s.setIdle c idle).setStage c k a (.trying .warm))
  | hotStarted (c : Fin n) (k : Nat) (a : Active) (umiId : UmiId) (managed : UmiId → Bool)
      (idle : Idle.State) (session : Idle.OpenSession) (ha : (s.active c)[k]? = some a)
      (hstage : a.stage = .trying .hot)
      (hidle : (s.idle c).step build (.hotStart a.fid managed) = some (.ok idle))
      (hsession : idle.sessions[(s.idle c).sessions.length]? = some session) :
      Happens build limit s (.attempt c k umiId managed)
        (s.openSession c k a .hot idle session.umiId)
  | warmMissed (c : Fin n) (k : Nat) (a : Active) (umiId : UmiId) (managed : UmiId → Bool)
      (ha : (s.active c)[k]? = some a) (hstage : a.stage = .trying .warm)
      (hsnapshot : s.node.root.snapmap.find? a.fid = none) :
      Happens build limit s (.attempt c k umiId managed) (s.setStage c k a (.trying .cold))
  | warmStarted (c : Fin n) (k : Nat) (a : Active) (umiId : UmiId) (managed : UmiId → Bool)
      (idle : Idle.State) (ha : (s.active c)[k]? = some a) (hstage : a.stage = .trying .warm)
      (hsnapshot : s.node.root.snapmap.find? a.fid ≠ none)
      (hidle : (s.idle c).step build (.start a.fid umiId) = some (.ok idle)) :
      Happens build limit s (.attempt c k umiId managed) (s.openSession c k a .warm idle umiId)
  | coldStarted (c : Fin n) (k : Nat) (a : Active) (umiId : UmiId) (managed : UmiId → Bool)
      (idle : Idle.State) (ha : (s.active c)[k]? = some a) (hstage : a.stage = .trying .cold)
      (hidle : (s.idle c).step build (.start a.fid umiId) = some (.ok idle)) :
      Happens build limit s (.attempt c k umiId managed) (s.coldOpened c k a idle umiId)
  | captured (k : Nat) (sv : SnapshotId) (checkpoint : Checkpoint) (root : InvokerRoot)
      (fate : InvokerRoot.SnapshotFate) (hk : s.checkpoints[k]? = some checkpoint)
      (hroot : s.node.root.setSnapshot build checkpoint.fid sv = .ok (root, fate)) :
      Happens build limit s (.captured k sv) (s.captured k root)
  | closed (c : Fin n) (k j : Nat) (managed : UmiId → Bool) (a : Active) (path : StartPath)
      (session : Idle.OpenSession) (idle : Idle.State) (ha : (s.active c)[k]? = some a)
      (hstage : a.stage = .blocked path session.umiId)
      (hsession : (s.idle c).sessions[j]? = some session)
      (hidle : (s.idle c).step build (.closed j managed) = some (.ok idle)) :
      Happens build limit s (.closed c k j managed)
        ((s.setIdle c idle).setStage c k a .finished)
  | aborted (c : Fin n) (k j : Nat) (a : Active) (path : StartPath) (session : Idle.OpenSession)
      (idle : Idle.State) (ha : (s.active c)[k]? = some a)
      (hstage : a.stage = .blocked path session.umiId)
      (hsession : (s.idle c).sessions[j]? = some session)
      (hidle : (s.idle c).step build (.aborted j) = some (.ok idle)) :
      Happens build limit s (.aborted c k j) (s.sessionAborted c k a path idle)
  | signalHalt (c : Fin n) (j : Nat) (idle : Idle.State)
      (hidle : (s.idle c).step build (.signalHalt j) = some (.ok idle)) :
      Happens build limit s (.signalHalt c j) (s.setIdle c idle)
  | leave (c : Fin n) (k : Nat) (a : Active) (node : Node n) (ha : (s.active c)[k]? = some a)
      (hstage : a.stage = .finished)
      (hnode : s.node.step build limit (.leave c k) = some (.ok node)) :
      Happens build limit s (.leave c k) (s.left c k node)

section step

theorem map_bind_eq_ok {o : Option (Except Fault α)} {f : α → Except Fault β} {b : β} :
    (o.map fun r => r >>= f) = some (.ok b) ↔ ∃ a, o = some (.ok a) ∧ f a = .ok b := by
  cases o with
  | none => simp
  | some r => cases r <;> simp [bind, Except.bind]

variable {c : Fin n} {k : Nat} {a : Active} {umiId : UmiId} {managed : UmiId → Bool}

theorem startInstance_eq_ok {path : StartPath}
    (h : s.startInstance build c k a path umiId = some (.ok t)) :
    ∃ idle, (s.idle c).step build (.start a.fid umiId) = some (.ok idle)
      ∧ t = s.openSession c k a path idle umiId := by
  unfold State.startInstance at h
  split at h
  . rw [map_bind_eq_ok] at h
    rcases h with ⟨idle, hidle, ht⟩
    cases ht
    exact ⟨idle, hidle, rfl⟩
  . cases h

theorem happens_of_attempt (ha : (s.active c)[k]? = some a)
    (h : s.attempt build c k a umiId managed = some (.ok t)) :
    Happens build limit s (.attempt c k umiId managed) t := by
  unfold State.attempt at h
  split at h
  . next hstage =>
    rw [State.processHotStart, map_bind_eq_ok] at h
    rcases h with ⟨idle, hidle, ht⟩
    split at ht
    . next hsession =>
      cases ht
      exact .hotMissed c k a umiId managed idle ha hstage hidle hsession
    . next session hsession =>
      cases ht
      exact .hotStarted c k a umiId managed idle session ha hstage hidle hsession
  . next hstage =>
    unfold State.processWarmStart at h
    split at h
    . cases h
    . next hsnapshot =>
      cases h
      exact .warmMissed c k a umiId managed ha hstage (InvokerRoot.getSnapshot_eq_ok hsnapshot)
    . next sv hsnapshot =>
      rcases startInstance_eq_ok h with ⟨idle, hidle, rfl⟩
      apply Happens.warmStarted c k a umiId managed idle ha hstage _ hidle
      rw [InvokerRoot.getSnapshot_eq_ok hsnapshot]
      simp
  . next hstage =>
    rw [State.processColdStart, map_bind_eq_ok] at h
    rcases h with ⟨u, hstart, ht⟩
    rcases startInstance_eq_ok hstart with ⟨idle, hidle, rfl⟩
    have hopened : t = s.coldOpened c k a idle umiId := by
      unfold State.coldOpened
      split at ht
      . next hfull =>
        cases ht
        rw [if_pos hfull]
        rfl
      . next hroom =>
        cases ht
        rw [if_neg hroom]
        rfl
    rw [hopened]
    exact .coldStarted c k a umiId managed idle ha hstage hidle
  . cases h
  . cases h
  . cases h

theorem endSession_eq_ok {j : Nat} {e : Idle.Event} {resume : Active → StartPath → Idle.State → State n}
    (h : s.endSession build c k j e resume = some (.ok t)) :
    ∃ a path session idle, (s.active c)[k]? = some a
      ∧ a.stage = .blocked path session.umiId
      ∧ (s.idle c).sessions[j]? = some session
      ∧ (s.idle c).step build e = some (.ok idle)
      ∧ t = resume a path idle := by
  rw [State.endSession, Option.bind_eq_some_iff] at h
  rcases h with ⟨a, ha, h⟩
  split at h
  . next path umiId hstage =>
    split at h
    . next hsession =>
      rw [Option.map_eq_some_iff] at hsession
      rcases hsession with ⟨session, hsession, rfl⟩
      rw [map_bind_eq_ok] at h
      rcases h with ⟨idle, hidle, ht⟩
      cases ht
      exact ⟨a, path, session, idle, ha, hstage, hsession, hidle, rfl⟩
    . cases h
  . cases h

theorem happens_of_step {e : Event n} (h : (machine build limit hotLimit reuseLimit n).step s e = some t) :
    Happens build limit s e t := by
  have hs : s.step build limit e = some (.ok t) := Machine.bind_toOption_eq_some.mp h
  cases e with
  | addWork mine i =>
    rw [State.step, map_bind_eq_ok] at hs
    rcases hs with ⟨node, hnode, ht⟩
    cases ht
    exact .addWork mine i node hnode
  | poke c =>
    rw [State.step, map_bind_eq_ok] at hs
    rcases hs with ⟨node, hnode, ht⟩
    cases ht
    exact .poke c node hnode
  | attempt c k umiId managed =>
    rw [State.step, Option.bind_eq_some_iff] at hs
    rcases hs with ⟨a, ha, hs⟩
    exact happens_of_attempt ha hs
  | captured k sv =>
    simp only [State.step, Option.map_eq_some_iff] at hs
    rcases hs with ⟨checkpoint, hk, hs⟩
    simp only [bind, Except.bind] at hs
    split at hs
    . cases hs
    . next r hroot =>
      cases hs
      exact .captured k sv checkpoint r.1 r.2 hk hroot
  | closed c k j managed =>
    rcases endSession_eq_ok hs with ⟨a, path, session, idle, ha, hstage, hsession, hidle, rfl⟩
    exact .closed c k j managed a path session idle ha hstage hsession hidle
  | aborted c k j =>
    rcases endSession_eq_ok hs with ⟨a, path, session, idle, ha, hstage, hsession, hidle, rfl⟩
    exact .aborted c k j a path session idle ha hstage hsession hidle
  | signalHalt c j =>
    rw [State.step, map_bind_eq_ok] at hs
    rcases hs with ⟨idle, hidle, ht⟩
    cases ht
    exact .signalHalt c j idle hidle
  | leave c k =>
    rw [State.step, Option.bind_eq_some_iff] at hs
    rcases hs with ⟨a, ha, hs⟩
    split at hs
    . next hstage =>
      rw [map_bind_eq_ok] at hs
      rcases hs with ⟨node, hnode, ht⟩
      cases ht
      exact .leave c k a node ha hstage hnode
    . cases hs

end step

section parts

variable {e : Event n} {c : Fin n}

theorem idle_cases (h : Happens build limit s e t) (d : Fin n) :
    t.idle d = s.idle d ∨ ∃ e', (s.idle d).step build e' = some (.ok (t.idle d)) := by
  have hset {c : Fin n} {idle : Idle.State} {e' : Idle.Event}
      (hidle : (s.idle c).step build e' = some (.ok idle)) :
      Function.update s.idle c idle d = s.idle d
        ∨ ∃ e', (s.idle d).step build e' = some (.ok (Function.update s.idle c idle d)) := by
    by_cases hd : d = c
    . subst hd
      rw [Function.update_self]
      exact .inr ⟨e', hidle⟩
    . rw [Function.update_of_ne hd]
      exact .inl rfl
  cases h with
  | addWork => exact .inl rfl
  | poke => exact .inl rfl
  | hotMissed _ _ _ _ _ _ _ _ hidle => exact hset hidle
  | hotStarted _ _ _ _ _ _ _ _ _ hidle => exact hset hidle
  | warmMissed => exact .inl rfl
  | warmStarted _ _ _ _ _ _ _ _ _ hidle => exact hset hidle
  | coldStarted _ _ _ _ _ _ _ _ hidle => exact hset hidle
  | captured => exact .inl rfl
  | closed _ _ _ _ _ _ _ _ _ _ _ hidle => exact hset hidle
  | aborted _ _ _ _ _ _ _ _ _ _ hidle => exact hset hidle
  | signalHalt _ _ _ hidle => exact hset hidle
  | leave => exact .inl rfl

theorem idle_reachable (h : (machine build limit hotLimit reuseLimit n).Reachable s) (c : Fin n) :
    (Idle.machine build hotLimit reuseLimit).Reachable (s.idle c) := by
  refine h.project (fun s => s.idle c) (Machine.reachable_init _) ?_
  intro s e t hstep
  rcases idle_cases (happens_of_step hstep) c with hsame | ⟨e', he'⟩
  . exact .inl hsame
  . exact .inr ⟨e', Machine.bind_toOption_eq_some.mpr he'⟩

-- The queue and the cores do without the snapshot cache.
def withoutCache (root : InvokerRoot) : InvokerRoot :=
  { root with snapmap := ∅ }

theorem addWork_withoutCache {root root' : InvokerRoot} {mine : Nat} {i : Invocation}
    {pokes : List Nat} (h : root.addWork build n mine i = .ok (root', pokes)) :
    (withoutCache root).addWork build n mine i = .ok (withoutCache root', pokes) := by
  simp only [InvokerRoot.addWork, bind, Except.bind, withoutCache] at h ⊢
  split at h
  . cases h
  . cases h
    rfl

theorem getWork_withoutCache {root root' : InvokerRoot} {work : Option Invocation}
    (h : root.getWork build = .ok (root', work)) :
    (withoutCache root).getWork build = .ok (withoutCache root', work) := by
  unfold InvokerRoot.getWork at h ⊢
  dsimp only [withoutCache]
  split at h
  . cases h
    rfl
  . split at h
    . cases build <;> simp [Build.kassert, bind, Except.bind] at h
    . cases h
      rfl

theorem poke_eq_ok {root root' : InvokerRoot} {core core' : Core}
    (h : Invoker.poke build limit root core = .ok (root', core')) :
    root' = root ∧ core' = core
      ∨ ∃ i, root.getWork build = .ok (root', some i) ∧ core' = invokeEnter core i := by
  unfold Invoker.poke at h
  split at h
  . cases h
    exact .inl ⟨rfl, rfl⟩
  . simp only [bind, Except.bind] at h
    split at h
    . cases h
    . next r hwork =>
      rcases r with ⟨root'', work⟩
      cases work with
      | none =>
        cases h
        exact .inl ⟨(InvokerRoot.getWork_eq_none hwork).2, rfl⟩
      | some i =>
        cases h
        exact .inr ⟨i, hwork, rfl⟩

theorem step_poke_eq_ok {node node' : Node n} {c : Fin n}
    (h : node.step build limit (.poke c) = some (.ok node')) :
    node'.root = node.root ∧ (node'.cores c).inflight = (node.cores c).inflight
      ∨ ∃ i, node.root.getWork build = .ok (node'.root, some i)
        ∧ (node'.cores c).inflight = (node.cores c).inflight ++ [i] := by
  simp only [Node.step, Option.ite_none_right_eq_some, Option.some.injEq, Node.poke, bind,
    Except.bind] at h
  replace h := h.2
  split at h
  . cases h
  . next hpoke =>
    cases h
    dsimp only
    rw [Function.update_self]
    rcases poke_eq_ok hpoke with ⟨hroot, hcore⟩ | ⟨i, hwork, hcore⟩
    . exact .inl ⟨hroot, by rw [hcore]⟩
    . exact .inr ⟨i, hwork, by rw [hcore]; rfl⟩

theorem poke_withoutCache {root root' : InvokerRoot} {core core' : Core}
    (h : Invoker.poke build limit root core = .ok (root', core')) :
    Invoker.poke build limit (withoutCache root) core = .ok (withoutCache root', core') := by
  unfold Invoker.poke at h ⊢
  split at h
  . next hfull =>
    cases h
    rw [if_pos hfull]
  . next hfree =>
    rw [if_neg hfree]
    simp only [bind, Except.bind] at h ⊢
    split at h
    . cases h
    . next r hwork =>
      rw [getWork_withoutCache hwork]
      dsimp only at h ⊢
      split at h
      . cases h
        rfl
      . cases h
        rfl

def scheduling (node : Node n) : Node n :=
  { node with root := withoutCache node.root }

theorem step_scheduling {node node' : Node n} {e : Invoker.Event n}
    (h : node.step build limit e = some (.ok node')) :
    (scheduling node).step build limit e = some (.ok (scheduling node')) := by
  cases e with
  | addWork mine i =>
    simp only [Node.step, Option.some.injEq, Node.addWork, bind, Except.bind] at h ⊢
    split at h
    . cases h
    . next r hadd =>
      cases h
      dsimp only [scheduling]
      rw [addWork_withoutCache hadd]
  | poke c =>
    simp only [Node.step, Option.ite_none_right_eq_some, Option.some.injEq, Node.poke, bind,
      Except.bind] at h ⊢
    refine ⟨h.1, ?_⟩
    have hpoke := h.2
    split at hpoke
    . cases hpoke
    . next r hr =>
      cases hpoke
      dsimp only [scheduling]
      rw [poke_withoutCache hr]
  | leave c k =>
    simp only [Node.step, Option.ite_none_right_eq_some, Option.some.injEq, Except.ok.injEq] at h ⊢
    rcases h with ⟨hk, rfl⟩
    exact ⟨hk, rfl⟩

theorem withoutCache_setSnapshot {root root' : InvokerRoot} {fid : UInt64} {sv : SnapshotId}
    {fate : InvokerRoot.SnapshotFate} (h : root.setSnapshot build fid sv = .ok (root', fate)) :
    withoutCache root' = withoutCache root := by
  cases fate with
  | stored =>
    rcases InvokerRoot.setSnapshot_eq_stored h with ⟨_, _, rfl⟩
    rfl
  | deleted => rw [InvokerRoot.setSnapshot_eq_deleted h]

theorem node_cases (h : Happens build limit s e t) :
    scheduling t.node = scheduling s.node
      ∨ ∃ e', s.node.step build limit e' = some (.ok t.node) := by
  cases h with
  | addWork _ _ _ hnode => exact .inr ⟨_, hnode⟩
  | poke _ _ hnode => exact .inr ⟨_, hnode⟩
  | hotMissed => exact .inl rfl
  | hotStarted => exact .inl rfl
  | warmMissed => exact .inl rfl
  | warmStarted => exact .inl rfl
  | coldStarted => exact .inl rfl
  | captured _ _ _ root _ _ hroot =>
    left
    dsimp only [scheduling, State.captured]
    rw [withoutCache_setSnapshot hroot]
  | closed => exact .inl rfl
  | aborted => exact .inl rfl
  | signalHalt => exact .inl rfl
  | leave _ _ _ _ _ _ hnode => exact .inr ⟨_, hnode⟩

theorem node_reachable (h : (machine build limit hotLimit reuseLimit n).Reachable s) :
    (Invoker.machine build limit n).Reachable (scheduling s.node) := by
  refine h.project (fun s => scheduling s.node) (Machine.reachable_init _) ?_
  intro s e t hstep
  rcases node_cases (happens_of_step hstep) with hsame | ⟨e', he'⟩
  . exact .inl hsame
  . exact .inr ⟨e', Machine.bind_toOption_eq_some.mpr (step_scheduling he')⟩

end parts

section sessions

variable {idle idle' : Idle.State}

theorem sessions_of_start {fid : UInt64} {umiId : UmiId}
    (h : idle.step build (.start fid umiId) = some (.ok idle')) :
    idle'.sessions = idle.sessions ++ [{ fid := fid, umiId := umiId }] := by
  simp only [Idle.State.step, Option.ite_none_right_eq_some, Option.some.injEq,
    Except.ok.injEq] at h
  rw [← h.2]

theorem sessions_of_hotStart {fid : UInt64} {managed : UmiId → Bool}
    (h : idle.step build (.hotStart fid managed) = some (.ok idle')) :
    idle'.sessions = idle.sessions
      ∨ ∃ umiId, idle'.sessions = idle.sessions ++ [{ fid := fid, umiId := umiId }] := by
  simp only [Idle.State.step, Option.ite_none_right_eq_some, Option.some.injEq,
    Idle.State.processHotStart, bind, Except.bind] at h
  replace h := h.2
  split at h
  . cases h
  . split at h
    . cases h
      exact .inl rfl
    . next umiId _ =>
      cases h
      exact .inr ⟨umiId, rfl⟩

theorem sessions_of_hotStart_missed {fid : UInt64} {managed : UmiId → Bool}
    (h : idle.step build (.hotStart fid managed) = some (.ok idle'))
    (hsession : idle'.sessions[idle.sessions.length]? = none) :
    idle'.sessions = idle.sessions := by
  rcases sessions_of_hotStart h with hsame | ⟨umiId, hopened⟩
  . exact hsame
  . rw [hopened, List.getElem?_concat_length] at hsession
    cases hsession

theorem sessions_of_hotStart_resumed {fid : UInt64} {managed : UmiId → Bool}
    {session : Idle.OpenSession}
    (h : idle.step build (.hotStart fid managed) = some (.ok idle'))
    (hsession : idle'.sessions[idle.sessions.length]? = some session) :
    idle'.sessions = idle.sessions ++ [session] := by
  rcases sessions_of_hotStart h with hsame | ⟨umiId, hopened⟩
  . rw [hsame, List.getElem?_length] at hsession
    cases hsession
  . rw [hopened, List.getElem?_concat_length] at hsession
    cases hsession
    exact hopened

theorem sessions_of_closed {j : Nat} {managed : UmiId → Bool}
    (h : idle.step build (.closed j managed) = some (.ok idle')) :
    idle'.sessions = idle.sessions.eraseIdx j := by
  simp only [Idle.State.step, Option.ite_none_right_eq_some, Option.map_eq_some_iff,
    Idle.State.sessionClosed, bind, Except.bind] at h
  rcases h with ⟨_, session, _, h⟩
  split at h
  . cases h
  . split at h
    . cases h
      rfl
    . cases h
      rfl

theorem sessions_of_aborted {j : Nat} (h : idle.step build (.aborted j) = some (.ok idle')) :
    idle'.sessions = idle.sessions.eraseIdx j := by
  simp only [Idle.State.step, Option.map_eq_some_iff, Except.ok.injEq] at h
  rcases h with ⟨session, _, rfl⟩
  rfl

theorem sessions_of_signalHalt {j : Nat}
    (h : idle.step build (.signalHalt j) = some (.ok idle')) :
    idle'.sessions = idle.sessions := by
  simp only [Idle.State.step, Option.map_eq_some_iff, Except.ok.injEq] at h
  rcases h with ⟨umiId, _, rfl⟩
  rfl

end sessions

section aligned

def Stage.umiId? (stage : Stage) : Option UmiId :=
  match stage with
  | .blocked _ umiId => some umiId
  | _ => none

def blockedOn (active : List Active) : List UmiId :=
  active.filterMap fun a => a.stage.umiId?

/--
The invocations in flight are those that the core counts, and the ones that are blocked wait for the
open sessions of their core.
-/
structure Aligned (s : State n) : Prop where
  inflight : ∀ c, (s.active c).map Active.invocation = (s.node.cores c).inflight
  sessions : ∀ c, (blockedOn (s.active c)).Perm ((s.idle c).sessions.map Idle.OpenSession.umiId)

theorem Aligned.new : Aligned (State.new hotLimit reuseLimit n) where
  inflight := fun _ => rfl
  sessions := fun _ => .refl _

variable {c : Fin n} {k : Nat} {a : Active} {l : List Active} {stage : Stage}

theorem map_invocation_set (h : l[k]? = some a) (stage : Stage) :
    (l.set k { a with stage := stage }).map Active.invocation = l.map Active.invocation := by
  rw [List.map_set]
  apply List.ext_getElem?
  intro j
  by_cases hj : k = j
  . subst hj
    rw [List.getElem?_set_self', List.getElem?_map, h]
    rfl
  . rw [List.getElem?_set_ne hj]

theorem blockedOn_cons (a : Active) (l : List Active) :
    blockedOn (a :: l) = a.stage.umiId?.toList ++ blockedOn l := by
  unfold blockedOn
  rw [List.filterMap_cons]
  cases a.stage.umiId? <;> rfl

theorem blockedOn_append (l₁ l₂ : List Active) :
    blockedOn (l₁ ++ l₂) = blockedOn l₁ ++ blockedOn l₂ := by
  apply List.filterMap_append

theorem perm_blockedOn (h : l[k]? = some a) :
    (a.stage.umiId?.toList ++ blockedOn (l.eraseIdx k)).Perm (blockedOn l) := by
  rw [← blockedOn_cons]
  exact (Pool.perm_of_getElem? h).filterMap _

theorem perm_blockedOn_set (h : l[k]? = some a) (stage : Stage) :
    (blockedOn (l.set k { a with stage := stage })).Perm
      (stage.umiId?.toList ++ blockedOn (l.eraseIdx k)) := by
  have hperm := (Pool.perm_set h { a with stage := stage }).filterMap fun a => a.stage.umiId?
  have hcons := blockedOn_cons { a with stage := stage } (l.eraseIdx k)
  dsimp only at hcons
  rw [← hcons]
  exact hperm

theorem blockedOn_entered (before after : Core) : blockedOn (entered before after) = [] := by
  unfold blockedOn entered
  rw [List.filterMap_map, List.filterMap_eq_nil_iff]
  intro i _
  rfl

theorem inflight_of_poked {root root' : InvokerRoot} {core core' : Core}
    (h : Poked limit root core root' core') :
    ∃ is, core'.inflight = core.inflight ++ is := by
  cases h with
  | full => exact ⟨[], by simp⟩
  | empty => exact ⟨[], by simp⟩
  | entered => exact ⟨_, rfl⟩

theorem inflight_of_poke {node node' : Node n} (h : node.step build limit (.poke c) = some (.ok node')) :
    (∀ d, d ≠ c → (node'.cores d).inflight = (node.cores d).inflight)
      ∧ ∃ is, (node'.cores c).inflight = (node.cores c).inflight ++ is := by
  have hstep : (Invoker.machine build limit n).step node (.poke c) = some node' :=
    Invoker.machine_step.mpr h
  rcases step_poke hstep with ⟨_, hother, hpoked⟩
  constructor
  . intro d hd
    rw [hother d hd]
  . rcases inflight_of_poked hpoked with ⟨is, his⟩
    exact ⟨is, his⟩

theorem map_invocation_entered {before after : Core} {is : List Invocation}
    (h : after.inflight = before.inflight ++ is) :
    (entered before after).map Active.invocation = is := by
  unfold entered
  rw [h, List.drop_left, List.map_map]
  apply List.map_id

theorem Aligned.update (h : Aligned s) {l : List Active} {idle : Idle.State}
    (hactive : t.active = Function.update s.active c l)
    (hidle : t.idle = Function.update s.idle c idle)
    (hother : ∀ d, d ≠ c → (t.node.cores d).inflight = (s.node.cores d).inflight)
    (hinflight : l.map Active.invocation = (t.node.cores c).inflight)
    (hsessions : (blockedOn l).Perm (idle.sessions.map Idle.OpenSession.umiId)) :
    Aligned t := by
  constructor
  . intro d
    rw [hactive]
    by_cases hd : d = c
    . subst hd
      rw [Function.update_self]
      exact hinflight
    . rw [Function.update_of_ne hd, hother d hd]
      exact h.inflight d
  . intro d
    rw [hactive, hidle]
    by_cases hd : d = c
    . subst hd
      rw [Function.update_self, Function.update_self]
      exact hsessions
    . rw [Function.update_of_ne hd, Function.update_of_ne hd]
      exact h.sessions d

theorem Aligned.setStage (h : Aligned s) (ha : (s.active c)[k]? = some a) {idle : Idle.State}
    (hsessions : (stage.umiId?.toList ++ blockedOn ((s.active c).eraseIdx k)).Perm
      (idle.sessions.map Idle.OpenSession.umiId)) :
    Aligned ((s.setIdle c idle).setStage c k a stage) := by
  apply h.update rfl rfl
  . intro d _
    rfl
  . exact (map_invocation_set ha stage).trans (h.inflight c)
  . exact (perm_blockedOn_set ha stage).trans hsessions

theorem Aligned.blockedOn_others (h : Aligned s) (ha : (s.active c)[k]? = some a)
    (hstage : a.stage.umiId? = none) :
    (blockedOn ((s.active c).eraseIdx k)).Perm
      ((s.idle c).sessions.map Idle.OpenSession.umiId) := by
  have hperm := (perm_blockedOn ha).trans (h.sessions c)
  rw [hstage] at hperm
  exact hperm

theorem Aligned.open (h : Aligned s) (ha : (s.active c)[k]? = some a)
    (hstage : a.stage.umiId? = none) {idle : Idle.State} {session : Idle.OpenSession}
    (hidle : idle.sessions = (s.idle c).sessions ++ [session]) (path : StartPath) :
    Aligned ((s.setIdle c idle).setStage c k a (.blocked path session.umiId)) := by
  apply h.setStage ha
  rw [hidle, List.map_append, List.map_singleton]
  exact List.perm_append_comm.trans ((h.blockedOn_others ha hstage).append_right _)

theorem Aligned.end (h : Aligned s) (ha : (s.active c)[k]? = some a) {path : StartPath} {j : Nat}
    {session : Idle.OpenSession} (hstage : a.stage = .blocked path session.umiId)
    (hsession : (s.idle c).sessions[j]? = some session) {idle : Idle.State}
    (hidle : idle.sessions = (s.idle c).sessions.eraseIdx j) (hnew : stage.umiId? = none) :
    Aligned ((s.setIdle c idle).setStage c k a stage) := by
  apply h.setStage ha
  have hblocked := (perm_blockedOn ha).trans (h.sessions c)
  have htaken := (Pool.perm_of_getElem? hsession).map Idle.OpenSession.umiId
  rw [hstage] at hblocked
  rw [hnew, hidle]
  exact (hblocked.trans htaken.symm).cons_inv

theorem Aligned.step {e : Event n} (h : Aligned s) (he : Happens build limit s e t) : Aligned t := by
  cases he with
  | addWork mine i node hnode =>
    have hstep : (Invoker.machine build limit n).step s.node (.addWork mine i) = some node :=
      Invoker.machine_step.mpr hnode
    rcases step_addWork hstep with ⟨_, hcores⟩
    refine ⟨?_, h.sessions⟩
    intro c
    dsimp only
    rw [hcores, spawnPokes_inflight]
    exact h.inflight c
  | poke c node hnode =>
    rcases inflight_of_poke hnode with ⟨hother, is, his⟩
    refine h.update rfl (Function.update_eq_self c s.idle).symm hother ?_ ?_
    . rw [List.map_append, map_invocation_entered his, h.inflight c]
      exact his.symm
    . rw [blockedOn_append, blockedOn_entered, List.append_nil]
      exact h.sessions c
  | hotMissed c k a umiId managed idle ha hstage hidle hsession =>
    apply h.setStage ha
    rw [sessions_of_hotStart_missed hidle hsession]
    exact h.blockedOn_others ha (by rw [hstage]; rfl)
  | hotStarted c k a umiId managed idle session ha hstage hidle hsession =>
    have hopened := h.open ha (by rw [hstage]; rfl) (sessions_of_hotStart_resumed hidle hsession) .hot
    exact ⟨hopened.inflight, hopened.sessions⟩
  | warmMissed c k a umiId managed ha hstage =>
    refine h.update rfl (Function.update_eq_self c s.idle).symm ?_ ?_ ?_
    . intro d _
      rfl
    . exact (map_invocation_set ha _).trans (h.inflight c)
    . apply (perm_blockedOn_set ha _).trans
      exact h.blockedOn_others ha (by rw [hstage]; rfl)
  | warmStarted c k a umiId managed idle ha hstage hsnapshot hidle =>
    have hopened := h.open ha (by rw [hstage]; rfl) (sessions_of_start hidle) .warm
    exact ⟨hopened.inflight, hopened.sessions⟩
  | coldStarted c k a umiId managed idle ha hstage hidle =>
    have hopened := h.open ha (by rw [hstage]; rfl) (sessions_of_start hidle) .cold
    exact ⟨hopened.inflight, hopened.sessions⟩
  | captured => exact ⟨h.inflight, h.sessions⟩
  | closed c k j managed a path session idle ha hstage hsession hidle =>
    exact h.end ha hstage hsession (sessions_of_closed hidle) rfl
  | aborted c k j a path session idle ha hstage hsession hidle =>
    have hended : Aligned ((s.setIdle c idle).setStage c k a (.next path)) := by
      apply h.end ha hstage hsession (sessions_of_aborted hidle)
      cases path <;> rfl
    exact ⟨hended.inflight, hended.sessions⟩
  | signalHalt c j idle hidle =>
    refine h.update (Function.update_eq_self c s.active).symm rfl ?_ ?_ ?_
    . intro d _
      rfl
    . exact h.inflight c
    . rw [sessions_of_signalHalt hidle]
      exact h.sessions c
  | leave c k a node ha hstage hnode =>
    have hstep : (Invoker.machine build limit n).step s.node (.leave c k) = some node :=
      Invoker.machine_step.mpr hnode
    rcases step_leave hstep with ⟨hk, _, hother, hcore⟩
    refine h.update rfl (Function.update_eq_self c s.idle).symm ?_ ?_ ?_
    . intro d hd
      dsimp only [State.left]
      rw [hother d hd]
    . dsimp only [State.left]
      rw [hcore, invokeLeave, ← h.inflight c, List.eraseIdx_map]
    . exact h.blockedOn_others ha (by rw [hstage]; rfl)

theorem aligned_of_reachable (h : (machine build limit hotLimit reuseLimit n).Reachable s) :
    Aligned s := by
  refine h.invariant Aligned.new ?_
  intro s e t _ hs hstep
  exact hs.step (happens_of_step hstep)

end aligned

end InvokerNode
end Seuss
