import Mathlib.Data.Finset.Union
import Mathlib.Data.Fintype.EquivFin
import Seuss.Data.Tally
import Seuss.InvokerNode.Lemmas

/-!
This module contains the progress of an invoker node: what has been queued is served after a bounded number
of further events, whatever their order, and nothing that is on its way is ever stuck.
-/

namespace Seuss
namespace InvokerNode

open Invoker Deployment

variable {n : Nat} {build : Build} {limit hotLimit reuseLimit : UInt16} {s t : State n}

-- A transaction id is not queued twice.
def FreshWork (s : State n) (e : Event n) : Prop :=
  match e with
  | .addWork _ i => s.node.root.requestMap.find? i.info.transactionId = none
  | _ => True

instance (s : State n) (e : Event n) : Decidable (FreshWork s e) :=
  match e with
  | .addWork _ i =>
    inferInstanceAs (Decidable (s.node.root.requestMap.find? i.info.transactionId = none))
  | .poke _ | .attempt _ _ _ _ | .captured _ _ | .closed _ _ _ _ | .aborted _ _ _ | .signalHalt _ _
  | .leave _ _ => instDecidableTrue

def Progresses (_ : State n) (e : Event n) : Prop :=
  match e with
  | .addWork _ _ => False
  | _ => True

instance (s : State n) (e : Event n) : Decidable (Progresses s e) :=
  match e with
  | .addWork _ _ => instDecidableFalse
  | .poke _ | .attempt _ _ _ _ | .captured _ _ | .closed _ _ _ _ | .aborted _ _ _ | .signalHalt _ _
  | .leave _ _ => instDecidableTrue

-- More than what comes next, the halt that is spawned and the checkpoint that is set together.
def Stage.distance (stage : Stage) : Nat :=
  match stage with
  | .trying .hot => 12
  | .blocked .hot _ => 11
  | .trying .warm => 9
  | .blocked .warm _ => 8
  | .trying .cold => 6
  | .blocked .cold _ => 4
  | .finished => 2
  | .failed => 0

def Active.distance (a : Active) : Nat :=
  a.stage.distance

open Finset in
def State.pokes (s : State n) : Nat :=
  ∑ c, (s.node.cores c).pokes

open Finset in
def State.halts (s : State n) : Nat :=
  ∑ c, (s.idle c).pendingHalts.length

def State.distance (s : State n) : Nat :=
  12 * s.node.root.requestQueue.length + s.pokes + Tally.tally Active.distance s.active + s.halts
    + s.checkpoints.length

-- the halts that an event spawns, and those that it signals
def haltsSpawned (e : Idle.Event) : Nat :=
  match e with
  | .closed _ _ | .aborted _ => 1
  | _ => 0

def haltsSignalled (e : Idle.Event) : Nat :=
  match e with
  | .signalHalt _ => 1
  | _ => 0

section distance

variable {c : Fin n} {k : Nat} {a : Active} {stage : Stage} {e : Event n}

theorem pendingHalts_of_step {idle idle' : Idle.State} {e : Idle.Event}
    (h : idle.step build e = some (.ok idle')) :
    idle'.pendingHalts.length + haltsSignalled e ≤ idle.pendingHalts.length + haltsSpawned e := by
  cases e with
  | start fid umiId =>
    simp only [Idle.State.step, Option.ite_none_right_eq_some, Option.some.injEq,
      Except.ok.injEq] at h
    rw [← h.2]
    rfl
  | hotStart fid managed =>
    simp only [Idle.State.step, Option.ite_none_right_eq_some, Option.some.injEq,
      Idle.State.processHotStart, bind, Except.bind] at h
    replace h := h.2
    split at h
    . cases h
    . split at h <;> cases h <;> exact Nat.le_refl _
  | closed j managed =>
    simp only [Idle.State.step, Option.ite_none_right_eq_some, Option.map_eq_some_iff,
      Idle.State.sessionClosed, bind, Except.bind] at h
    rcases h with ⟨_, session, _, h⟩
    split at h
    . cases h
    . split at h
      . cases h
        exact Nat.le_succ _
      . cases h
        simp [haltsSignalled, haltsSpawned]
  | aborted j =>
    simp only [Idle.State.step, Option.map_eq_some_iff, Except.ok.injEq] at h
    rcases h with ⟨session, _, rfl⟩
    simp [haltsSignalled, haltsSpawned]
  | signalHalt j =>
    simp only [Idle.State.step, Option.map_eq_some_iff, Except.ok.injEq] at h
    rcases h with ⟨umiId, hpending, rfl⟩
    exact Nat.le_of_eq (Pool.length_take hpending)

theorem pokes_of_poked {root root' : InvokerRoot} {core core' : Core} (hpos : 0 < core.pokes)
    (h : Poked limit root { core with pokes := core.pokes - 1 } root' core') :
    core'.pokes + 1 = core.pokes := by
  generalize hcore : { core with pokes := core.pokes - 1 } = before at h
  have hpokes : before.pokes + 1 = core.pokes := by
    rw [← hcore]
    dsimp only
    omega
  cases h with
  | full => exact hpokes
  | empty => exact hpokes
  | entered => exact hpokes

theorem taken_of_poked {root root' : InvokerRoot} {core core' : Core}
    (h : Poked limit root core root' core') :
    Tally.weight Active.distance (entered core core') + 12 * root'.requestQueue.length
      = 12 * root.requestQueue.length := by
  cases h with
  | full => simp [entered]
  | empty => simp [entered]
  | entered _ hqueue =>
    rw [hqueue]
    simp [entered, invokeEnter, Active.distance, Stage.distance]
    omega

theorem halts_update {idle : Idle.State} {e : Idle.Event} (hidle : (s.idle c).step build e = some (.ok idle))
    (ht : t.idle = Function.update s.idle c idle) :
    t.halts + haltsSignalled e ≤ s.halts + haltsSpawned e := by
  have hsum := Tally.sum_update (fun idle : Idle.State => idle.pendingHalts.length) s.idle c idle
  have hstep := pendingHalts_of_step hidle
  unfold State.halts
  rw [ht]
  omega

theorem pokes_update {core : Core} (ht : t.node.cores = Function.update s.node.cores c core) :
    t.pokes + (s.node.cores c).pokes = s.pokes + core.pokes := by
  unfold State.pokes
  rw [ht]
  exact Tally.sum_update Core.pokes s.node.cores c core

theorem distance_lt_of_stage {stage' : Stage} (j d : Nat) (ha : (s.active c)[k]? = some a)
    (hstage : a.stage = stage) (hnode : t.node = s.node)
    (hactive : t.active
      = Function.update s.active c ((s.active c).set k { a with stage := stage' }))
    (hhalts : t.halts ≤ s.halts + j) (hcheckpoints : t.checkpoints.length ≤ s.checkpoints.length + d)
    (hlt : stage'.distance + j + d < stage.distance) :
    t.distance < s.distance := by
  have htally : Tally.tally Active.distance t.active + stage.distance
      = Tally.tally Active.distance s.active + stage'.distance := by
    rw [hactive, ← hstage]
    exact Tally.tally_set (f := Active.distance) ha { a with stage := stage' }
  have hpokes : t.pokes = s.pokes := by
    rw [State.pokes, hnode, State.pokes]
  unfold State.distance
  rw [hnode, hpokes]
  omega

theorem cores_of_poke {node node' : Node n} (h : node.step build limit (.poke c) = some (.ok node')) :
    node'.cores = Function.update node.cores c (node'.cores c)
      ∧ (node'.cores c).pokes + 1 = (node.cores c).pokes
      ∧ Tally.weight Active.distance (entered (node.cores c) (node'.cores c))
          + 12 * node'.root.requestQueue.length
        = 12 * node.root.requestQueue.length := by
  have hstep : (Invoker.machine build limit n).step node (.poke c) = some node' :=
    Invoker.machine_step.mpr h
  rcases step_poke hstep with ⟨hpos, hother, hpoked⟩
  have htaken := taken_of_poked hpoked
  exact ⟨Function.eq_update_iff.mpr ⟨rfl, hother⟩, pokes_of_poked hpos hpoked, htaken⟩

theorem distance_of_happens (hprogress : Progresses s e) (h : Happens build limit s e t) :
    t.distance < s.distance := by
  cases h with
  | addWork => cases hprogress
  | poke c node hnode =>
    rcases cores_of_poke hnode with ⟨hcores, hpokes, htaken⟩
    have hsum : (s.poked c node).pokes + (s.node.cores c).pokes = s.pokes + (node.cores c).pokes :=
      pokes_update hcores
    have hactive := Tally.tally_put (f := Active.distance) s.active c
      (entered (s.node.cores c) (node.cores c))
    have hhalts : (s.poked c node).halts = s.halts := rfl
    unfold State.distance
    dsimp only [State.poked] at *
    omega
  | hotMissed c k a umiId managed idle ha hstage hidle =>
    refine distance_lt_of_stage 0 0 ha hstage rfl rfl ?_ (Nat.le_refl _) (by decide)
    exact halts_update hidle rfl
  | hotStarted c k a umiId managed idle session ha hstage hidle =>
    refine distance_lt_of_stage 0 0 ha hstage rfl rfl ?_ (Nat.le_refl _) ?_
    . exact halts_update hidle rfl
    . exact Nat.lt_succ_self _
  | warmMissed c k a umiId managed ha hstage =>
    exact distance_lt_of_stage 0 0 ha hstage rfl rfl (Nat.le_refl _) (Nat.le_refl _) (by decide)
  | warmStarted c k a umiId managed idle ha hstage hsnapshot hidle =>
    refine distance_lt_of_stage 0 0 ha hstage rfl rfl ?_ (Nat.le_refl _) ?_
    . exact halts_update hidle rfl
    . exact Nat.lt_succ_self _
  | coldStarted c k a umiId managed idle ha hstage hidle =>
    refine distance_lt_of_stage 0 1 ha hstage rfl rfl ?_ ?_ ?_
    . exact halts_update hidle rfl
    . unfold State.coldOpened
      split <;> simp
    . exact Nat.lt_succ_self _
  | captured k sv checkpoint root fate hk hroot =>
    have hcache := congrArg InvokerRoot.requestQueue (withoutCache_setSnapshot hroot)
    have hqueue : root.requestQueue = s.node.root.requestQueue := hcache
    have hpokes : (s.captured k root).pokes = s.pokes := rfl
    have hhalts : (s.captured k root).halts = s.halts := rfl
    have htaken := Pool.length_take hk
    unfold State.distance
    rw [hpokes, hhalts]
    dsimp only [State.captured]
    rw [hqueue]
    omega
  | closed c k j managed a path session idle ha hstage hsession hidle =>
    refine distance_lt_of_stage 1 0 ha hstage rfl rfl ?_ (Nat.le_refl _) ?_
    . exact halts_update hidle rfl
    . cases path <;> simp [Stage.distance]
  | aborted c k j a path session idle ha hstage hsession hidle =>
    refine distance_lt_of_stage 1 0 ha hstage rfl rfl ?_ (Nat.le_refl _) ?_
    . exact halts_update hidle rfl
    . cases path <;> simp [Stage.distance, Stage.next]
  | signalHalt c j idle hidle =>
    have hhalts : (s.setIdle c idle).halts + 1 ≤ s.halts := halts_update hidle rfl
    have hpokes : (s.setIdle c idle).pokes = s.pokes := rfl
    unfold State.distance
    rw [hpokes]
    dsimp only [State.setIdle] at *
    omega
  | leave c k a node ha hstage hnode =>
    have hstep : (Invoker.machine build limit n).step s.node (.leave c k) = some node :=
      Invoker.machine_step.mpr hnode
    rcases step_leave hstep with ⟨_, hroot, hother, hcore⟩
    have hcores : node.cores = Function.update s.node.cores c (node.cores c) :=
      Function.eq_update_iff.mpr ⟨rfl, hother⟩
    have hsum : (s.left c k node).pokes + (s.node.cores c).pokes = s.pokes + (node.cores c).pokes :=
      pokes_update hcores
    have hpokes : (node.cores c).pokes = (s.node.cores c).pokes + 1 := by
      rw [hcore]
      rfl
    have htaken := Tally.tally_take (f := Active.distance) ha
    have hhalts : (s.left c k node).halts = s.halts := rfl
    rw [Active.distance, hstage] at htaken
    unfold State.distance
    rw [hhalts]
    dsimp only [State.left, Stage.distance] at *
    rw [hroot]
    omega

end distance

/--
Every transaction id in the queue has its own invocation in the map.
-/
structure Queued (root : InvokerRoot) : Prop where
  isBootstrapped : root.isBootstrapped = true
  keys : root.requestMap.keys.Perm root.requestQueue

section queued

variable {root root' : InvokerRoot} {c : Fin n} {i : Invocation} {e : Event n}

theorem Queued.find? (h : Queued root) {tid : UInt64} (htid : tid ∈ root.requestQueue) :
    ∃ i, root.requestMap.find? tid = some i := by
  rw [← UnorderedMap.mem_iff_find?]
  exact AList.mem_keys.mpr (h.keys.mem_iff.mpr htid)

theorem Queued.addWork {mine : Nat} {pokes : List Nat} (h : Queued root)
    (hfresh : root.requestMap.find? i.info.transactionId = none)
    (hadd : root.addWork build n mine i = .ok (root', pokes)) :
    Queued root' ∧ root'.requestMap.values = i :: root.requestMap.values := by
  rw [InvokerRoot.addWork_of_not_queued hfresh] at hadd
  cases hadd
  have hkeys : i.info.transactionId ∉ root.requestMap.keys := by
    rw [← AList.mem_keys]
    exact UnorderedMap.find?_eq_none.mp hfresh
  refine ⟨⟨h.isBootstrapped, ?_⟩, UnorderedMap.values_insert_of_find?_none i hfresh⟩
  dsimp only
  rw [AList.keys_insert, List.erase_of_not_mem hkeys]
  exact (h.keys.cons _).trans (List.perm_append_singleton _ _).symm

theorem Queued.getWork (h : Queued root) (hwork : root.getWork build = .ok (root', some i)) :
    Queued root' ∧ (i :: root'.requestMap.values).Perm root.requestMap.values := by
  rcases InvokerRoot.getWork_eq_some hwork with ⟨tid, hqueue, hfind, hmap, _⟩
  rw [InvokerRoot.getWork_cons hqueue hfind, Except.ok.injEq, Prod.mk.injEq] at hwork
  have hboot := congrArg InvokerRoot.isBootstrapped hwork.1
  have hkeys := h.keys
  rw [hqueue] at hkeys
  rw [hmap]
  refine ⟨⟨hboot.symm.trans h.isBootstrapped, ?_⟩, UnorderedMap.values_erase_of_find?_some hfind⟩
  rw [hmap, AList.keys_erase]
  have herase := hkeys.erase tid
  rwa [List.erase_cons_head] at herase

theorem Queued.setSnapshot {fid : UInt64} {sv : SnapshotId} {fate : InvokerRoot.SnapshotFate}
    (h : Queued root) (hset : root.setSnapshot build fid sv = .ok (root', fate)) :
    Queued root' ∧ root'.requestMap = root.requestMap := by
  have hcache := withoutCache_setSnapshot hset
  have hmap := congrArg InvokerRoot.requestMap hcache
  have hqueue := congrArg InvokerRoot.requestQueue hcache
  have hboot := congrArg InvokerRoot.isBootstrapped hcache
  dsimp only [withoutCache] at hmap hqueue hboot
  refine ⟨⟨hboot.trans h.isBootstrapped, ?_⟩, hmap⟩
  rw [hmap, hqueue]
  exact h.keys

-- the invocations that an event brings and those that it completes
def Event.added (e : Event n) : List Invocation :=
  match e with
  | .addWork _ i => [i]
  | _ => []

def Event.served (s : State n) (e : Event n) : List Invocation :=
  match e with
  | .leave c k => ((s.active c)[k]?.map Active.invocation).toList
  | _ => []

def isFor (i : Invocation) (a : Active) : Nat :=
  if a.invocation = i then 1 else 0

def State.holds (s : State n) (i : Invocation) : Nat :=
  s.node.root.requestMap.values.count i + Tally.tally (isFor i) s.active

theorem weight_isFor (l : List Active) :
    Tally.weight (isFor i) l = (l.map Active.invocation).count i := by
  induction l with
  | nil => rfl
  | cons a l ih =>
    rw [Tally.weight_cons, ih, List.map_cons, List.count_cons, isFor, Nat.add_comm]
    simp

theorem step_addWork_eq_ok {node node' : Node n} {mine : Fin n}
    (h : node.step build limit (.addWork mine i) = some (.ok node')) :
    ∃ pokes, node.root.addWork build n mine i = .ok (node'.root, pokes) := by
  simp only [Node.step, Option.some.injEq, Node.addWork, bind, Except.bind] at h
  split at h
  . cases h
  . next r hadd =>
    cases h
    exact ⟨r.2, hadd⟩

theorem isFor_setStage {k : Nat} {a : Active} (ha : (s.active c)[k]? = some a) (stage : Stage) :
    Tally.tally (isFor i) (Function.update s.active c ((s.active c).set k { a with stage := stage }))
      =
    Tally.tally (isFor i) s.active :=
  Nat.add_right_cancel (Tally.tally_set (f := isFor i) ha { a with stage := stage })

/--
Invocations are only moved.
-/
theorem holds_of_happens (hqueued : Queued s.node.root) (hfresh : FreshWork s e)
    (h : Happens build limit s e t) :
    Queued t.node.root
      ∧ ∀ i, t.holds i + (e.served s).count i = s.holds i + e.added.count i := by
  cases h with
  | addWork mine i' node hnode =>
    rcases step_addWork_eq_ok hnode with ⟨pokes, hadd⟩
    rcases hqueued.addWork hfresh hadd with ⟨hroot, hvalues⟩
    refine ⟨hroot, ?_⟩
    intro i
    unfold State.holds Event.added Event.served
    dsimp only
    rw [hvalues, List.count_cons, List.count_singleton, List.count_nil]
    omega
  | poke c node hnode =>
    have hactive (i : Invocation) := Tally.tally_put (f := isFor i) s.active c
      (entered (s.node.cores c) (node.cores c))
    simp only [weight_isFor] at hactive
    unfold State.holds State.poked Event.added Event.served
    dsimp only
    rcases step_poke_eq_ok hnode with ⟨hroot, hinflight⟩ | ⟨i', hwork, hinflight⟩
    . have hnone : (node.cores c).inflight = (s.node.cores c).inflight ++ [] := by
        rw [hinflight, List.append_nil]
      simp only [map_invocation_entered hnone] at hactive
      rw [hroot]
      refine ⟨hqueued, ?_⟩
      intro i
      rw [hactive]
      rfl
    . rcases hqueued.getWork hwork with ⟨hroot, hvalues⟩
      simp only [map_invocation_entered hinflight, List.count_singleton] at hactive
      refine ⟨hroot, ?_⟩
      intro i
      have hcount := hvalues.count_eq i
      rw [List.count_cons] at hcount
      rw [hactive]
      omega
  | captured k sv checkpoint root fate hk hroot =>
    rcases hqueued.setSnapshot hroot with ⟨hroot, hmap⟩
    refine ⟨hroot, ?_⟩
    intro i
    unfold State.holds State.captured
    dsimp only
    rw [hmap]
    rfl
  | leave c k a node ha hstage hnode =>
    have hstep : (Invoker.machine build limit n).step s.node (.leave c k) = some node :=
      Invoker.machine_step.mpr hnode
    rcases step_leave hstep with ⟨_, hroot, _, _⟩
    unfold State.holds State.left Event.added Event.served
    dsimp only
    rw [hroot, ha, Option.map_some, Option.toList_some]
    refine ⟨hqueued, ?_⟩
    intro i
    have htaken := Tally.tally_take (f := isFor i) ha
    rw [List.count_singleton]
    unfold isFor at htaken ⊢
    simp only [beq_iff_eq, List.count_nil]
    omega
  | hotMissed c k a _ _ _ ha => exact ⟨hqueued, fun i => congrArg _ (isFor_setStage ha _)⟩
  | hotStarted c k a _ _ _ _ ha => exact ⟨hqueued, fun i => congrArg _ (isFor_setStage ha _)⟩
  | warmMissed c k a _ _ ha => exact ⟨hqueued, fun i => congrArg _ (isFor_setStage ha _)⟩
  | warmStarted c k a _ _ _ ha => exact ⟨hqueued, fun i => congrArg _ (isFor_setStage ha _)⟩
  | coldStarted c k a _ _ _ ha => exact ⟨hqueued, fun i => congrArg _ (isFor_setStage ha _)⟩
  | closed c k _ _ a _ _ _ ha => exact ⟨hqueued, fun i => congrArg _ (isFor_setStage ha _)⟩
  | aborted c k _ a _ _ _ ha => exact ⟨hqueued, fun i => congrArg _ (isFor_setStage ha _)⟩
  | signalHalt => exact ⟨hqueued, fun _ => rfl⟩

end queued

section stuck

variable {c : Fin n} {k : Nat} {a : Active}

variable (build) in
theorem exists_startInstance (s : State n) (c : Fin n) (k : Nat) (a : Active) (path : StartPath) :
    ∃ umiId t, s.startInstance build c k a path umiId = some (.ok t) := by
  have hfresh := Infinite.exists_notMem_finset
    (insert 0 (Finset.univ.biUnion fun d => (s.idle d).created.toFinset))
  rcases hfresh with ⟨umiId, humiId⟩
  simp only [Finset.mem_insert, Finset.mem_biUnion, Finset.mem_univ, true_and, List.mem_toFinset,
    not_or, not_exists] at humiId
  refine ⟨umiId, ?_⟩
  unfold State.startInstance
  rw [if_pos humiId.2, Idle.State.step, if_pos ⟨humiId.1, humiId.2 c⟩]
  exact ⟨_, rfl⟩

theorem Queued.exists_getWork (h : Queued s.node.root) (build : Build) :
    ∃ root work, s.node.root.getWork build = .ok (root, work) := by
  cases hqueue : s.node.root.requestQueue with
  | nil => exact ⟨_, _, InvokerRoot.getWork_nil hqueue⟩
  | cons tid rest =>
    have htid : tid ∈ s.node.root.requestQueue := by simp [hqueue]
    rcases h.find? htid with ⟨i, hfind⟩
    exact ⟨_, _, InvokerRoot.getWork_cons hqueue hfind⟩

theorem Queued.exists_poke (h : Queued s.node.root) (build : Build) (limit : UInt16) (core : Core) :
    ∃ root core', Invoker.poke build limit s.node.root core = .ok (root, core') := by
  unfold Invoker.poke
  split
  . exact ⟨_, _, rfl⟩
  . rcases h.exists_getWork build with ⟨root, work, hwork⟩
    rw [hwork]
    cases work <;> exact ⟨_, _, rfl⟩

theorem Queued.exists_step_poke (h : Queued s.node.root) (build : Build) (limit : UInt16)
    (hpos : 0 < (s.node.cores c).pokes) :
    ∃ t, s.step build limit (.poke c) = some (.ok t) := by
  have hpoke := h.exists_poke build limit { s.node.cores c with pokes := (s.node.cores c).pokes - 1 }
  rcases hpoke with ⟨root, core, hpoke⟩
  rw [State.step, Node.step, if_pos hpos]
  simp only [Node.poke, hpoke]
  exact ⟨_, rfl⟩

theorem Queued.exists_step_captured (h : Queued s.node.root) (build : Build) (limit : UInt16)
    (hcheckpoints : s.checkpoints ≠ []) :
    ∃ t, s.step build limit (.captured 0 0) = some (.ok t) := by
  rcases List.exists_cons_of_ne_nil hcheckpoints with ⟨checkpoint, rest, hcons⟩
  have hset : ∃ root fate, s.node.root.setSnapshot build checkpoint.fid 0 = .ok (root, fate) :=
    InvokerRoot.setSnapshot_of_isBootstrapped h.isBootstrapped
  rcases hset with ⟨root, fate, hset⟩
  rw [State.step, hcons, List.getElem?_cons_zero, Option.map_some, hset]
  exact ⟨_, rfl⟩

theorem exists_attempt_hot (hinv : Idle.Inv (s.idle c)) (ha : (s.active c)[k]? = some a)
    (hstage : a.stage = .trying .hot) (build : Build) (limit : UInt16) :
    ∃ t, s.step build limit (.attempt c k 0 fun _ => true) = some (.ok t) := by
  have hkeeps : (s.idle c).Keeps fun _ => true := fun _ _ _ => rfl
  rcases hinv.processHotStart_cases a.fid hkeeps with ⟨idle, hidle, _⟩
  rw [State.step, ha, Option.bind_some, State.attempt, hstage]
  simp only [State.processHotStart, Idle.State.step, if_pos hkeeps, hidle, Option.map_some]
  simp only [bind, Except.bind]
  split <;> exact ⟨_, rfl⟩

theorem exists_attempt_cold (ha : (s.active c)[k]? = some a) (hstage : a.stage = .trying .cold)
    (build : Build) (limit : UInt16) :
    ∃ umiId t, s.step build limit (.attempt c k umiId fun _ => true) = some (.ok t) := by
  rcases exists_startInstance build s c k a .cold with ⟨umiId, t, ht⟩
  refine ⟨umiId, ?_⟩
  rw [State.step, ha, Option.bind_some, State.attempt, hstage]
  simp only [State.processColdStart, ht, Option.map_some, bind, Except.bind]
  split <;> exact ⟨_, rfl⟩

theorem exists_attempt_warm (hqueued : Queued s.node.root) (ha : (s.active c)[k]? = some a)
    (hstage : a.stage = .trying .warm) (build : Build) (limit : UInt16) :
    ∃ umiId t, s.step build limit (.attempt c k umiId fun _ => true) = some (.ok t) := by
  rcases exists_startInstance build s c k a .warm with ⟨umiId, t, ht⟩
  refine ⟨umiId, ?_⟩
  rw [State.step, ha, Option.bind_some, State.attempt, hstage]
  simp only [State.processWarmStart, InvokerRoot.getSnapshot, hqueued.isBootstrapped,
    Build.kassert_true, bind, Except.bind]
  split
  . next hfault => cases hfault
  . exact ⟨_, rfl⟩
  . exact ⟨t, ht⟩

theorem Aligned.exists_session (haligned : Aligned s) {path : StartPath} {umiId : UmiId}
    (ha : (s.active c)[k]? = some a) (hstage : a.stage = .blocked path umiId) :
    ∃ (j : Nat) (session : Idle.OpenSession), (s.idle c).sessions[j]? = some session
      ∧ session.umiId = umiId := by
  have hblocked : umiId ∈ blockedOn (s.active c) := by
    rw [blockedOn, List.mem_filterMap]
    exact ⟨a, Pool.mem_of_getElem? ha, by rw [hstage]; rfl⟩
  rcases List.mem_map.mp ((haligned.sessions c).mem_iff.mp hblocked) with ⟨session, hsession, humiId⟩
  rcases List.mem_iff_getElem?.mp hsession with ⟨j, hj⟩
  exact ⟨j, session, hj, humiId⟩

theorem Aligned.exists_aborted (haligned : Aligned s) {path : StartPath} {umiId : UmiId}
    (ha : (s.active c)[k]? = some a) (hstage : a.stage = .blocked path umiId) (build : Build)
    (limit : UInt16) :
    ∃ j t, s.step build limit (.aborted c k j) = some (.ok t) := by
  rcases haligned.exists_session ha hstage with ⟨j, session, hj, rfl⟩
  refine ⟨j, ?_⟩
  rw [State.step, State.endSession, ha, Option.bind_some, hstage]
  simp only [hj, Option.map_some, ↓reduceIte, Idle.State.step]
  exact ⟨_, rfl⟩

theorem Aligned.exists_leave (haligned : Aligned s) (ha : (s.active c)[k]? = some a)
    (hstage : a.stage = .finished) (build : Build) (limit : UInt16) :
    ∃ t, s.step build limit (.leave c k) = some (.ok t) := by
  have hk : k < (s.node.cores c).inflight.length := by
    rw [← haligned.inflight c, List.length_map]
    exact History.lt_length_of_getElem? ha
  rw [State.step, ha, Option.bind_some, if_pos hstage, Node.step, if_pos hk]
  exact ⟨_, rfl⟩

-- the events of the invocation `k` of the core `c`
def Event.IsOf (e : Event n) (c : Fin n) (k : Nat) : Prop :=
  match e with
  | .attempt c' k' _ _ | .closed c' k' _ _ | .aborted c' k' _ | .leave c' k' => c' = c ∧ k' = k
  | .addWork _ _ | .poke _ | .captured _ _ | .signalHalt _ _ => False

theorem Event.IsOf.progresses {e : Event n} (h : e.IsOf c k) : Progresses s e := by
  cases e with
  | addWork => cases h
  | _ => trivial

/--
Only an invocation for which every start path has failed is stuck.
-/
theorem exists_step_of_stage (hinv : Idle.Inv (s.idle c)) (haligned : Aligned s)
    (hqueued : Queued s.node.root) (ha : (s.active c)[k]? = some a) (hstage : a.stage ≠ .failed)
    (build : Build) (limit : UInt16) :
    ∃ e t, e.IsOf c k ∧ s.step build limit e = some (.ok t) := by
  cases hstage' : a.stage with
  | trying path =>
    cases path with
    | hot =>
      rcases exists_attempt_hot hinv ha hstage' build limit with ⟨t, ht⟩
      exact ⟨.attempt c k 0 fun _ => true, t, ⟨rfl, rfl⟩, ht⟩
    | warm =>
      rcases exists_attempt_warm hqueued ha hstage' build limit with ⟨umiId, t, ht⟩
      exact ⟨.attempt c k umiId fun _ => true, t, ⟨rfl, rfl⟩, ht⟩
    | cold =>
      rcases exists_attempt_cold ha hstage' build limit with ⟨umiId, t, ht⟩
      exact ⟨.attempt c k umiId fun _ => true, t, ⟨rfl, rfl⟩, ht⟩
  | blocked path umiId =>
    rcases haligned.exists_aborted ha hstage' build limit with ⟨j, t, ht⟩
    exact ⟨.aborted c k j, t, ⟨rfl, rfl⟩, ht⟩
  | finished =>
    rcases haligned.exists_leave ha hstage' build limit with ⟨t, ht⟩
    exact ⟨.leave c k, t, ⟨rfl, rfl⟩, ht⟩
  | failed => exact absurd hstage' hstage

end stuck

section runs

variable {es : List (Event n)}

-- the invocations that a run brings and those that it completes
def added (es : List (Event n)) : List Invocation :=
  es.flatMap Event.added

variable (build) (limit) (hotLimit) (reuseLimit) in
def served (es : List (Event n)) : List Invocation :=
  (machine build limit hotLimit reuseLimit n).outputs (fun s e => e.served s)
    (.new hotLimit reuseLimit n) es

theorem holds_of_run
    (h : ((machine build limit hotLimit reuseLimit n).restrict FreshWork).run es = some s) :
    Queued s.node.root
      ∧ ∀ i, s.holds i + (served build limit hotLimit reuseLimit es).count i = (added es).count i := by
  refine Machine.run_induction _ (P := fun es (s : State n) => Queued s.node.root
    ∧ ∀ i, s.holds i + (served build limit hotLimit reuseLimit es).count i = (added es).count i)
    ?_ ?_ h
  . refine ⟨⟨rfl, .refl _⟩, ?_⟩
    intro i
    have htally : Tally.tally (isFor i) (State.new hotLimit reuseLimit n).active = 0 :=
      Tally.tally_eq_zero fun c a ha => nomatch ha
    change 0 + Tally.tally (isFor i) (State.new hotLimit reuseLimit n).active + 0 = 0
    rw [htally]
  . intro es s e t hs hinv hstep
    have hrun : (machine build limit hotLimit reuseLimit n).runFrom _ es = some s :=
      Machine.runFrom_of_restrict hs
    rw [Machine.restrict_step] at hstep
    rcases hstep with ⟨hfresh, hstep⟩
    rcases holds_of_happens hinv.1 hfresh (happens_of_step hstep) with ⟨hqueued, hholds⟩
    refine ⟨hqueued, ?_⟩
    intro i
    have hbefore := hinv.2 i
    have hafter := hholds i
    have hserved : served build limit hotLimit reuseLimit (es ++ [e])
        = served build limit hotLimit reuseLimit es ++ e.served s := Machine.outputs_concat hrun e
    rw [hserved, added, List.flatMap_append, List.flatMap_singleton, List.count_append,
      List.count_append, ← added]
    omega

theorem not_step_of_end
    (hend : ∀ e, ((machine build limit hotLimit reuseLimit n).restrict Progresses).step s e = none)
    (e : Event n) (he : Progresses s e) (t : State n) :
    s.step build limit e ≠ some (.ok t) := by
  intro hs
  have hstep : ((machine build limit hotLimit reuseLimit n).restrict Progresses).step s e = some t :=
    Machine.restrict_step.mpr ⟨he, Machine.bind_toOption_eq_some.mpr hs⟩
  rw [hend e] at hstep
  cases hstep

structure AtRest (s : State n) : Prop where
  queue : s.node.root.requestQueue = []
  active : ∀ c, s.active c = []
  sessions : ∀ c, (s.idle c).sessions = []
  pendingHalts : ∀ c, (s.idle c).pendingHalts = []
  checkpoints : s.checkpoints = []

-- What is left are invocations that have failed on all start paths.
structure GivenUp (s : State n) : Prop where
  failed : ∀ c, ∀ a ∈ s.active c, a.stage = .failed
  sessions : ∀ c, (s.idle c).sessions = []
  pendingHalts : ∀ c, (s.idle c).pendingHalts = []
  checkpoints : s.checkpoints = []

theorem blockedOn_of_failed {l : List Active} (h : ∀ a ∈ l, a.stage = .failed) : blockedOn l = [] := by
  rw [blockedOn, List.filterMap_eq_nil_iff]
  intro a ha
  rw [h a ha]
  rfl

theorem givenUp_of_end (h : (machine build limit hotLimit reuseLimit n).Reachable s)
    (hqueued : Queued s.node.root)
    (hend : ∀ e, ((machine build limit hotLimit reuseLimit n).restrict Progresses).step s e = none) :
    GivenUp s := by
  have haligned := aligned_of_reachable h
  have hfailed : ∀ c, ∀ a ∈ s.active c, a.stage = .failed := by
    intro c a ha
    by_contra hstage
    rcases List.mem_iff_getElem?.mp ha with ⟨k, hk⟩
    have hinv := (Idle.Inv.of_reachable (idle_reachable h c)).1
    rcases exists_step_of_stage hinv haligned hqueued hk hstage build limit with ⟨e, t, he, ht⟩
    exact not_step_of_end hend e he.progresses t ht
  constructor
  . exact hfailed
  . intro c
    have hsessions := (haligned.sessions c).length_eq
    rw [blockedOn_of_failed (hfailed c), List.length_map] at hsessions
    exact List.eq_nil_of_length_eq_zero hsessions.symm
  . intro c
    by_contra hne
    rcases List.exists_cons_of_ne_nil hne with ⟨umiId, rest, hcons⟩
    have hstep : ∃ t, s.step build limit (.signalHalt c 0) = some (.ok t) := by
      rw [State.step, Idle.State.step, hcons]
      exact ⟨_, rfl⟩
    rcases hstep with ⟨t, ht⟩
    exact not_step_of_end hend (.signalHalt c 0) trivial t ht
  . by_contra hne
    rcases hqueued.exists_step_captured build limit hne with ⟨t, ht⟩
    exact not_step_of_end hend (.captured 0 0) trivial t ht

/--
A node that can do nothing but wait for work has no work left, or it has given up an invocation.
-/
theorem atRest_of_end (hn : 2 ≤ n) (hlimit : 0 < limit)
    (h : (machine build limit hotLimit reuseLimit n).Reachable s) (hqueued : Queued s.node.root)
    (hend : ∀ e, ((machine build limit hotLimit reuseLimit n).restrict Progresses).step s e = none)
    (hfailed : ∀ c, ∀ a ∈ s.active c, a.stage ≠ .failed) :
    AtRest s := by
  have hgivenUp := givenUp_of_end h hqueued hend
  have hactive : ∀ c, s.active c = [] := by
    intro c
    rw [List.eq_nil_iff_forall_not_mem]
    intro a ha
    exact hfailed c a ha (hgivenUp.failed c a ha)
  have hinflight : ∀ c, (s.node.cores c).inflight = [] := by
    intro c
    rw [← (aligned_of_reachable h).inflight c, hactive c]
    rfl
  have hpokes : ∀ c, (s.node.cores c).pokes = 0 := by
    intro c
    by_contra hpos
    rcases hqueued.exists_step_poke build limit (Nat.pos_of_ne_zero hpos) with ⟨t, ht⟩
    exact not_step_of_end hend (.poke c) trivial t ht
  refine ⟨?_, hactive, hgivenUp.sessions, hgivenUp.pendingHalts, hgivenUp.checkpoints⟩
  have hattended := attended_of_two_le hn hlimit (node_reachable h)
  exact requestQueue_nil_of_attended hattended fun c => ⟨hpokes c, hinflight c⟩

theorem freshWork_of_progresses {e : Event n} (he : Progresses s e) : FreshWork s e := by
  cases e with
  | addWork => cases he
  | _ => trivial

theorem added_of_progresses
    (h : ((machine build limit hotLimit reuseLimit n).restrict Progresses).runFrom s es = some t) :
    added es = [] := by
  induction es generalizing s with
  | nil => rfl
  | cons e es ih =>
    rw [Machine.runFrom_cons] at h
    rcases h with ⟨u, hu, ht⟩
    have he : e.added = [] := by
      have hprogress := (Machine.restrict_step.mp hu).1
      cases e with
      | addWork => cases hprogress
      | _ => rfl
    rw [added, List.flatMap_cons, he, List.nil_append]
    exact ih ht

theorem decreases {e : Event n}
    (h : ((machine build limit hotLimit reuseLimit n).restrict Progresses).step s e = some t) :
    t.distance < s.distance := by
  rw [Machine.restrict_step] at h
  exact distance_of_happens h.1 (happens_of_step h.2)

/--
However its events interleave, a node that gets no new work and where no transaction id is queued twice
comes to a rest. Until then an invocation can always take a step of its own, unless all of its start paths
have failed, and none is lost or completed twice. If none has failed in the end, all have been completed.
-/
theorem serves (hn : 2 ≤ n) (hlimit : 0 < limit)
    (h : ((machine build limit hotLimit reuseLimit n).restrict FreshWork).run es = some s) :
    (∃ es' t, ((machine build limit hotLimit reuseLimit n).restrict Progresses).runFrom s es' = some t
        ∧ ∀ e, ((machine build limit hotLimit reuseLimit n).restrict Progresses).step t e = none)
      ∧ ∀ es' t,
        ((machine build limit hotLimit reuseLimit n).restrict Progresses).runFrom s es' = some t →
        es'.length + t.distance ≤ s.distance
          ∧ (∀ c k a, (t.active c)[k]? = some a → a.stage ≠ .failed →
            ∃ e u, e.IsOf c k
              ∧ ((machine build limit hotLimit reuseLimit n).restrict Progresses).step t e = some u)
          ∧ (∀ i, t.holds i + (served build limit hotLimit reuseLimit (es ++ es')).count i
            = (added es).count i)
          ∧ ((∀ e, ((machine build limit hotLimit reuseLimit n).restrict Progresses).step t e = none) →
            GivenUp t
              ∧ ((∀ c, ∀ a ∈ t.active c, a.stage ≠ .failed) →
                AtRest t
                  ∧ (served build limit hotLimit reuseLimit (es ++ es')).Perm (added es))) := by
  have hdecreases : ∀ s e t, True →
      ((machine build limit hotLimit reuseLimit n).restrict Progresses).step s e = some t →
      True ∧ t.distance < s.distance := fun _ _ _ _ hstep => ⟨trivial, decreases hstep⟩
  refine ⟨Machine.exists_maximal_run hdecreases s trivial, ?_⟩
  intro es' t hrest
  have hwhole : ((machine build limit hotLimit reuseLimit n).restrict FreshWork).run (es ++ es') = some t := by
    rw [Machine.run, Machine.runFrom_append]
    exact ⟨s, h, Machine.restrict_mono (fun _ _ => freshWork_of_progresses) hrest⟩
  have hreachable : (machine build limit hotLimit reuseLimit n).Reachable t :=
    Machine.Reachable.of_restrict ⟨_, hwhole⟩
  rcases holds_of_run hwhole with ⟨hqueued, hholds⟩
  have hadded : added (es ++ es') = added es := by
    rw [added, List.flatMap_append, ← added, ← added, added_of_progresses hrest, List.append_nil]
  rw [hadded] at hholds
  refine ⟨(Machine.length_le_of_decreasing hdecreases trivial hrest).2, ?_, hholds, ?_⟩
  . intro c k a ha hstage
    have hinv := (Idle.Inv.of_reachable (idle_reachable hreachable c)).1
    rcases exists_step_of_stage hinv (aligned_of_reachable hreachable) hqueued ha hstage build limit
      with ⟨e, u, he, hu⟩
    exact ⟨e, u, he, Machine.restrict_step.mpr ⟨he.progresses, Machine.bind_toOption_eq_some.mpr hu⟩⟩
  . intro hend
    refine ⟨givenUp_of_end hreachable hqueued hend, ?_⟩
    intro hfailed
    have hrest' := atRest_of_end hn hlimit hreachable hqueued hend hfailed
    refine ⟨hrest', ?_⟩
    rw [List.perm_iff_count]
    intro i
    have hcount := hholds i
    have htally : Tally.tally (isFor i) t.active = 0 :=
      Tally.tally_eq_zero fun c a ha => by
        rw [hrest'.active c] at ha
        cases ha
    have hvalues : t.node.root.requestMap.values = [] := by
      apply List.eq_nil_of_length_eq_zero
      rw [UnorderedMap.length_values, UnorderedMap.size, hqueued.keys.length_eq, hrest'.queue]
      rfl
    rw [State.holds, htally, hvalues, List.count_nil] at hcount
    omega

end runs

-- One invocation is in a cold start, the other one is still queued.
def halfway (mine c : Fin 2) : List (Event 2) :=
  [
    .addWork mine (exampleInvocation 1),
    .addWork mine (exampleInvocation 2),
    .poke c,
    .attempt c 0 0 fun _ => true,
    .attempt c 0 0 fun _ => true,
    .attempt c 0 4 fun _ => true
  ]

theorem halfway_run : (((machine .release 2 0 0 2).restrict FreshWork).run (halfway 0 1)).isSome := by
  decide

theorem serves_halfway :
    ∃ s, ((machine .release 2 0 0 2).restrict FreshWork).run (halfway 0 1) = some s
      ∧ s.node.root.requestQueue = [2]
      ∧ ∃ es t, ((machine .release 2 0 0 2).restrict Progresses).runFrom s es = some t
        ∧ ∀ e, ((machine .release 2 0 0 2).restrict Progresses).step t e = none := by
  have hrun := (Option.some_get halfway_run).symm
  exact ⟨_, hrun, by decide, (serves (by decide) (by decide) hrun).1⟩

end InvokerNode
end Seuss
