import Seuss.System.EndToEnd
import Seuss.System.WorkQueue

/-!
This module accounts for all the activations of a run: each of them is completed, at one place of the
system, or its request or its reply was lost. If nothing more gets lost, the events of the system alone
complete all that are on their way, in whatever order they come.
-/

namespace Seuss
namespace System

open Msg

-- the transactions of everything that is on its way
def State.tids (s : State) : List UInt64 :=
  s.hosted.spawned.map (·.stats.transactionId)
    ++ s.requests.map (·.header.record.transactionId)
    ++ s.root.requestQueue
    ++ s.working.map (·.info.transactionId)
    ++ s.replies.map (·.header.record.transactionId)

def Event.losesFrom (s : State) (e : Event) : List UInt64 :=
  match e with
  | .loseRequest k => (s.requests[k]?.map (·.header.record.transactionId)).toList
  | .loseReply k => (s.replies[k]?.map (·.header.record.transactionId)).toList
  | _ => []

def Event.futureIn (s : State) (e : Event) : List Nat :=
  match e with
  | .scheduleActivation .. => [s.hosted.clock]
  | _ => []

-- the transactions whose request or reply was lost in a run
def lost (cfg : Config) (es : List Event) : List UInt64 :=
  (machine cfg).outputs (fun s e => e.losesFrom s) .new es

-- the futures that `ScheduleActivation` returned in a run
def futures (cfg : Config) (es : List Event) : List Nat :=
  (machine cfg).outputs (fun s e => e.futureIn s) .new es

def State.promises (s : State) : List Nat :=
  s.hosted.fulfilled.map Controller.Fulfilled.promise
    ++ s.hosted.controller.recordMap.values.map ActivationRecord.promise

section places

variable {cfg : Config} {s s' : State} {e : Event}

theorem State.count_tids (s : State) (tid : UInt64) : s.tids.count tid = s.places tid := by
  simp only [State.tids, List.count_append]
  rfl

theorem State.count_keys (s : State) (tid : UInt64) :
    s.hosted.controller.recordMap.keys.count tid = s.recorded tid := by
  unfold State.recorded
  split
  . next h =>
    apply List.count_eq_one_of_mem s.hosted.controller.recordMap.keys_nodup
    rw [← AList.mem_keys, UnorderedMap.mem_iff_find?]
    exact Option.isSome_iff_exists.mp h
  . next h =>
    rw [List.count_eq_zero, ← AList.mem_keys, ← UnorderedMap.find?_eq_none]
    exact Option.not_isSome_iff_eq_none.mp h

theorem State.recorded_of_none {tid : UInt64}
    (h : s.hosted.controller.recordMap.find? tid = none) : s.recorded tid = 0 := by
  rw [State.recorded, h]
  rfl

theorem State.recorded_of_some {tid : UInt64} {record : ActivationRecord}
    (h : s.hosted.controller.recordMap.find? tid = some record) : s.recorded tid = 1 := by
  rw [State.recorded, h]
  rfl

theorem State.recorded_congr {tid : UInt64}
    (h : s'.hosted.controller.recordMap.find? tid = s.hosted.controller.recordMap.find? tid) :
    s'.recorded tid = s.recorded tid := by
  rw [State.recorded, State.recorded, h]

/--
A reply that can arrive completes a transaction.
-/
theorem Inv.resolveReceived {k : Nat} {buf : IOBuf} {received : Received} {uninit : CompletionMessage}
    {endTime : Time} (hinv : Inv s) (hbuf : s.replies[k]? = some buf)
    (hreceive : SeussChannel.receiveMessage .hosted cfg.hostedBuild buf = .ok received)
    (hresolve : resolveReceived cfg uninit endTime { s with replies := s.replies.eraseIdx k } received
      = .ok s') :
    ∃ istats res record, istats.transactionId = buf.header.record.transactionId
      ∧ s.hosted.controller.recordMap.find? istats.transactionId = some record
      ∧ s' = {
        s with
        hosted := {
          s.hosted with
          controller := {
            s.hosted.controller with
            recordMap := AList.erase istats.transactionId s.hosted.controller.recordMap
          }
          clock := s.hosted.clock + 1
          fulfilled := s.hosted.fulfilled ++ [⟨record.promise, s.hosted.clock,
            Controller.completion uninit record istats res endTime⟩]
        }
        replies := s.replies.eraseIdx k
      } := by
  rcases hinv.receiveMessage_reply hbuf cfg.hostedBuild with ⟨istats, res, hreceive', htid⟩
  cases hreceive.symm.trans hreceive'
  rcases resolveReceived_cases hresolve with ⟨clock, _, _, hnone⟩ | ⟨_, _, record, ⟨⟩, hfind, rfl⟩
  . have hplaces := hinv.places istats.transactionId
    have htake := Pool.count_take (·.header.record.transactionId) hbuf istats.transactionId
    rw [if_pos htid.symm] at htake
    have hrecorded : s.recorded istats.transactionId = 0 :=
      State.recorded_of_none (hnone istats res rfl)
    unfold State.places at hplaces
    omega
  . exact ⟨istats, res, record, htid, hfind, rfl⟩

/--
An event changes the number of places of a transaction just as it changes its record, unless it loses a
message of it.
-/
theorem places_of_step (hinv : Inv s) (hfresh : FreshTid cfg s e) (hs : s.step cfg e = some (.ok s'))
    (tid : UInt64) :
    s'.places tid + (e.losesFrom s).count tid + s.recorded tid = s.places tid + s'.recorded tid := by
  have hother : s'.hosted.controller.recordMap.find? tid
      = s.hosted.controller.recordMap.find? tid → s'.recorded tid = s.recorded tid :=
    State.recorded_congr
  unfold State.places
  cases happens_of_step hs with
  | registerNode hosted hstep =>
    cases hstep
    rw [hother rfl]
    simp only [Event.losesFrom, List.count_nil]
    omega
  | @scheduleActivation env am code hosted hstep =>
    have hnone := Option.isNone_iff_eq_none.mp hfresh
    rcases Controller.State.step_scheduleActivation_eq_ok hnone hstep with ⟨_, hmap, _, _⟩
    rcases Controller.State.step_scheduleActivation_spawned hstep with ⟨event, hspawned, hstats, _⟩
    have htid : event.stats.transactionId = Controller.tid cfg.hash am := by
      rw [hstats]
      rfl
    dsimp only [Event.losesFrom]
    rw [hspawned, Pool.count_put, htid, List.count_nil]
    by_cases heq : Controller.tid cfg.hash am = tid
    . subst heq
      rw [if_pos rfl, State.recorded_of_none hnone, State.recorded_of_some]
      . omega
      . dsimp only
        rw [hmap]
        apply UnorderedMap.find?_insert_self
    . rw [if_neg heq, hother (by rw [hmap, UnorderedMap.find?_insert_ne _ _ (Ne.symm heq)])]
      omega
  | sendRequest event buf hevent hsend =>
    have htake := Pool.count_take (·.stats.transactionId) hevent tid
    rw [SeussChannel.sendRequest_eq] at hsend
    cases hsend
    rw [hother rfl]
    dsimp only [IOBuf.header] at htake ⊢
    simp only [Event.losesFrom, List.count_nil, Pool.count_put]
    omega
  | loseRequest buf hbuf =>
    have htake := Pool.count_take (·.header.record.transactionId) hbuf tid
    rw [hother rfl]
    simp only [Event.losesFrom, hbuf, Option.map_some, Option.toList_some, List.count_singleton,
      beq_iff_eq]
    omega
  | receiveRequest buf received hbuf hreceived hqueue =>
    have htake := Pool.count_take (·.header.record.transactionId) hbuf tid
    rcases hinv.receiveMessage_request hbuf cfg.nativeBuild with ⟨i, hreceive, htid⟩
    have hnone := hinv.not_queued_of_request hbuf
    rw [← htid] at hnone htake
    cases hreceived.symm.trans hreceive
    simp only [queueInvocation, InvokerRoot.addWork_of_not_queued hnone] at hqueue
    cases hqueue
    rw [hother rfl]
    dsimp only [Event.losesFrom]
    rw [List.count_append, List.count_singleton, List.count_nil]
    simp only [beq_iff_eq]
    omega
  | idle root hwork =>
    rw [hother rfl, (InvokerRoot.getWork_eq_none hwork).2]
    simp only [Event.losesFrom, List.count_nil]
    omega
  | getWork root i hwork =>
    rcases InvokerRoot.getWork_eq_some hwork with ⟨tid', hqueue, hfind, _, _⟩
    rw [hother rfl, hqueue, List.count_cons]
    dsimp only [Event.losesFrom]
    rw [Pool.count_put, hinv.keyed tid' i hfind, List.count_nil]
    simp only [beq_iff_eq]
    omega
  | sendReply i buf hi hsend =>
    have htake := Pool.count_take (·.info.transactionId) hi tid
    rw [SeussChannel.sendReply_eq] at hsend
    cases hsend
    rw [hother rfl]
    dsimp only [IOBuf.header] at htake ⊢
    simp only [Event.losesFrom, List.count_nil, Pool.count_put]
    omega
  | loseReply buf hbuf =>
    have htake := Pool.count_take (·.header.record.transactionId) hbuf tid
    rw [hother rfl]
    simp only [Event.losesFrom, hbuf, Option.map_some, Option.toList_some, List.count_singleton,
      beq_iff_eq]
    omega
  | receiveReply buf received hbuf hreceived hresolve =>
    have htake := Pool.count_take (·.header.record.transactionId) hbuf tid
    rcases hinv.resolveReceived hbuf hreceived hresolve with ⟨istats, res, record, htid, hfind, rfl⟩
    rw [← htid] at htake
    dsimp only [Event.losesFrom]
    rw [List.count_nil]
    by_cases heq : istats.transactionId = tid
    . subst heq
      rw [if_pos rfl] at htake
      rw [State.recorded_of_some hfind, State.recorded_of_none (UnorderedMap.find?_erase_self _ _)]
      omega
    . rw [if_neg heq] at htake
      rw [hother (UnorderedMap.find?_erase_ne _ (Ne.symm heq))]
      omega

theorem promises_of_step (hinv : Inv s) (hfresh : FreshTid cfg s e)
    (hs : s.step cfg e = some (.ok s')) : s'.promises.Perm (s.promises ++ e.futureIn s) := by
  unfold State.promises
  cases happens_of_step hs with
  | registerNode hosted hstep =>
    cases hstep
    simp [Event.futureIn, Controller.registerNode]
  | scheduleActivation hosted hstep =>
    have hnone := Option.isNone_iff_eq_none.mp hfresh
    rcases Controller.State.step_scheduleActivation_eq_ok hnone hstep with ⟨_, hmap, _, hful⟩
    dsimp only [Event.futureIn]
    rw [hful, hmap, UnorderedMap.values_insert_of_find?_none _ hnone, List.map_cons]
    exact List.perm_middle.trans (List.perm_append_singleton _ _).symm
  | sendRequest | loseRequest | sendReply | loseReply | idle | getWork => simp [Event.futureIn]
  | receiveRequest buf received hbuf hreceive hqueue =>
    rcases queueInvocation_eq_ok hqueue with ⟨root, added, rfl⟩
    simp [Event.futureIn]
  | receiveReply buf received hbuf hreceived hresolve =>
    rcases hinv.resolveReceived hbuf hreceived hresolve with ⟨istats, res, record, _, hfind, rfl⟩
    dsimp only [Event.futureIn]
    rw [List.map_append, List.append_assoc, List.append_nil]
    apply List.Perm.append_left
    exact (UnorderedMap.values_erase_of_find?_some hfind).map ActivationRecord.promise

end places

section accounting

variable {cfg : Config} {es : List Event} {s : State}

theorem lost_concat (h : (machine cfg).run es = some s) (e : Event) :
    lost cfg (es ++ [e]) = lost cfg es ++ e.losesFrom s := by
  apply Machine.outputs_concat h

theorem futures_concat (h : (machine cfg).run es = some s) (e : Event) :
    futures cfg (es ++ [e]) = futures cfg es ++ e.futureIn s := by
  apply Machine.outputs_concat h

theorem places_of_run (h : ((machine cfg).restrict (FreshTid cfg)).run es = some s) (tid : UInt64) :
    s.places tid + (lost cfg es).count tid = s.recorded tid := by
  refine Machine.run_induction _ (P := fun es s => s.places tid + (lost cfg es).count tid
    = s.recorded tid) ?_ ?_ h
  . rfl
  . intro es s e t hes hplaces hstep
    rw [Machine.restrict_step, machine_step] at hstep
    have hbalance := places_of_step (reachable_inv ⟨es, hes⟩) hstep.1 hstep.2 tid
    rw [lost_concat (Machine.runFrom_of_restrict hes), List.count_append]
    omega

theorem futures_nodup (h : (machine cfg).run es = some s) :
    (futures cfg es).Nodup ∧ ∀ promise ∈ futures cfg es, promise < s.hosted.clock := by
  refine Machine.run_induction _ (P := fun es (s : State) =>
    (futures cfg es).Nodup ∧ ∀ promise ∈ futures cfg es, promise < s.hosted.clock) ?_ ?_ h
  . exact ⟨List.nodup_nil, fun _ h => nomatch h⟩
  . rintro es s e t hes ⟨hnodup, hlt⟩ hstep
    rw [machine_step] at hstep
    have hle := clock_of_step hstep
    rw [futures_concat hes]
    cases e with
    | scheduleActivation env am code =>
      have hnext := clock_of_scheduleActivation hstep
      constructor
      . apply List.nodup_append.mpr
        refine ⟨hnodup, List.nodup_singleton _, ?_⟩
        rintro promise hpromise _ hnew rfl
        have := hlt promise hpromise
        rw [Event.futureIn, List.mem_singleton] at hnew
        omega
      . intro promise hpromise
        rcases List.mem_append.mp hpromise with hpromise | hnew
        . have := hlt promise hpromise
          omega
        . rw [Event.futureIn, List.mem_singleton] at hnew
          omega
    | _ =>
      dsimp only [Event.futureIn]
      rw [List.append_nil]
      refine ⟨hnodup, ?_⟩
      intro promise hpromise
      exact Nat.lt_of_lt_of_le (hlt promise hpromise) hle

theorem promises_of_run (h : ((machine cfg).restrict (FreshTid cfg)).run es = some s) :
    s.promises.Perm (futures cfg es) := by
  refine Machine.run_induction _ (P := fun es s => s.promises.Perm (futures cfg es)) ?_ ?_ h
  . exact .nil
  . intro es s e t hes hpromises hstep
    rw [Machine.restrict_step, machine_step] at hstep
    rw [futures_concat (Machine.runFrom_of_restrict hes)]
    refine (promises_of_step (reachable_inv ⟨es, hes⟩) hstep.1 hstep.2).trans ?_
    exact hpromises.append_right _

-- Where nothing is recorded, all that was promised is fulfilled.
theorem promises_of_keys (h : s.hosted.controller.recordMap.keys = []) :
    s.promises = s.hosted.fulfilled.map Controller.Fulfilled.promise := by
  rw [AList.keys, List.keys, List.map_eq_nil_iff] at h
  rw [State.promises, UnorderedMap.values, h, List.map_nil, List.map_nil, List.append_nil]

theorem keys_of_run (h : ((machine cfg).restrict (FreshTid cfg)).run es = some s) :
    s.hosted.controller.recordMap.keys.Perm (s.tids ++ lost cfg es) := by
  rw [List.perm_iff_count]
  intro tid
  rw [State.count_keys, List.count_append, State.count_tids, places_of_run h]

/--
Every future that was returned is either fulfilled or still recorded, each one once, and what is recorded
is either on its way, at one place, or has lost a message. An invocation that was dequeued is at its core
until it is replied to, which happens once at most.
-/
theorem accounting (h : ((machine cfg).restrict (FreshTid cfg)).run es = some s) :
    (s.hosted.fulfilled.map Controller.Fulfilled.promise
        ++ s.hosted.controller.recordMap.values.map ActivationRecord.promise).Perm (futures cfg es)
      ∧ s.hosted.controller.recordMap.keys.Perm (s.tids ++ lost cfg es) :=
  ⟨promises_of_run h, keys_of_run h⟩

end accounting

-- One request is lost, one activation is completed and one is still queued.
def lossy : List Event :=
  let env : Controller.ScheduleEnv :=
    { getAction := fun _ => "code".toList, now := 0, beyond := fun _ => 'x' }
  let uninit : CompletionMessage :=
    .ofActivation ⟨⟨[], 0⟩, { statusCode := 0 }, ⟨0, []⟩⟩ (testActivation [] [])
  [
    .registerNode 4 "10.0.0.2".toList,
    .scheduleActivation env (testActivation "a".toList "r".toList) [],
    .scheduleActivation env (testActivation "bb".toList "r".toList) [],
    .scheduleActivation env (testActivation "ccc".toList "r".toList) [],
    .sendRequest 0,
    .sendRequest 0,
    .loseRequest 0,
    .sendRequest 0,
    .receiveRequest 0 0,
    .receiveRequest 0 0,
    .getWork 1,
    .sendReply 0 .zero "[2]".toList,
    .receiveReply 0 uninit 9000000
  ]

theorem lossy_run :
    (((machine rescheduledConfig).restrict (FreshTid rescheduledConfig)).run lossy).isSome := by
  decide

theorem accounting_lossy :
    ∃ s, ((machine rescheduledConfig).restrict (FreshTid rescheduledConfig)).run lossy = some s
      ∧ s.promises.Perm [1, 2, 3]
      ∧ s.hosted.controller.recordMap.keys.Perm ([3] ++ [1]) := by
  have hrun := (Option.some_get lossy_run).symm
  exact ⟨_, hrun, (accounting hrun).1, (accounting hrun).2⟩

-- An event that passes something on: no new call, no loss and no core that finds the queue empty.
def Productive (s : State) (e : Event) : Prop :=
  match e with
  | .sendRequest _ | .receiveRequest _ _ | .sendReply _ _ _ | .receiveReply _ _ _ => True
  | .getWork _ => s.root.requestQueue ≠ []
  | _ => False

instance (s : State) (e : Event) : Decidable (Productive s e) := by
  unfold Productive
  split <;> infer_instance

-- how many events all that is on its way is away from its completion
def State.distance (s : State) : Nat :=
  5 * s.hosted.spawned.length + 4 * s.requests.length + 3 * s.root.requestQueue.length
    + 2 * s.working.length + s.replies.length

section progress

variable {cfg : Config} {es : List Event} {s s' : State} {e : Event}

theorem distance_of_step (hinv : Inv s) (he : Productive s e) (hs : s.step cfg e = some (.ok s')) :
    s'.distance + 1 = s.distance := by
  unfold State.distance
  cases happens_of_step hs with
  | registerNode | scheduleActivation | loseRequest | loseReply => cases he
  | sendRequest event buf hevent hsend =>
    have hlen := Pool.length_take hevent
    rw [List.length_append, List.length_singleton]
    dsimp only
    omega
  | receiveRequest buf received hbuf hreceived hqueue =>
    have hlen := Pool.length_take hbuf
    rcases hinv.receiveMessage_request hbuf cfg.nativeBuild with ⟨i, hreceive, htid⟩
    have hnone := hinv.not_queued_of_request hbuf
    rw [← htid] at hnone
    cases hreceived.symm.trans hreceive
    simp only [queueInvocation, InvokerRoot.addWork_of_not_queued hnone] at hqueue
    cases hqueue
    rw [List.length_append, List.length_singleton]
    dsimp only
    omega
  | idle root hwork => exact absurd (InvokerRoot.getWork_eq_none hwork).1 he
  | getWork root i hwork =>
    rcases InvokerRoot.getWork_eq_some hwork with ⟨tid, hqueue, _⟩
    rw [hqueue]
    simp only [List.length_append, List.length_cons, List.length_nil]
    omega
  | sendReply i buf hi hsend =>
    have hlen := Pool.length_take hi
    rw [List.length_append, List.length_singleton]
    dsimp only
    omega
  | receiveReply buf received hbuf hreceived hresolve =>
    have hlen := Pool.length_take hbuf
    rcases hinv.resolveReceived hbuf hreceived hresolve with ⟨_, _, _, _, _, rfl⟩
    dsimp only
    omega

theorem distance_of_scheduleActivation {env : Controller.ScheduleEnv} {am : ActivationMessage}
    {code : CString} (hs : s.step cfg (.scheduleActivation env am code) = some (.ok s')) :
    s'.distance = s.distance + 5 := by
  unfold State.distance
  cases happens_of_step hs with
  | scheduleActivation hosted hstep =>
    rcases Controller.State.step_scheduleActivation_spawned hstep with ⟨event, hspawned, _⟩
    dsimp only
    rw [hspawned, List.length_append, List.length_singleton]
    omega

variable (cfg) in
theorem step_scheduleActivation {am : ActivationMessage}
    (hnids : s.hosted.controller.nids ≠ [])
    (hfresh : s.hosted.controller.recordMap.find? (Controller.tid cfg.hash am) = none)
    (env : Controller.ScheduleEnv) (code : CString) :
    ∃ s', s.step cfg (.scheduleActivation env am code) = some (.ok s') := by
  rcases List.exists_cons_of_ne_nil hnids with ⟨nid, nids, hnids⟩
  simp only [State.step, Controller.State.step, Controller.scheduleActivation, hnids,
    UnorderedMap.emplace_of_find?_none _ hfresh, Build.kassert_true, bind, Except.bind]
  exact ⟨_, rfl⟩

variable (cfg) in
theorem step_sendRequest {k : Nat} {event : SendRequestEvent}
    (hevent : s.hosted.spawned[k]? = some event) :
    ∃ s', s.step cfg (.sendRequest k) = some (.ok s') := by
  rw [State.step, hevent, Option.map_some, SeussChannel.sendRequest_eq]
  exact ⟨_, rfl⟩

variable (cfg) in
theorem Inv.step_receiveRequest {k : Nat} {buf : IOBuf} (hinv : Inv s)
    (hbuf : s.requests[k]? = some buf) (core : Nat) :
    ∃ s', s.step cfg (.receiveRequest core k) = some (.ok s') := by
  rcases hinv.receiveMessage_request hbuf cfg.nativeBuild with ⟨i, hreceive, htid⟩
  have hnone := hinv.not_queued_of_request hbuf
  rw [← htid] at hnone
  rw [State.step, hbuf, Option.map_some, hreceive]
  simp only [bind, Except.bind, queueInvocation, InvokerRoot.addWork_of_not_queued hnone]
  exact ⟨_, rfl⟩

variable (cfg) in
theorem Inv.step_getWork (hinv : Inv s) (core : Nat) (hqueue : s.root.requestQueue ≠ []) :
    ∃ s', s.step cfg (.getWork core) = some (.ok s') := by
  rcases List.exists_cons_of_ne_nil hqueue with ⟨tid, rest, hcons⟩
  rcases hinv.queue_find? tid (by simp [hcons]) with ⟨i, hfind⟩
  simp only [State.step, InvokerRoot.getWork_cons hcons hfind, bind, Except.bind]
  exact ⟨_, rfl⟩

variable (cfg) in
theorem step_sendReply {k : Nat} {i : Invocation} (hi : s.working[k]? = some i) (exec : ExecStats)
    (res : CString) :
    ∃ s', s.step cfg (.sendReply k exec res) = some (.ok s') := by
  rw [State.step, hi, Option.map_some, SeussChannel.sendReply_eq]
  exact ⟨_, rfl⟩

variable (cfg) in
theorem Inv.step_receiveReply {k : Nat} {buf : IOBuf} (hinv : Inv s)
    (hbuf : s.replies[k]? = some buf) (uninit : CompletionMessage) (endTime : Time) :
    ∃ s', s.step cfg (.receiveReply k uninit endTime) = some (.ok s') := by
  rcases hinv.receiveMessage_reply hbuf cfg.hostedBuild with ⟨istats, res, hreceive, _⟩
  rw [State.step, hbuf, Option.map_some, hreceive]
  simp only [bind, Except.bind, System.resolveReceived]
  cases hfind : s.hosted.controller.recordMap.find? istats.transactionId with
  | none =>
    rw [Controller.State.step_resolveActivation_of_none hfind]
    exact ⟨_, rfl⟩
  | some record =>
    rw [Controller.State.step_resolveActivation_of_some hfind]
    exact ⟨_, rfl⟩

variable (cfg) in
/--
Nothing on its way is stuck.
-/
theorem exists_productive (hinv : Inv s) (h : s.tids ≠ []) :
    ∃ e s', Productive s e ∧ s.step cfg e = some (.ok s') := by
  have hfirst : ∀ {α : Type} {l : List α}, l ≠ [] → ∃ a, l[0]? = some a := by
    intro α l hl
    rcases List.exists_cons_of_ne_nil hl with ⟨a, rest, rfl⟩
    exact ⟨a, rfl⟩
  by_cases hreplies : s.replies = []
  . by_cases hworking : s.working = []
    . by_cases hqueue : s.root.requestQueue = []
      . by_cases hrequests : s.requests = []
        . have hspawned : s.hosted.spawned ≠ [] := by
            intro hspawned
            exact h (by simp [State.tids, hreplies, hworking, hqueue, hrequests, hspawned])
          rcases hfirst hspawned with ⟨event, hevent⟩
          rcases step_sendRequest cfg hevent with ⟨s', hs'⟩
          exact ⟨.sendRequest 0, s', trivial, hs'⟩
        . rcases hfirst hrequests with ⟨buf, hbuf⟩
          rcases hinv.step_receiveRequest cfg hbuf 0 with ⟨s', hs'⟩
          exact ⟨.receiveRequest 0 0, s', trivial, hs'⟩
      . rcases hinv.step_getWork cfg 0 hqueue with ⟨s', hs'⟩
        exact ⟨.getWork 0, s', hqueue, hs'⟩
    . rcases hfirst hworking with ⟨i, hi⟩
      rcases step_sendReply cfg hi .zero [] with ⟨s', hs'⟩
      exact ⟨.sendReply 0 .zero [], s', trivial, hs'⟩
  . rcases hfirst hreplies with ⟨buf, hbuf⟩
    rcases hinv.step_receiveReply cfg hbuf ⟨⟨[], 0⟩, { statusCode := 0 }, ⟨0, []⟩⟩ 0 with ⟨s', hs'⟩
    exact ⟨.receiveReply 0 ⟨⟨[], 0⟩, { statusCode := 0 }, ⟨0, []⟩⟩ 0, s', trivial, hs'⟩

theorem freshTid_of_productive (he : Productive s e) : FreshTid cfg s e := by
  cases e with
  | scheduleActivation => cases he
  | _ => trivial

theorem losesFrom_of_productive (he : Productive s e) : e.losesFrom s = [] := by
  cases e with
  | loseRequest | loseReply => cases he
  | _ => rfl

theorem futureIn_of_productive (he : Productive s e) : e.futureIn s = [] := by
  cases e with
  | scheduleActivation => cases he
  | _ => rfl

theorem decreases {t : State} (hinv : Inv s)
    (hs : ((machine cfg).restrict Productive).step s e = some t) :
    Inv t ∧ t.distance < s.distance := by
  rw [Machine.restrict_step, machine_step] at hs
  have hdistance := distance_of_step hinv hs.1 hs.2
  exact ⟨hinv.step (freshTid_of_productive hs.1) hs.2, by omega⟩

theorem tids_of_maximal {t : State} (hinv : Inv t)
    (hend : ∀ e, ((machine cfg).restrict Productive).step t e = none) : t.tids = [] := by
  by_contra htids
  rcases exists_productive cfg hinv htids with ⟨e, t', he, ht'⟩
  have hstep := Machine.restrict_step.mpr ⟨he, machine_step.mpr ht'⟩
  rw [hend e] at hstep
  cases hstep

section rest

variable {t : State} {es' : List Event}

theorem lost_of_rest (h : (machine cfg).run es = some s)
    (hrest : ((machine cfg).restrict Productive).runFrom s es' = some t) :
    lost cfg (es ++ es') = lost cfg es := by
  have hrun : (machine cfg).runFrom .new es = some s := h
  rw [lost, Machine.outputs_append hrun,
    Machine.outputs_eq_nil (fun _ _ => losesFrom_of_productive) hrest, List.append_nil]
  rfl

theorem futures_of_rest (h : (machine cfg).run es = some s)
    (hrest : ((machine cfg).restrict Productive).runFrom s es' = some t) :
    futures cfg (es ++ es') = futures cfg es := by
  have hrun : (machine cfg).runFrom .new es = some s := h
  rw [futures, Machine.outputs_append hrun,
    Machine.outputs_eq_nil (fun _ _ => futureIn_of_productive) hrest, List.append_nil]
  rfl

end rest

end progress

end System
end Seuss
