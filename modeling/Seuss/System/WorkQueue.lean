import Seuss.Data.Pool
import Seuss.System.Basic

/-!
This module shows that the work queue of the invoker neither loses nor duplicates a request. The
uniqueness that its assertions rely on is checked in the controller: an outstanding transaction is
at one place of the system at most, and only outstanding transactions are in the system.
-/

namespace Seuss
namespace System

open Msg

variable {cfg : Config}

def State.recorded (s : State) (tid : UInt64) : Nat :=
  if (s.hosted.controller.recordMap.find? tid).isSome then 1 else 0

def State.places (s : State) (tid : UInt64) : Nat :=
  (s.hosted.spawned.map (·.stats.transactionId)).count tid
    + (s.requests.map (·.header.record.transactionId)).count tid
    + s.root.requestQueue.count tid
    + (s.working.map (·.info.transactionId)).count tid
    + (s.replies.map (·.header.record.transactionId)).count tid

structure Inv (s : State) : Prop where
  spawned : ∀ event ∈ s.hosted.spawned, event.stats.argsSize = event.args.length
  requests : ∀ buf ∈ s.requests, ∃ istats args code,
    istats.argsSize = args.length ∧ SeussChannel.sendRequest istats args code = .ok buf
  replies : ∀ buf ∈ s.replies, ∃ istats res, SeussChannel.sendReply istats res = .ok buf
  places : ∀ tid, s.places tid ≤ s.recorded tid
  queued : ∀ tid, tid ∈ s.root.requestQueue ↔ tid ∈ s.root.requestMap
  keyed : ∀ tid i, s.root.requestMap.find? tid = some i → i.info.transactionId = tid
  fifo : s.added
      = s.handed.map Prod.snd ++ s.root.requestQueue.filterMap s.root.requestMap.find?

theorem Inv.new : Inv State.new where
  spawned := by simp [State.new, Controller.State.new]
  requests := by simp [State.new]
  replies := by simp [State.new]
  places := by simp [State.places, State.new, Controller.State.new, InvokerRoot.bootstrapped]
  queued := by simp [State.new, InvokerRoot.bootstrapped]
  keyed := by simp [State.new, InvokerRoot.bootstrapped]
  fifo := by simp [State.new, InvokerRoot.bootstrapped]

section queue

variable {s : State}

theorem State.recorded_le (s : State) (tid : UInt64) : s.recorded tid ≤ 1 := by
  unfold State.recorded
  split <;> omega

theorem Inv.queue_nodup (h : Inv s) : s.root.requestQueue.Nodup := by
  rw [List.nodup_iff_count_le_one]
  intro tid
  have hplaces := h.places tid
  have hrecorded := s.recorded_le tid
  unfold State.places at hplaces
  omega

theorem Inv.queue_find? (h : Inv s) (tid : UInt64) (htid : tid ∈ s.root.requestQueue) :
    ∃ i, s.root.requestMap.find? tid = some i := by
  rw [← UnorderedMap.mem_iff_find?, ← h.queued]
  exact htid

theorem Inv.not_queued_of_request (h : Inv s) {k : Nat} {buf : IOBuf}
    (hbuf : s.requests[k]? = some buf) :
    s.root.requestMap.find? buf.header.record.transactionId = none := by
  rw [UnorderedMap.find?_eq_none, ← h.queued]
  intro hmem
  have hplaces := h.places buf.header.record.transactionId
  have hrecorded := s.recorded_le buf.header.record.transactionId
  have hqueue := List.count_pos_iff.mpr hmem
  have hflight := Pool.count_take (·.header.record.transactionId) hbuf
    buf.header.record.transactionId
  rw [if_pos rfl] at hflight
  unfold State.places at hplaces
  omega

theorem Inv.receiveMessage_request (h : Inv s) {k : Nat} {buf : IOBuf}
    (hbuf : s.requests[k]? = some buf) (build : Build) :
    ∃ i, SeussChannel.receiveMessage .native build buf = .ok (.queue i)
      ∧ i.info.transactionId = buf.header.record.transactionId := by
  rcases h.requests buf (Pool.mem_of_getElem? hbuf) with ⟨istats, args, code, hsize, hsend⟩
  have hreceive := SeussChannel.receiveMessage_request build istats args code hsize
  rw [hsend] at hreceive
  refine ⟨_, hreceive, ?_⟩
  rw [SeussChannel.sendRequest_eq] at hsend
  cases hsend
  rfl

theorem Inv.receiveMessage_reply (h : Inv s) {k : Nat} {buf : IOBuf}
    (hbuf : s.replies[k]? = some buf) (build : Build) :
    ∃ istats res, SeussChannel.receiveMessage .hosted build buf = .ok (.resolveActivation istats res)
      ∧ istats.transactionId = buf.header.record.transactionId := by
  rcases h.replies buf (Pool.mem_of_getElem? hbuf) with ⟨istats, res, hsend⟩
  have hreceive := SeussChannel.receiveMessage_reply build istats res
  rw [hsend] at hreceive
  refine ⟨_, _, hreceive, ?_⟩
  rw [SeussChannel.sendReply_eq] at hsend
  cases hsend
  rfl

end queue

section step

variable {s s' : State}

theorem Inv.registerNode {cpuNum : Int} {nid : NetworkId} (h : Inv s)
    (hs : s.step cfg (.registerNode cpuNum nid) = some (.ok s')) : Inv s' := by
  cases hs
  exact ⟨h.spawned, h.requests, h.replies, h.places, h.queued, h.keyed, h.fifo⟩

theorem Inv.scheduleActivation {env : Controller.ScheduleEnv} {am : ActivationMessage}
    {code : CString} (h : Inv s)
    (hfresh : s.hosted.controller.recordMap.find? (Controller.tid cfg.hash am) = none)
    (hs : s.step cfg (.scheduleActivation env am code) = some (.ok s')) : Inv s' := by
  cases happens_of_step hs with
  | scheduleActivation hosted hstep =>
    rcases Controller.State.step_scheduleActivation_eq_ok hfresh hstep with ⟨_, hmap, _, _⟩
    rcases Controller.State.step_scheduleActivation_spawned hstep with
      ⟨event, hspawned, hstats, hargs, _⟩
    refine ⟨?_, h.requests, h.replies, ?_, h.queued, h.keyed, h.fifo⟩
    . dsimp only
      rw [hspawned]
      apply Pool.forall_put h.spawned
      rw [hstats, hargs]
      rfl
    . intro tid
      have hplaces := h.places tid
      unfold State.places State.recorded at hplaces ⊢
      dsimp only
      have hevent : event.stats.transactionId = Controller.tid cfg.hash am := by
        rw [hstats]
        rfl
      rw [hspawned, Pool.count_put, hmap, UnorderedMap.find?_insert, hevent]
      by_cases htid : tid = Controller.tid cfg.hash am
      . subst htid
        rw [hfresh] at hplaces
        simp only [Option.isSome_none, Bool.false_eq_true, ↓reduceIte] at hplaces
        simp only [↓reduceIte, Option.isSome_some]
        omega
      . rw [if_neg htid, if_neg (Ne.symm htid)]
        omega

theorem Inv.sendRequest {k : Nat} (h : Inv s) (hs : s.step cfg (.sendRequest k) = some (.ok s')) :
    Inv s' := by
  cases happens_of_step hs with
  | sendRequest event buf hevent hsend =>
    rw [SeussChannel.sendRequest_eq] at hsend
    cases hsend
    have hsize := h.spawned event (Pool.mem_of_getElem? hevent)
    refine ⟨Pool.forall_take h.spawned k, ?_, h.replies, ?_, h.queued, h.keyed, h.fifo⟩
    . apply Pool.forall_put h.requests
      exact ⟨event.stats, event.args, event.code, hsize, SeussChannel.sendRequest_eq _ _ _⟩
    . intro tid
      have hplaces := h.places tid
      unfold State.places State.recorded at hplaces ⊢
      rw [Pool.count_take _ hevent] at hplaces
      dsimp only [IOBuf.header] at hplaces ⊢
      rw [Pool.count_put]
      dsimp only
      omega

theorem Inv.loseRequest {k : Nat} (h : Inv s) (hs : s.step cfg (.loseRequest k) = some (.ok s')) :
    Inv s' := by
  cases happens_of_step hs with
  | loseRequest buf hbuf =>
    refine ⟨h.spawned, Pool.forall_take h.requests k, h.replies, ?_, h.queued, h.keyed, h.fifo⟩
    intro tid
    have hplaces := h.places tid
    unfold State.places State.recorded at hplaces ⊢
    rw [Pool.count_take _ hbuf] at hplaces
    dsimp only
    omega

theorem filterMap_find?_insert {queue : List UInt64} {m : UnorderedMap UInt64 Invocation}
    {tid : UInt64} {i : Invocation} (h : tid ∉ queue) :
    (queue ++ [tid]).filterMap (UnorderedMap.find? (AList.insert tid i m))
      =
    queue.filterMap m.find? ++ [i] := by
  rw [List.filterMap_append]
  congr 1
  . apply List.filterMap_congr
    intro t ht
    rw [UnorderedMap.find?_insert_ne]
    rintro rfl
    exact h ht
  . simp

theorem Inv.receiveRequest {core k : Nat} (h : Inv s)
    (hs : s.step cfg (.receiveRequest core k) = some (.ok s')) : Inv s' := by
  cases happens_of_step hs with
  | receiveRequest buf received hbuf hreceived hqueue =>
    rcases h.receiveMessage_request hbuf cfg.nativeBuild with ⟨i, hreceive, htid⟩
    have hnone := h.not_queued_of_request hbuf
    rw [← htid] at hnone
    cases hreceived.symm.trans hreceive
    simp only [queueInvocation, InvokerRoot.addWork_of_not_queued hnone] at hqueue
    cases hqueue
    have hnotin : i.info.transactionId ∉ s.root.requestQueue := by
      rwa [h.queued, ← UnorderedMap.find?_eq_none]
    refine ⟨h.spawned, Pool.forall_take h.requests k, h.replies, ?_, ?_, ?_, ?_⟩
    . intro tid
      have hplaces := h.places tid
      unfold State.places State.recorded at hplaces ⊢
      rw [Pool.count_take _ hbuf, ← htid] at hplaces
      dsimp only
      rw [List.count_append, List.count_singleton]
      simp only [beq_iff_eq]
      omega
    . intro tid
      simp only [List.mem_append, List.mem_singleton, AList.mem_insert, h.queued]
      exact or_comm
    . intro tid j hfind
      rw [UnorderedMap.find?_insert] at hfind
      split at hfind
      . next heq =>
        cases hfind
        exact heq.symm
      . exact h.keyed tid j hfind
    . dsimp only
      rw [filterMap_find?_insert hnotin, h.fifo, List.append_assoc]

theorem filterMap_find?_erase {rest : List UInt64} {m : UnorderedMap UInt64 Invocation}
    {tid : UInt64} (h : tid ∉ rest) :
    rest.filterMap (UnorderedMap.find? (AList.erase tid m)) = rest.filterMap m.find? := by
  apply List.filterMap_congr
  intro t ht
  rw [UnorderedMap.find?_erase_ne]
  rintro rfl
  exact h ht

theorem Inv.getWork {core : Nat} (h : Inv s) (hs : s.step cfg (.getWork core) = some (.ok s')) :
    Inv s' := by
  cases hqueue : s.root.requestQueue with
  | nil =>
    simp only [State.step, InvokerRoot.getWork_nil hqueue, bind, Except.bind] at hs
    cases hs
    exact h
  | cons tid rest =>
    rcases h.queue_find? tid (by simp [hqueue]) with ⟨i, hfind⟩
    simp only [State.step, InvokerRoot.getWork_cons hqueue hfind, bind, Except.bind] at hs
    cases hs
    have hnodup := h.queue_nodup
    rw [hqueue, List.nodup_cons] at hnodup
    have htid := h.keyed tid i hfind
    refine ⟨h.spawned, h.requests, h.replies, ?_, ?_, ?_, ?_⟩
    . intro t
      have hplaces := h.places t
      unfold State.places State.recorded at hplaces ⊢
      rw [hqueue, List.count_cons] at hplaces
      simp only [beq_iff_eq] at hplaces
      dsimp only
      rw [Pool.count_put, htid]
      omega
    . intro t
      have hqueued := h.queued t
      rw [hqueue, List.mem_cons] at hqueued
      dsimp only
      rw [AList.mem_erase, ← hqueued]
      constructor
      . intro ht
        refine ⟨?_, .inr ht⟩
        rintro rfl
        exact hnodup.1 ht
      . rintro ⟨hne, heq | ht⟩
        . exact absurd heq hne
        . exact ht
    . intro t j hj
      rw [UnorderedMap.find?_erase] at hj
      split at hj
      . cases hj
      . exact h.keyed t j hj
    . have hfifo := h.fifo
      rw [hqueue, List.filterMap_cons_some hfind] at hfifo
      dsimp only
      rw [filterMap_find?_erase hnodup.1, hfifo]
      simp

theorem Inv.sendReply {k : Nat} {exec : ExecStats} {res : CString} (h : Inv s)
    (hs : s.step cfg (.sendReply k exec res) = some (.ok s')) : Inv s' := by
  cases happens_of_step hs with
  | sendReply i buf hi hsend =>
    rw [SeussChannel.sendReply_eq] at hsend
    cases hsend
    refine ⟨h.spawned, h.requests, ?_, ?_, h.queued, h.keyed, h.fifo⟩
    . apply Pool.forall_put h.replies
      exact ⟨_, res, SeussChannel.sendReply_eq _ _⟩
    . intro tid
      have hplaces := h.places tid
      unfold State.places State.recorded at hplaces ⊢
      rw [Pool.count_take _ hi] at hplaces
      dsimp only [IOBuf.header] at hplaces ⊢
      rw [Pool.count_put]
      dsimp only
      omega

theorem Inv.loseReply {k : Nat} (h : Inv s) (hs : s.step cfg (.loseReply k) = some (.ok s')) :
    Inv s' := by
  cases happens_of_step hs with
  | loseReply buf hbuf =>
    refine ⟨h.spawned, h.requests, Pool.forall_take h.replies k, ?_, h.queued, h.keyed, h.fifo⟩
    intro tid
    have hplaces := h.places tid
    unfold State.places State.recorded at hplaces ⊢
    rw [Pool.count_take _ hbuf] at hplaces
    dsimp only
    omega

theorem Inv.receiveReply {k : Nat} {uninit : CompletionMessage} {endTime : Time} (h : Inv s)
    (hs : s.step cfg (.receiveReply k uninit endTime) = some (.ok s')) : Inv s' := by
  cases happens_of_step hs with
  | receiveReply buf received hbuf hreceived hs =>
    rcases h.receiveMessage_reply hbuf cfg.hostedBuild with ⟨istats, res, hreceive, htid⟩
    cases hreceived.symm.trans hreceive
    simp only [bind, Except.bind, resolveReceived] at hs
    have hplaces := h.places
    unfold State.places State.recorded at hplaces
    cases hrecord : s.hosted.controller.recordMap.find? istats.transactionId with
    | none =>
      rw [Controller.State.step_resolveActivation_of_none hrecord] at hs
      cases hs
      refine ⟨h.spawned, h.requests, Pool.forall_take h.replies k, ?_, h.queued, h.keyed, h.fifo⟩
      intro tid
      have hplaces := hplaces tid
      unfold State.places State.recorded
      rw [Pool.count_take _ hbuf] at hplaces
      dsimp only
      omega
    | some record =>
      rw [Controller.State.step_resolveActivation_of_some hrecord] at hs
      cases hs
      refine ⟨h.spawned, h.requests, Pool.forall_take h.replies k, ?_, h.queued, h.keyed, h.fifo⟩
      intro tid
      have hplaces := hplaces tid
      unfold State.places State.recorded
      rw [Pool.count_take _ hbuf, ← htid] at hplaces
      dsimp only
      rw [UnorderedMap.find?_erase]
      by_cases heq : tid = istats.transactionId
      . subst heq
        rw [hrecord] at hplaces
        simp only [↓reduceIte, Option.isSome_some, Option.isSome_none, Bool.false_eq_true] at hplaces ⊢
        omega
      . rw [if_neg heq]
        rw [if_neg (Ne.symm heq)] at hplaces
        omega

theorem Inv.step {e : Event} (h : Inv s) (hfresh : FreshTid cfg s e)
    (hs : s.step cfg e = some (.ok s')) : Inv s' := by
  cases e with
  | registerNode => exact h.registerNode hs
  | scheduleActivation => exact h.scheduleActivation (Option.isNone_iff_eq_none.mp hfresh) hs
  | sendRequest => exact h.sendRequest hs
  | loseRequest => exact h.loseRequest hs
  | receiveRequest => exact h.receiveRequest hs
  | getWork => exact h.getWork hs
  | sendReply => exact h.sendReply hs
  | loseReply => exact h.loseReply hs
  | receiveReply => exact h.receiveReply hs

theorem machine_step {e : Event} :
    (machine cfg).step s e = some s' ↔ s.step cfg e = some (.ok s') := by
  apply Machine.bind_toOption_eq_some

theorem reachable_inv (h : ((machine cfg).restrict (FreshTid cfg)).Reachable s) : Inv s := by
  refine h.invariant .new ?_
  intro s e s' _ hinv hs
  rw [Machine.restrict_step, machine_step] at hs
  exact hinv.step hs.1 hs.2

end step

section drain

variable {s : State}

theorem Inv.drain (cfg : Config) (h : Inv s) {cores : List Nat} (hlen : cores.length = s.root.requestQueue.length) :
    ∃ s', (machine cfg).runFrom s (cores.map .getWork) = some s'
      ∧ s'.root.requestQueue = []
      ∧ s'.added = s.added
      ∧ s'.handed.map Prod.fst = s.handed.map Prod.fst ++ cores
      ∧ s'.handed.map Prod.snd = s.added := by
  induction cores generalizing s with
  | nil =>
    have hqueue := List.length_eq_zero_iff.mp hlen.symm
    refine ⟨s, rfl, hqueue, rfl, by simp, ?_⟩
    rw [h.fifo, hqueue]
    simp
  | cons core cores ih =>
    cases hqueue : s.root.requestQueue with
    | nil => simp [hqueue] at hlen
    | cons tid rest =>
      rcases h.queue_find? tid (by simp [hqueue]) with ⟨i, hfind⟩
      have hstep : s.step cfg (.getWork core) = some (.ok {
          s with
          root := {
            s.root with
            requestQueue := rest
            requestMap := AList.erase tid s.root.requestMap
          }
          working := s.working ++ [i]
          handed := s.handed ++ [(core, i)]
        }) := by
        simp only [State.step, InvokerRoot.getWork_cons hqueue hfind, bind, Except.bind]
      have hinv := h.getWork hstep
      rw [hqueue] at hlen
      rcases ih hinv (by simpa using hlen) with ⟨s', hrun, hempty, hadded, hcores, hhanded⟩
      refine ⟨s', ?_, hempty, hadded, ?_, hhanded⟩
      . rw [List.map_cons, Machine.runFrom_cons]
        exact ⟨_, machine_step.mpr hstep, hrun⟩
      . rw [hcores]
        simp

end drain

/--
In every state that is reached with fresh transaction ids, the queue and the map of the invoker hold
the same transactions, each once; every request that can arrive next is inserted; the next dequeue
finds its record; what was handed out and what is still queued is what was added, in that order; and
one more call of `GetWork` for each queued request hands out the rest.
-/
theorem workQueue_fifo {es : List Event} {s : State}
    (h : ((machine cfg).restrict (FreshTid cfg)).run es = some s) :
    s.root.requestQueue.Nodup
      ∧ (∀ tid, tid ∈ s.root.requestQueue ↔ tid ∈ s.root.requestMap)
      ∧ (∀ (k : Nat) buf, s.requests[k]? = some buf → ∃ i,
          SeussChannel.receiveMessage .native cfg.nativeBuild buf = .ok (.queue i)
            ∧ (s.root.requestMap.emplace i.info.transactionId i).2 = true)
      ∧ (∀ fault, s.root.getWork cfg.nativeBuild ≠ .error fault)
      ∧ s.added = s.handed.map Prod.snd ++ s.root.requestQueue.filterMap s.root.requestMap.find?
      ∧ (∀ cores : List Nat, cores.length = s.root.requestQueue.length →
          ∃ s', (machine cfg).runFrom s (cores.map .getWork) = some s'
            ∧ s'.handed.map Prod.fst = s.handed.map Prod.fst ++ cores
            ∧ s'.handed.map Prod.snd = s.added)
      ∧ (s.root.requestQueue = [] → ∀ core,
          s.step cfg (.getWork core) = some (.ok s)) := by
  have hinv := reachable_inv ⟨es, h⟩
  refine ⟨hinv.queue_nodup, hinv.queued, ?_, ?_, hinv.fifo, ?_, ?_⟩
  . intro k buf hbuf
    rcases hinv.receiveMessage_request hbuf cfg.nativeBuild with ⟨i, hreceive, htid⟩
    refine ⟨i, hreceive, ?_⟩
    rw [UnorderedMap.emplace_snd, htid]
    exact hinv.not_queued_of_request hbuf
  . intro fault
    cases hqueue : s.root.requestQueue with
    | nil => simp [InvokerRoot.getWork_nil hqueue]
    | cons tid rest =>
      rcases hinv.queue_find? tid (by simp [hqueue]) with ⟨i, hfind⟩
      simp [InvokerRoot.getWork_cons hqueue hfind]
  . intro cores hlen
    rcases hinv.drain cfg hlen with ⟨s', hrun, _, _, hcores, hhanded⟩
    exact ⟨s', hrun, hcores, hhanded⟩
  . intro hqueue core
    simp only [State.step, InvokerRoot.getWork_nil hqueue, bind, Except.bind]

-- A transaction id that is scheduled again after its reply, while another one is queued.
def rescheduled : List Event :=
  let env : Controller.ScheduleEnv :=
    { getAction := fun _ => "code".toList, now := 0, beyond := fun _ => 'x' }
  let uninit : CompletionMessage :=
    .ofActivation ⟨⟨[], 0⟩, { statusCode := 0 }, ⟨0, []⟩⟩ (testActivation [] [])
  [
    .registerNode 4 "10.0.0.2".toList,
    .scheduleActivation env (testActivation "a".toList "r".toList) [],
    .scheduleActivation env (testActivation "bb".toList "r".toList) [],
    .sendRequest 1,
    .sendRequest 0,
    .receiveRequest 0 1,
    .receiveRequest 0 0,
    .getWork 1,
    .sendReply 0 .zero "{}".toList,
    .receiveReply 0 uninit 9000000,
    .scheduleActivation env (testActivation "c".toList "r".toList) [],
    .sendRequest 0,
    .receiveRequest 0 0
  ]

def rescheduledConfig : Config where
  hash := (·.length.toUInt64)
  hostedBuild := .debug
  nativeBuild := .release
  numCpus := 2

theorem rescheduled_run :
    (((machine rescheduledConfig).restrict (FreshTid rescheduledConfig)).run rescheduled).isSome := by
  decide

theorem workQueue_fifo_rescheduled :
    ∃ s, ((machine rescheduledConfig).restrict (FreshTid rescheduledConfig)).run rescheduled = some s
      ∧ s.root.requestQueue = [2, 1]
      ∧ s.root.requestQueue.Nodup := by
  refine ⟨_, (Option.some_get rescheduled_run).symm, by decide, ?_⟩
  exact (workQueue_fifo (Option.some_get rescheduled_run).symm).1

end System
end Seuss
