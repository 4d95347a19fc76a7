import Seuss.Data.Pool
import Seuss.System.WorkQueue

/-!
This module shows that every invocation on its way to an invoker core is one that `ScheduleActivation`
sent. It does not rely on fresh transaction ids.
-/

namespace Seuss
namespace System

open Msg

def scheduledInvocation (hash : CString → UInt64) (env : Controller.ScheduleEnv)
    (am : ActivationMessage) (code : CString) : Invocation where
  info := Controller.requestStats hash env am
  code := Controller.obtainCode env am code
  args := am.content

structure Sent (P : Invocation → Prop) (s : State) : Prop where
  spawned : ∀ event ∈ s.hosted.spawned, P ⟨event.stats, event.code, event.args⟩
  requests : ∀ buf ∈ s.requests, ∃ i, P i
    ∧ SeussChannel.sendRequest i.info i.args i.code = .ok buf
  queued : ∀ tid i, s.root.requestMap.find? tid = some i → P i
  handed : ∀ x ∈ s.handed, P x.2

theorem Sent.new (P : Invocation → Prop) : Sent P State.new where
  spawned := by simp [State.new, Controller.State.new]
  requests := by simp [State.new]
  queued := by simp [State.new, InvokerRoot.bootstrapped]
  handed := by simp [State.new]

section step

variable {cfg : Config} {P Q : Invocation → Prop} {s s' : State}

theorem Sent.mono (h : Sent P s) (hPQ : ∀ i, P i → Q i) : Sent Q s := by
  refine ⟨?_, ?_, ?_, ?_⟩
  . intro event hevent
    exact hPQ _ (h.spawned event hevent)
  . intro buf hbuf
    rcases h.requests buf hbuf with ⟨i, hi, hsend⟩
    exact ⟨i, hPQ i hi, hsend⟩
  . intro tid i hfind
    exact hPQ i (h.queued tid i hfind)
  . intro x hx
    exact hPQ x.2 (h.handed x hx)

theorem Sent.scheduleActivation {env : Controller.ScheduleEnv} {am : ActivationMessage}
    {code : CString} (h : Sent P s) (hnew : P (scheduledInvocation cfg.hash env am code))
    (hs : s.step cfg (.scheduleActivation env am code) = some (.ok s')) :
    Sent P s' ∧ s'.root = s.root := by
  cases happens_of_step hs with
  | scheduleActivation hosted hstep =>
    rcases Controller.State.step_scheduleActivation_spawned hstep with
      ⟨event, hspawned, hstats, hargs, hcode⟩
    refine ⟨⟨?_, h.requests, h.queued, h.handed⟩, rfl⟩
    dsimp only
    rw [hspawned]
    apply Pool.forall_put h.spawned
    rw [hstats, hargs, hcode]
    exact hnew

theorem Sent.sendRequest {k : Nat} (h : Sent P s)
    (hs : s.step cfg (.sendRequest k) = some (.ok s')) :
    Sent P s' ∧ s'.root = s.root := by
  cases happens_of_step hs with
  | sendRequest event buf hevent hsend =>
    refine ⟨⟨Pool.forall_take h.spawned k, ?_, h.queued, h.handed⟩, rfl⟩
    apply Pool.forall_put h.requests
    exact ⟨_, h.spawned event (List.mem_of_getElem? hevent), hsend⟩

theorem Sent.receiveRequest {core k : Nat} (h : Sent P s)
    (hsized : ∀ i, P i → i.info.argsSize = i.args.length)
    (hs : s.step cfg (.receiveRequest core k) = some (.ok s')) :
    Sent P s' ∧ s'.root.snapmap = s.root.snapmap := by
  cases happens_of_step hs with
  | receiveRequest buf received hbuf hreceived hqueue =>
    rcases h.requests buf (List.mem_of_getElem? hbuf) with ⟨i, hi, hsend⟩
    have hreceive := SeussChannel.receiveMessage_request cfg.nativeBuild i.info i.args i.code
      (hsized i hi)
    rw [hsend] at hreceive
    cases hreceived.symm.trans hreceive
    rcases ok_of_bind hqueue with ⟨root, hadd, hs⟩
    cases hs
    rcases InvokerRoot.addWork_requestMap hadd with ⟨hmap, hsnapmap⟩
    refine ⟨⟨h.spawned, Pool.forall_take h.requests k, ?_, h.handed⟩, hsnapmap⟩
    intro tid j hfind
    dsimp only at hfind
    rw [hmap] at hfind
    rcases UnorderedMap.find?_emplace hfind with hfind | rfl
    . exact h.queued tid j hfind
    . exact hi

theorem Sent.getWork {core : Nat} (h : Sent P s)
    (hs : s.step cfg (.getWork core) = some (.ok s')) :
    Sent P s' ∧ s'.root.snapmap = s.root.snapmap := by
  cases happens_of_step hs with
  | idle root hwork =>
    rw [(InvokerRoot.getWork_eq_none hwork).2]
    exact ⟨h, rfl⟩
  | getWork root i hwork =>
    rcases InvokerRoot.getWork_eq_some hwork with ⟨tid, _, hfind, hmap, hsnapmap⟩
    refine ⟨⟨h.spawned, h.requests, ?_, Pool.forall_put h.handed (h.queued tid i hfind)⟩, hsnapmap⟩
    intro t j hj
    dsimp only at hj
    rw [hmap, UnorderedMap.find?_erase] at hj
    split at hj
    . cases hj
    . exact h.queued t j hj

theorem Sent.receiveReply {k : Nat} {uninit : CompletionMessage} {endTime : Time} (h : Sent P s)
    (hs : s.step cfg (.receiveReply k uninit endTime) = some (.ok s')) :
    Sent P s' ∧ s'.root = s.root := by
  cases happens_of_step hs with
  | receiveReply buf received hbuf hreceive hresolve =>
    unfold resolveReceived at hresolve
    split at hresolve
    . rcases ok_of_bind hresolve with ⟨hosted, hstep, hs⟩
      cases hs
      refine ⟨⟨?_, h.requests, h.queued, h.handed⟩, rfl⟩
      dsimp only
      rw [Controller.State.step_resolveActivation_spawned hstep]
      exact h.spawned
    . cases hresolve
      exact ⟨⟨h.spawned, h.requests, h.queued, h.handed⟩, rfl⟩

theorem Sent.step {e : Event} (h : Sent P s) (hsized : ∀ i, P i → i.info.argsSize = i.args.length)
    (hnew : ∀ env am code, e = .scheduleActivation env am code →
      P (scheduledInvocation cfg.hash env am code))
    (hs : s.step cfg e = some (.ok s')) : Sent P s' ∧ s'.root.snapmap = s.root.snapmap := by
  cases e with
  | registerNode cpuNum nid =>
    cases hs
    exact ⟨⟨h.spawned, h.requests, h.queued, h.handed⟩, rfl⟩
  | scheduleActivation env am code =>
    rcases h.scheduleActivation (hnew env am code rfl) hs with ⟨hsent, hroot⟩
    exact ⟨hsent, by rw [hroot]⟩
  | sendRequest k =>
    rcases h.sendRequest hs with ⟨hsent, hroot⟩
    exact ⟨hsent, by rw [hroot]⟩
  | loseRequest k =>
    cases happens_of_step hs
    exact ⟨⟨h.spawned, Pool.forall_take h.requests k, h.queued, h.handed⟩, rfl⟩
  | receiveRequest core k => exact h.receiveRequest hsized hs
  | getWork core => exact h.getWork hs
  | sendReply k exec res =>
    cases happens_of_step hs
    exact ⟨⟨h.spawned, h.requests, h.queued, h.handed⟩, rfl⟩
  | loseReply k =>
    cases happens_of_step hs
    exact ⟨⟨h.spawned, h.requests, h.queued, h.handed⟩, rfl⟩
  | receiveReply k uninit endTime =>
    rcases h.receiveReply hs with ⟨hsent, hroot⟩
    exact ⟨hsent, by rw [hroot]⟩

end step

end System
end Seuss
