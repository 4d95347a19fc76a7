import Seuss.Channel.Basic
import Seuss.Controller.Run
import Seuss.InvokerRoot.Basic

/-!
This module contains the controller, the channel and the work queue of one invoker node put
together. Messages in flight are taken out in any order or lost. An invocation that was dequeued is
replied to at most once, and it always can be: what is shown of this system and of what is built on it
rests on that.
-/

namespace Seuss
namespace System

open Msg

structure State where
  hosted : Controller.State
  requests : List IOBuf
  root : InvokerRoot
  -- dequeued and not replied to yet
  working : List Invocation
  replies : List IOBuf
  -- all the invocations that `AddWork` and `GetWork` were called with, in that order
  added : List Invocation
  handed : List (Nat × Invocation)

def State.new : State where
  hosted := .new
  requests := []
  root := .bootstrapped
  working := []
  replies := []
  added := []
  handed := []

inductive Event where
  | registerNode (cpuNum : Int) (nid : NetworkId)
  | scheduleActivation (env : Controller.ScheduleEnv) (am : ActivationMessage) (code : CString)
  | sendRequest (k : Nat)
  | loseRequest (k : Nat)
  | receiveRequest (core k : Nat)
  | getWork (core : Nat)
  | sendReply (k : Nat) (exec : ExecStats) (res : CString)
  | loseReply (k : Nat)
  | receiveReply (k : Nat) (uninit : CompletionMessage) (endTime : Time)

structure Config where
  hash : CString → UInt64
  hostedBuild : Build
  nativeBuild : Build
  numCpus : Nat

variable (cfg : Config)

def queueInvocation (core : Nat) (s : State) (received : Received) : Except Fault State := do
  match received with
  | .queue i =>
    let (root, _) ← s.root.addWork cfg.nativeBuild cfg.numCpus core i
    .ok { s with root := root, added := s.added ++ [i] }
  | _ => .ok s

def resolveReceived (uninit : CompletionMessage) (endTime : Time) (s : State) (received : Received) :
    Except Fault State := do
  match received with
  | .resolveActivation istats res =>
    let hosted ← s.hosted.step cfg.hash cfg.hostedBuild
      (.resolveActivation uninit istats res endTime)
    .ok { s with hosted := hosted }
  | _ => .ok s

def State.step (s : State) (e : Event) : Option (Except Fault State) :=
  match e with
  | .registerNode cpuNum nid => some do
    let hosted ← s.hosted.step cfg.hash cfg.hostedBuild (.registerNode cpuNum nid)
    .ok { s with hosted := hosted }
  | .scheduleActivation env am code => some do
    let hosted ← s.hosted.step cfg.hash cfg.hostedBuild (.scheduleActivation env am code)
    .ok { s with hosted := hosted }
  | .sendRequest k => s.hosted.spawned[k]?.map fun event => do
    let buf ← SeussChannel.sendRequest event.stats event.args event.code
    .ok {
      s with
      hosted := { s.hosted with spawned := s.hosted.spawned.eraseIdx k }
      requests := s.requests ++ [buf]
    }
  | .loseRequest k => s.requests[k]?.map fun _ =>
    .ok { s with requests := s.requests.eraseIdx k }
  | .receiveRequest core k => s.requests[k]?.map fun buf => do
    let received ← SeussChannel.receiveMessage .native cfg.nativeBuild buf
    queueInvocation cfg core { s with requests := s.requests.eraseIdx k } received
  | .getWork core => some do
    let (root, work) ← s.root.getWork cfg.nativeBuild
    match work with
    | none => .ok { s with root := root }
    | some i =>
      .ok {
        s with
        root := root
        working := s.working ++ [i]
        handed := s.handed ++ [(core, i)]
      }
  | .sendReply k exec res => s.working[k]?.map fun i => do
    let buf ← SeussChannel.sendReply { i.info with exec := exec } res
    .ok { s with working := s.working.eraseIdx k, replies := s.replies ++ [buf] }
  | .loseReply k => s.replies[k]?.map fun _ =>
    .ok { s with replies := s.replies.eraseIdx k }
  | .receiveReply k uninit endTime => s.replies[k]?.map fun buf => do
    let received ← SeussChannel.receiveMessage .hosted cfg.hostedBuild buf
    resolveReceived cfg uninit endTime { s with replies := s.replies.eraseIdx k } received

def machine : Machine State Event where
  init := .new
  step s e := (s.step cfg e).bind Except.toOption

def FreshTid (s : State) (e : Event) : Prop :=
  match e with
  | .scheduleActivation _ am _ =>
    (s.hosted.controller.recordMap.find? (Controller.tid cfg.hash am)).isNone
  | _ => True

instance (s : State) (e : Event) : Decidable (FreshTid cfg s e) := by
  unfold FreshTid
  split <;> infer_instance

variable {cfg} {s s' : State} {e : Event}

-- What an event has found and what the functions that it calls have returned, once it has happened.
inductive Happens (cfg : Config) (s : State) : Event → State → Prop where
  | registerNode {cpuNum : Int} {nid : NetworkId} (hosted : Controller.State)
      (hstep : s.hosted.step cfg.hash cfg.hostedBuild (.registerNode cpuNum nid) = .ok hosted) :
      Happens cfg s (.registerNode cpuNum nid) { s with hosted := hosted }
  | scheduleActivation {env : Controller.ScheduleEnv} {am : Msg.ActivationMessage} {code : CString}
      (hosted : Controller.State)
      (hstep : s.hosted.step cfg.hash cfg.hostedBuild (.scheduleActivation env am code)
        = .ok hosted) :
      Happens cfg s (.scheduleActivation env am code) { s with hosted := hosted }
  | sendRequest {k : Nat} (event : SendRequestEvent) (buf : IOBuf)
      (hevent : s.hosted.spawned[k]? = some event)
      (hsend : SeussChannel.sendRequest event.stats event.args event.code = .ok buf) :
      Happens cfg s (.sendRequest k) {
        s with
        hosted := { s.hosted with spawned := s.hosted.spawned.eraseIdx k }
        requests := s.requests ++ [buf]
      }
  | loseRequest {k : Nat} (buf : IOBuf) (hbuf : s.requests[k]? = some buf) :
      Happens cfg s (.loseRequest k) { s with requests := s.requests.eraseIdx k }
  | receiveRequest {core k : Nat} {s' : State} (buf : IOBuf) (received : Received)
      (hbuf : s.requests[k]? = some buf)
      (hreceive : SeussChannel.receiveMessage .native cfg.nativeBuild buf = .ok received)
      (hqueue : queueInvocation cfg core { s with requests := s.requests.eraseIdx k } received
        = .ok s') :
      Happens cfg s (.receiveRequest core k) s'
  | idle {core : Nat} (root : InvokerRoot)
      (hwork : s.root.getWork cfg.nativeBuild = .ok (root, none)) :
      Happens cfg s (.getWork core) { s with root := root }
  | getWork {core : Nat} (root : InvokerRoot) (i : Invocation)
      (hwork : s.root.getWork cfg.nativeBuild = .ok (root, some i)) :
      Happens cfg s (.getWork core) {
        s with
        root := root
        working := s.working ++ [i]
        handed := s.handed ++ [(core, i)]
      }
  | sendReply {k : Nat} {exec : ExecStats} {res : CString} (i : Invocation) (buf : IOBuf)
      (hi : s.working[k]? = some i)
      (hsend : SeussChannel.sendReply { i.info with exec := exec } res = .ok buf) :
      Happens cfg s (.sendReply k exec res) {
        s with
        working := s.working.eraseIdx k
        replies := s.replies ++ [buf]
      }
  | loseReply {k : Nat} (buf : IOBuf) (hbuf : s.replies[k]? = some buf) :
      Happens cfg s (.loseReply k) { s with replies := s.replies.eraseIdx k }
  | receiveReply {k : Nat} {uninit : Msg.CompletionMessage} {endTime : Time} {s' : State}
      (buf : IOBuf) (received : Received) (hbuf : s.replies[k]? = some buf)
      (hreceive : SeussChannel.receiveMessage .hosted cfg.hostedBuild buf = .ok received)
      (hresolve : resolveReceived cfg uninit endTime { s with replies := s.replies.eraseIdx k }
        received = .ok s') :
      Happens cfg s (.receiveReply k uninit endTime) s'

theorem happens_of_step (h : s.step cfg e = some (.ok s')) : Happens cfg s e s' := by
  cases e with
  | registerNode cpuNum nid =>
    rcases ok_of_bind (Option.some.inj h) with ⟨hosted, hstep, hs⟩
    cases hs
    exact .registerNode hosted hstep
  | scheduleActivation env am code =>
    rcases ok_of_bind (Option.some.inj h) with ⟨hosted, hstep, hs⟩
    cases hs
    exact .scheduleActivation hosted hstep
  | sendRequest k =>
    rcases Option.map_eq_some_iff.mp h with ⟨event, hevent, h⟩
    rcases ok_of_bind h with ⟨buf, hsend, hs⟩
    cases hs
    exact .sendRequest event buf hevent hsend
  | loseRequest k =>
    rcases Option.map_eq_some_iff.mp h with ⟨buf, hbuf, hs⟩
    cases hs
    exact .loseRequest buf hbuf
  | receiveRequest core k =>
    rcases Option.map_eq_some_iff.mp h with ⟨buf, hbuf, h⟩
    rcases ok_of_bind h with ⟨received, hreceive, hqueue⟩
    exact .receiveRequest buf received hbuf hreceive hqueue
  | getWork core =>
    rcases ok_of_bind (Option.some.inj h) with ⟨⟨root, work⟩, hwork, hs⟩
    cases work with
    | none =>
      cases hs
      exact .idle root hwork
    | some i =>
      cases hs
      exact .getWork root i hwork
  | sendReply k exec res =>
    rcases Option.map_eq_some_iff.mp h with ⟨i, hi, h⟩
    rcases ok_of_bind h with ⟨buf, hsend, hs⟩
    cases hs
    exact .sendReply i buf hi hsend
  | loseReply k =>
    rcases Option.map_eq_some_iff.mp h with ⟨buf, hbuf, hs⟩
    cases hs
    exact .loseReply buf hbuf
  | receiveReply k uninit endTime =>
    rcases Option.map_eq_some_iff.mp h with ⟨buf, hbuf, h⟩
    rcases ok_of_bind h with ⟨received, hreceive, hresolve⟩
    exact .receiveReply buf received hbuf hreceive hresolve

theorem queueInvocation_eq_ok {core : Nat} {received : Received}
    (h : queueInvocation cfg core s received = .ok s') :
    ∃ root added, s' = { s with root := root, added := added } := by
  unfold queueInvocation at h
  split at h
  . rcases ok_of_bind h with ⟨⟨root, _⟩, _, h⟩
    cases h
    exact ⟨_, _, rfl⟩
  . cases h
    exact ⟨_, _, rfl⟩

/--
A reply completes the transaction of its record, one to nobody only takes its time.
-/
theorem resolveReceived_cases {uninit : CompletionMessage} {endTime : Time} {received : Received}
    (h : resolveReceived cfg uninit endTime s received = .ok s') :
    (∃ clock, s.hosted.clock ≤ clock
        ∧ s' = { s with hosted := { s.hosted with clock := clock } }
        ∧ ∀ istats res, received = .resolveActivation istats res →
          s.hosted.controller.recordMap.find? istats.transactionId = none)
      ∨ ∃ istats res record, received = .resolveActivation istats res
        ∧ s.hosted.controller.recordMap.find? istats.transactionId = some record
        ∧ s' = {
          s with
          hosted := {
            s.hosted with
            controller := {
              s.hosted.controller with
              recordMap := AList.erase istats.transactionId s.hosted.controller.recordMap
            }
            clock := s.hosted.clock + 1
            fulfilled := s.hosted.fulfilled ++ [⟨record.promise, s.hosted.clock,
              Controller.completion uninit record istats res endTime⟩]
          }
        } := by
  unfold resolveReceived at h
  split at h
  . next istats res =>
    rcases ok_of_bind h with ⟨hosted, hstep, h⟩
    cases h
    cases hrecord : s.hosted.controller.recordMap.find? istats.transactionId with
    | none =>
      rw [Controller.State.step_resolveActivation_of_none hrecord] at hstep
      cases hstep
      refine .inl ⟨_, Nat.le_succ _, rfl, ?_⟩
      rintro _ _ ⟨⟩
      exact hrecord
    | some record =>
      rw [Controller.State.step_resolveActivation_of_some hrecord] at hstep
      cases hstep
      exact .inr ⟨istats, res, record, rfl, hrecord, rfl⟩
  . next hother =>
    cases h
    exact .inl ⟨_, Nat.le_refl _, rfl, fun istats res hreceived => absurd hreceived (hother istats res)⟩

end System
end Seuss
