import Seuss.InvokerNode.Lemmas
import Seuss.System.Completion

/-!
This module contains the controller, the channel and a whole invoker node put together: a request is queued
on the node, its cores take it from there through their start paths and sessions, and what a session has
executed is sent back as the reply.
-/

namespace Seuss
namespace FullStack

structure Config where
  hash : CString → UInt64
  hostedBuild : Build
  nativeBuild : Build
  limit : UInt16
  hotLimit : UInt16
  reuseLimit : UInt16

variable (cfg : Config) {n : Nat}

variable (n) in
def Config.system : System.Config where
  hash := cfg.hash
  hostedBuild := cfg.hostedBuild
  nativeBuild := cfg.nativeBuild
  numCpus := n

variable (n) in
def Config.node : Machine (InvokerNode.State n) (InvokerNode.Event n) :=
  InvokerNode.machine cfg.nativeBuild cfg.limit cfg.hotLimit cfg.reuseLimit n

structure State (n : Nat) where
  hosted : Controller.State
  requests : List IOBuf
  node : InvokerNode.State n
  -- the invocations that a core has taken and that are not replied to yet
  owed : List Invocation
  replies : List IOBuf
  -- all the invocations that `AddWork` and `GetWork` were called with, in that order
  added : List Invocation
  handed : List (Nat × Invocation)

def State.new (n : Nat) : State n where
  hosted := .new
  requests := []
  node := .new cfg.hotLimit cfg.reuseLimit n
  owed := []
  replies := []
  added := []
  handed := []

-- the system without what the node does for an invocation
def State.view (s : State n) : System.State where
  hosted := s.hosted
  requests := s.requests
  root := InvokerNode.withoutCache s.node.node.root
  working := s.owed
  replies := s.replies
  added := s.added
  handed := s.handed

inductive Event (n : Nat) where
  | system (e : System.Event)
  | receiveRequest (mine : Fin n) (k : Nat)
  | node (e : InvokerNode.Event n)
  -- `when_executed_` of the session that an invocation is blocked on
  | executed (c : Fin n) (k : Nat) (exec : ExecStats) (res : CString)

-- The node takes no part in the event.
def outside (e : System.Event) : Bool :=
  match e with
  | .registerNode _ _ | .scheduleActivation _ _ _ | .sendRequest _ | .loseRequest _ | .loseReply _
  | .receiveReply _ _ _ => true
  | .receiveRequest _ _ | .getWork _ | .sendReply _ _ _ => false

def State.stepSystem (s : State n) (e : System.Event) : Option (State n) :=
  if outside e = true then
    ((System.machine (cfg.system n)).step s.view e).map fun t =>
      { s with hosted := t.hosted, requests := t.requests, replies := t.replies }
  else
    none

def State.receiveRequest (s : State n) (mine : Fin n) (k : Nat) : Option (State n) :=
  s.requests[k]?.bind fun buf =>
    let s := { s with requests := s.requests.eraseIdx k }
    match SeussChannel.receiveMessage .native cfg.nativeBuild buf with
    | .error _ => none
    | .ok (.queue i) => ((cfg.node n).step s.node (.addWork mine i)).map fun node =>
      { s with node := node, added := s.added ++ [i] }
    | .ok _ => some s

-- the work that a core takes
def taken (before after : InvokerNode.State n) (e : InvokerNode.Event n) : List (Nat × Invocation) :=
  match e with
  | .poke c => (InvokerNode.entered (before.node.cores c) (after.node.cores c)).map fun a =>
    (c.val, a.invocation)
  | _ => []

def State.stepNode (s : State n) (e : InvokerNode.Event n) : Option (State n) :=
  match e with
  -- work is only added by requests
  | .addWork _ _ => none
  | e => ((cfg.node n).step s.node e).map fun node =>
    let work := taken s.node node e
    { s with node := node, owed := s.owed ++ work.map Prod.snd, handed := s.handed ++ work }

def State.executed (s : State n) (c : Fin n) (k : Nat) (exec : ExecStats) (res : CString) :
    Option (State n) :=
  (s.node.active c)[k]?.bind fun a =>
    match a.stage with
    | .blocked _ _ => (SeussChannel.sendReply { a.invocation.info with exec := exec } res).toOption.map
      fun buf => { s with owed := s.owed.erase a.invocation, replies := s.replies ++ [buf] }
    | _ => none

variable (n) in
def machine : Machine (State n) (Event n) where
  init := .new cfg n
  step s e :=
    match e with
    | .system e => s.stepSystem cfg e
    | .receiveRequest mine k => s.receiveRequest cfg mine k
    | .node e => s.stepNode cfg e
    | .executed c k exec res => s.executed c k exec res

-- No other activation of the transaction is recorded.
def FreshTid (s : State n) (e : Event n) : Prop :=
  match e with
  | .system e => System.FreshTid (cfg.system n) s.view e
  | _ => True

instance (s : State n) (e : Event n) : Decidable (FreshTid cfg s e) :=
  match e with
  | .system e => inferInstanceAs (Decidable (System.FreshTid (cfg.system n) s.view e))
  | .receiveRequest _ _ | .node _ | .executed _ _ _ _ => instDecidableTrue

-- An invocation is not executed any more once it is replied to.
def RepliesOnce (s : State n) (e : Event n) : Prop :=
  match e with
  | .executed c k _ _ => ∀ a ∈ (s.node.active c)[k]?, a.invocation ∈ s.owed
  | _ => True

instance (s : State n) (e : Event n) : Decidable (RepliesOnce s e) :=
  match e with
  | .executed c k _ _ =>
    inferInstanceAs (Decidable (∀ a ∈ (s.node.active c)[k]?, a.invocation ∈ s.owed))
  | .system _ | .receiveRequest _ _ | .node _ => instDecidableTrue

def Once (s : State n) (e : Event n) : Prop :=
  FreshTid cfg s e ∧ RepliesOnce s e

instance (s : State n) (e : Event n) : Decidable (Once cfg s e) :=
  inferInstanceAs (Decidable (FreshTid cfg s e ∧ RepliesOnce s e))

inductive Happens (cfg : Config) (s : State n) : Event n → State n → Prop where
  | system {e : System.Event} (t : System.State) (houtside : outside e = true)
      (hstep : (System.machine (cfg.system n)).step s.view e = some t) :
      Happens cfg s (.system e) { s with hosted := t.hosted, requests := t.requests, replies := t.replies }
  | queued {mine : Fin n} {k : Nat} (buf : IOBuf) (i : Invocation) (node : InvokerNode.State n)
      (hbuf : s.requests[k]? = some buf)
      (hreceive : SeussChannel.receiveMessage .native cfg.nativeBuild buf = .ok (.queue i))
      (hnode : (cfg.node n).step s.node (.addWork mine i) = some node) :
      Happens cfg s (.receiveRequest mine k)
        { s with requests := s.requests.eraseIdx k, node := node, added := s.added ++ [i] }
  | ignored {mine : Fin n} {k : Nat} (buf : IOBuf) (received : Received)
      (hbuf : s.requests[k]? = some buf)
      (hreceive : SeussChannel.receiveMessage .native cfg.nativeBuild buf = .ok received)
      (hother : ∀ i, received ≠ .queue i) :
      Happens cfg s (.receiveRequest mine k) { s with requests := s.requests.eraseIdx k }
  | node {e : InvokerNode.Event n} (node : InvokerNode.State n) (hother : ∀ mine i, e ≠ .addWork mine i)
      (hnode : (cfg.node n).step s.node e = some node) :
      Happens cfg s (.node e) {
        s with
        node := node
        owed := s.owed ++ (taken s.node node e).map Prod.snd
        handed := s.handed ++ taken s.node node e
      }
  | executed {c : Fin n} {k : Nat} {exec : ExecStats} {res : CString} (a : InvokerNode.Active)
      (path : Deployment.StartPath) (umiId : Invoker.UmiId) (buf : IOBuf)
      (ha : (s.node.active c)[k]? = some a) (hstage : a.stage = .blocked path umiId)
      (hsend : SeussChannel.sendReply { a.invocation.info with exec := exec } res = .ok buf) :
      Happens cfg s (.executed c k exec res)
        { s with owed := s.owed.erase a.invocation, replies := s.replies ++ [buf] }

section step

variable {cfg} {s t : State n} {e : Event n}

theorem happens_of_step (h : (machine cfg n).step s e = some t) : Happens cfg s e t := by
  cases e with
  | system e =>
    change s.stepSystem cfg e = some t at h
    unfold State.stepSystem at h
    split at h
    . next houtside =>
      rw [Option.map_eq_some_iff] at h
      rcases h with ⟨t', hstep, rfl⟩
      exact .system t' houtside hstep
    . cases h
  | receiveRequest mine k =>
    change s.receiveRequest cfg mine k = some t at h
    rw [State.receiveRequest, Option.bind_eq_some_iff] at h
    rcases h with ⟨buf, hbuf, h⟩
    dsimp only at h
    split at h
    . cases h
    . next i hreceive =>
      rw [Option.map_eq_some_iff] at h
      rcases h with ⟨node, hnode, rfl⟩
      exact .queued buf i node hbuf hreceive hnode
    . next received hother hreceive =>
      cases h
      exact .ignored buf received hbuf hreceive hother
  | node e =>
    change s.stepNode cfg e = some t at h
    unfold State.stepNode at h
    split at h
    . cases h
    . next hother =>
      rw [Option.map_eq_some_iff] at h
      rcases h with ⟨node, hnode, rfl⟩
      exact .node node hother hnode
  | executed c k exec res =>
    change s.executed c k exec res = some t at h
    rw [State.executed, Option.bind_eq_some_iff] at h
    rcases h with ⟨a, ha, h⟩
    split at h
    . next path umiId hstage =>
      rw [Option.map_eq_some_iff] at h
      rcases h with ⟨buf, hsend, rfl⟩
      exact .executed a path umiId buf ha hstage (Machine.toOption_eq_some.mp hsend)
    . cases h

end step

end FullStack
end Seuss
