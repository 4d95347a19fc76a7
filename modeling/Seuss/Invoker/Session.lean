import Seuss.Data.Machine
import Seuss.InvocationSession.Basic

/-!
This module contains the sessions that `Invoker::new_invocation_session` makes: what their
callbacks do, and the runs of one of them on the core that it is bound to.
-/

namespace Seuss
namespace Invoker

open InvocationSession

structure SessionConfig where
  build : Build
  promises : Promises
  args : CString
  code : CString

variable (cfg : SessionConfig)

def whenConnected (env : Env) (s : InvocationSession) : Outcome :=
  if cfg.code ≠ [] then
    sendHttpRequest cfg.build env.now "/init".toList cfg.code true s
  else
    sendHttpRequest cfg.build env.now "/run".toList cfg.args false s

def whenInitialized (env : Env) (s : InvocationSession) : Outcome :=
  sendHttpRequest cfg.build env.now "/run".toList cfg.args false
    { s with istats.exec.initTime := s.getInittime env.now }

def whenExecuted (env : Env) (s : InvocationSession) : Outcome :=
  let s := { s with istats.exec.status := false, istats.exec.runTime := s.getRuntime env.now }
  .done (emit (.resolve s.istats s.reply) s)

def whenClosed (env : Env) (s : InvocationSession) : Outcome :=
  (finish cfg.promises true s).andThen fun s =>
    let s := emit (.saveHotInstance env.saved) s
    .done (if env.saved then s else spawn .signalHalt s)

def whenAborted (s : InvocationSession) : Outcome :=
  (finish cfg.promises false s).andThen fun s =>
    .done (spawn .signalHalt s)

def handlers (env : Env) (sig : Signal) (s : InvocationSession) : Outcome :=
  match sig with
  | .connected => whenConnected cfg env s
  | .initialized => whenInitialized cfg env s
  | .executed => whenExecuted env s
  | .closed => whenClosed cfg env s
  | .aborted => whenAborted cfg s

inductive SessionEvent where
  | connected
  | receive (b : MutIOBuf)
  | close
  | abort
  | fire
  -- the `k`-th of the events that are spawned and have not run
  | spawned (k : Nat)

def runSpawned (env : Env) (e : Spawned) (s : InvocationSession) : Outcome :=
  match e with
  | .connect => s.connect env.now
  | .setValue sig => s.setValue cfg.promises (handlers cfg) env sig
  | .signalHalt => .done (emit .signalHalt s)

def runSessionEvent (env : Env) (e : SessionEvent) (s : InvocationSession) : Option Outcome :=
  match e with
  | .connected => if s.connecting then some (.done (s.connected env.now)) else none
  | .receive b => some (s.receive cfg.promises (handlers cfg) env b)
  | .close => some (.done s.close)
  | .abort => some (.done s.abort)
  | .fire =>
    match s.hook with
    | none => none
    | some deadline =>
      if deadline ≤ env.now then some (.done (fire env.now { s with hook := none })) else none
  | .spawned k => s.spawned[k]?.map fun e => runSpawned cfg env e (s.unspawn k)

def stepSession (s : InvocationSession) (e : Env × SessionEvent) : Option InvocationSession :=
  match s.stopped with
  | some _ => none
  | none => (runSessionEvent cfg e.1 e.2 s).map Outcome.settle

def sessionMachine (srcPort : UInt16) (istats : InvocationStats) :
    Machine InvocationSession (Env × SessionEvent) where
  init := .new srcPort istats
  step := stepSession cfg

def exampleStats : InvocationStats where
  transactionId := 1
  functionId := 7
  argsSize := 2
  activationId := .filled 'a'
  exec := .zero

def exampleConfig (promises : Promises) (code : CString) : SessionConfig where
  build := .release
  promises := promises
  args := "\x7b\x7d".toList
  code := code

def opening : List (Env × SessionEvent) :=
  [(⟨1, false⟩, .spawned 0), (⟨2, false⟩, .connected), (⟨3, false⟩, .spawned 0)]

end Invoker
end Seuss
