import Seuss.Invoker.HotInstances
import Seuss.Invoker.Session

/-!
This module contains `Invoker::Invoke`, which tries the three start paths one after the other. A path
that makes a session blocks until the session has finished. The caches are those that the path finds
when its turn comes, for other invocations run while one is blocked.
-/

namespace Seuss
namespace Invoker

-- The events of one session up to the one in which `Block()` returns.
structure Script where
  srcPort : UInt16
  events : List (Env × SessionEvent)

structure Attempt where
  status : Bool
  replies : List (InvocationStats × CString)

def Attempt.unavailable : Attempt where
  status := false
  replies := []

-- Why a start path does not return: its events are no run of a session, `Block()` still waits, or the
-- program is stopped before.
inductive Unfinished where
  | impossible
  | blocked
  | stopped (stop : Stop)
  | fault (fault : Fault)
  deriving DecidableEq

def runSession (cfg : SessionConfig) (istats : InvocationStats) (script : Script) :
    Except Unfinished Attempt :=
  match (sessionMachine cfg script.srcPort istats).run script.events with
  | none => .error .impossible
  | some s =>
    match s.whenFinished, s.stopped with
    | some status, _ => .ok { status := status, replies := s.replies }
    | none, some stop => .error (.stopped stop)
    | none, none => .error .blocked

variable (build : Build) (promises : Promises)

def sessionConfig (i : Invocation) (code : CString) : SessionConfig where
  build := build
  promises := promises
  args := i.args
  code := code

def warmStats (i : Invocation) : InvocationStats :=
  { i.info with exec.initTime := 1 }

def processHotStart (managed : UmiId → Bool) (c : HotInstances) (i : Invocation) (script : Script) :
    Except Unfinished Attempt :=
  match c.takeHotInstance managed i.info.functionId with
  | .error fault => .error (.fault fault)
  | .ok (_, none) => .ok .unavailable
  | .ok (_, some _) => runSession (sessionConfig build promises i []) i.info script

def processWarmStart (root : InvokerRoot) (i : Invocation) (script : Script) :
    Except Unfinished Attempt :=
  match root.getSnapshot build i.info.functionId with
  | .error fault => .error (.fault fault)
  | .ok none => .ok .unavailable
  | .ok (some _) => runSession (sessionConfig build promises i []) (warmStats i) script

def processColdStart (root : InvokerRoot) (i : Invocation) (script : Script) :
    Except Unfinished Attempt :=
  match root.getBaseSV build with
  | .error fault => .error (.fault fault)
  | .ok () => runSession (sessionConfig build promises i i.code) i.info script

structure Surroundings where
  managed : UmiId → Bool
  hotInstances : HotInstances
  root : InvokerRoot
  hotScript : Script
  warmScript : Script
  coldScript : Script

structure Invoked where
  replies : List (InvocationStats × CString)
  kaborted : Bool

def invoke (env : Surroundings) (i : Invocation) : Except Unfinished Invoked := do
  let hot ← processHotStart build promises env.managed env.hotInstances i env.hotScript
  if hot.status then
    return { replies := hot.replies, kaborted := false }
  else
    let warm ← processWarmStart build promises env.root i env.warmScript
    if warm.status then
      return { replies := hot.replies ++ warm.replies, kaborted := false }
    else
      let cold ← processColdStart build promises env.root i env.coldScript
      return { replies := hot.replies ++ warm.replies ++ cold.replies, kaborted := !cold.status }

end Invoker
end Seuss
