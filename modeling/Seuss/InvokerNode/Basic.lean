import Seuss.Deployment.Basic
import Seuss.Invoker.ConcurrencyLimit
import Seuss.Invoker.IdleInstances

/-!
This module contains a whole invoker node: the cores that take work from the queue, the start paths that
`Invoker::Invoke` tries for an invocation one after the other, the sessions it waits for in between, the
idle instances of each core and the snapshot cache that all cores share.
-/

namespace Seuss
namespace InvokerNode

open Invoker Deployment

-- How far `Invoke` has come with an invocation.
inductive Stage where
  | trying (path : StartPath)
  -- in `WhenFinished().Block()` of the session with this instance
  | blocked (path : StartPath) (umiId : UmiId)
  | finished
  -- every start path has returned `false`
  | failed
  deriving DecidableEq

structure Active where
  invocation : Invocation
  stage : Stage
  deriving DecidableEq

def Active.fid (a : Active) : UInt64 :=
  a.invocation.info.functionId

structure Opened where
  path : StartPath
  fid : UInt64
  deriving DecidableEq

structure State (n : Nat) where
  node : Node n
  -- the invocations in flight on each core, in the order of `inflight`
  active : Fin n → List Active
  idle : Fin n → Idle.State
  checkpoints : List Checkpoint
  -- the sessions that were opened, and those of them that were aborted
  opened : List Opened
  aborted : List Opened

def State.new (hotLimit reuseLimit : UInt16) (n : Nat) : State n where
  node := .new n
  active := fun _ => []
  idle := fun _ => .new hotLimit reuseLimit
  checkpoints := []
  opened := []
  aborted := []

inductive Event (n : Nat) where
  | addWork (mine : Fin n) (i : Invocation)
  | poke (c : Fin n)
  -- `umiId` is the instance that a warm or a cold start creates
  | attempt (c : Fin n) (k : Nat) (umiId : UmiId) (managed : UmiId → Bool)
  | captured (k : Nat) (sv : SnapshotId)
  | closed (c : Fin n) (k j : Nat) (managed : UmiId → Bool)
  | aborted (c : Fin n) (k j : Nat)
  | signalHalt (c : Fin n) (j : Nat)
  | leave (c : Fin n) (k : Nat)

variable {n : Nat} (build : Build) (limit : UInt16)

def State.setStage (s : State n) (c : Fin n) (k : Nat) (a : Active) (stage : Stage) : State n :=
  { s with active := Function.update s.active c ((s.active c).set k { a with stage := stage }) }

def State.setIdle (s : State n) (c : Fin n) (idle : Idle.State) : State n :=
  { s with idle := Function.update s.idle c idle }

def State.openSession (s : State n) (c : Fin n) (k : Nat) (a : Active) (path : StartPath)
    (idle : Idle.State) (umiId : UmiId) : State n :=
  let s := (s.setIdle c idle).setStage c k a (.blocked path umiId)
  { s with opened := s.opened ++ [{ path := path, fid := a.fid }] }

def State.processHotStart (s : State n) (c : Fin n) (k : Nat) (a : Active) (managed : UmiId → Bool) :
    Option (Except Fault (State n)) :=
  ((s.idle c).step build (.hotStart a.fid managed)).map fun r => do
    let idle ← r
    match idle.sessions[(s.idle c).sessions.length]? with
    | none => .ok ((s.setIdle c idle).setStage c k a (.trying .warm))
    | some session => .ok (s.openSession c k a .hot idle session.umiId)

-- The identifiers of instances are fresh on all cores.
def State.startInstance (s : State n) (c : Fin n) (k : Nat) (a : Active) (path : StartPath)
    (umiId : UmiId) : Option (Except Fault (State n)) :=
  if ∀ d, umiId ∉ (s.idle d).created then
    ((s.idle c).step build (.start a.fid umiId)).map fun r => do
      let idle ← r
      .ok (s.openSession c k a path idle umiId)
  else
    none

def State.processWarmStart (s : State n) (c : Fin n) (k : Nat) (a : Active) (umiId : UmiId) :
    Option (Except Fault (State n)) :=
  match s.node.root.getSnapshot build a.fid with
  | .error fault => some (.error fault)
  | .ok none => some (.ok (s.setStage c k a (.trying .cold)))
  | .ok (some _) => s.startInstance build c k a .warm umiId

def State.processColdStart (s : State n) (c : Fin n) (k : Nat) (a : Active) (umiId : UmiId) :
    Option (Except Fault (State n)) :=
  (s.startInstance build c k a .cold umiId).map fun r => do
    let t ← r
    if s.node.root.cacheIsFull then
      .ok t
    else
      .ok { t with checkpoints := t.checkpoints ++ [{ fid := a.fid, umiId := umiId }] }

def State.attempt (s : State n) (c : Fin n) (k : Nat) (a : Active) (umiId : UmiId)
    (managed : UmiId → Bool) : Option (Except Fault (State n)) :=
  match a.stage with
  | .trying .hot => s.processHotStart build c k a managed
  | .trying .warm => s.processWarmStart build c k a umiId
  | .trying .cold => s.processColdStart build c k a umiId
  | .blocked _ _ => none
  | .finished => none
  | .failed => some (.error .kabort)

-- What `Invoke` goes on with when this start path returns `false`.
def Stage.next (path : StartPath) : Stage :=
  match path with
  | .hot => .trying .warm
  | .warm => .trying .cold
  | .cold => .failed

def State.sessionAborted (s : State n) (c : Fin n) (k : Nat) (a : Active) (path : StartPath)
    (idle : Idle.State) : State n :=
  let s := (s.setIdle c idle).setStage c k a (.next path)
  { s with aborted := s.aborted ++ [{ path := path, fid := a.fid }] }

-- `j` is the session that the invocation `k` of the core is blocked on.
def State.endSession (s : State n) (c : Fin n) (k j : Nat) (e : Idle.Event)
    (resume : Active → StartPath → Idle.State → State n) : Option (Except Fault (State n)) :=
  (s.active c)[k]?.bind fun a =>
    match a.stage with
    | .blocked path umiId =>
      if (s.idle c).sessions[j]?.map Idle.OpenSession.umiId = some umiId then
        ((s.idle c).step build e).map fun r => do
          let idle ← r
          .ok (resume a path idle)
      else
        none
    | _ => none

def entered (before after : Core) : List Active :=
  (after.inflight.drop before.inflight.length).map fun i => { invocation := i, stage := .trying .hot }

def State.step (s : State n) (e : Event n) : Option (Except Fault (State n)) :=
  match e with
  | .addWork mine i => (s.node.step build limit (.addWork mine i)).map fun r => do
    let node ← r
    .ok { s with node := node }
  | .poke c => (s.node.step build limit (.poke c)).map fun r => do
    let node ← r
    .ok {
      s with
      node := node
      active := Function.update s.active c
        (s.active c ++ entered (s.node.cores c) (node.cores c))
    }
  | .attempt c k umiId managed => (s.active c)[k]?.bind fun a => s.attempt build c k a umiId managed
  | .captured k sv => s.checkpoints[k]?.map fun checkpoint => do
    let (root, _) ← s.node.root.setSnapshot build checkpoint.fid sv
    .ok { s with node := { s.node with root := root }, checkpoints := s.checkpoints.eraseIdx k }
  | .closed c k j managed => s.endSession build c k j (.closed j managed) fun a _ idle =>
    (s.setIdle c idle).setStage c k a .finished
  | .aborted c k j => s.endSession build c k j (.aborted j) fun a path idle =>
    s.sessionAborted c k a path idle
  | .signalHalt c j => ((s.idle c).step build (.signalHalt j)).map fun r => do
    let idle ← r
    .ok (s.setIdle c idle)
  | .leave c k => (s.active c)[k]?.bind fun a =>
    if a.stage = .finished then
      (s.node.step build limit (.leave c k)).map fun r => do
        let node ← r
        .ok { s with node := node, active := Function.update s.active c ((s.active c).eraseIdx k) }
    else
      none

def machine (hotLimit reuseLimit : UInt16) (n : Nat) : Machine (State n) (Event n) where
  init := .new hotLimit reuseLimit n
  step s e := (s.step build limit e).bind Except.toOption

end InvokerNode
end Seuss
