import Seuss.Data.UnorderedMap
import Seuss.OpenWhisk.Msg

/-!
This module contains `seuss::Controller`, the component of the hosted process that turns an
activation into a request for the back end and a reply of the back end into a completion.
-/

namespace Seuss

open Msg

-- `nid.ToString()`, the only thing that is ever read of a `NetworkId`
abbrev NetworkId := CString

structure ActivationRecord where
  -- names the future that was returned by the call that created the record
  promise : Nat
  am : ActivationMessage
  start : Time

structure Controller where
  nids : List NetworkId
  frontEndCpusMap : UnorderedMap CString UInt64
  recordMap : UnorderedMap UInt64 ActivationRecord

structure SendRequestEvent where
  ioCpu : UInt64
  nid : NetworkId
  stats : InvocationStats
  args : CString
  code : CString

def Controller.new : Controller where
  nids := []
  frontEndCpusMap := ∅
  recordMap := ∅

namespace Controller

def registerNode (c : Controller) (cpuNum : Int) (nid : NetworkId) : Controller :=
  let nids := c.nids ++ [nid]
  let index := Int.tmod (cpuNum - nids.length) cpuNum
  {
    c with
    nids := nids
    frontEndCpusMap := (c.frontEndCpusMap.emplace nid (UInt64.ofInt index)).1
  }

def ready (c : Controller) : Bool :=
  !c.nids.isEmpty

-- What a call of `ScheduleActivation` finds around it: the answer of `couchdb::get_action`, the
-- clock and the memory behind the terminating NUL of `activationId_`.
structure ScheduleEnv where
  getAction : Action → CString
  now : Time
  beyond : Nat → Char

variable (hash : CString → UInt64)

-- `std::copy` of 33 characters into the zeroed `activation_id`
def copyActivationId (beyond : Nat → Char) (activationId : CString) : ActivationIdBuf :=
  let source := activationId ++ '\x00' :: (List.range 33).map beyond
  ⟨source.take 33 ++ ['\x00'], by simp [source]⟩

def tid (am : ActivationMessage) : UInt64 :=
  hash am.transid.name

def fid (am : ActivationMessage) : UInt64 :=
  hash am.revision

def obtainCode (env : ScheduleEnv) (am : ActivationMessage) (code : CString) : CString :=
  if code.isEmpty then env.getAction am.action else code

def requestStats (env : ScheduleEnv) (am : ActivationMessage) : InvocationStats where
  transactionId := tid hash am
  functionId := fid hash am
  argsSize := am.content.length
  activationId := copyActivationId env.beyond am.activationId
  exec := .zero

def scheduleActivation (build : Build) (env : ScheduleEnv) (c : Controller) (promise : Nat)
    (am : ActivationMessage) (code : CString) :
    Except Fault (Controller × SendRequestEvent) := do
  let code := obtainCode env am code
  let args := am.content
  let stats := requestStats hash env am
  let record := { promise := promise, am := am, start := env.now }
  let (recordMap, inserted) := c.recordMap.emplace (tid hash am) record
  -- `assert(inserted)`; without it a duplicate is sent to the back end all the same
  build.kassert inserted
  match c.nids with
  | [] =>
    -- `kassert(!_nids.empty())`, and `front()` of an empty vector where it is compiled out
    build.kassert false
    .error .undefined
  | nid :: _ =>
    let (ioCpu, cpus) := c.frontEndCpusMap.subscript nid
    .ok ({ c with frontEndCpusMap := cpus, recordMap := recordMap }, ⟨ioCpu, nid, stats, args, code⟩)

def annotations (waitTime initTime : UInt64) : CString :=
  "\x7b\"key\":\"waitTime\",\"value\":".toList ++ CString.ofNat waitTime.toNat
    ++ "\x7d,\x7b\"key\":\"initTime\",\"value\":".toList ++ CString.ofNat initTime.toNat ++ "\x7d".toList

-- The message that fulfils the promise of the record. `size_t` values wrap around.
def completion (uninit : CompletionMessage) (record : ActivationRecord) (istats : InvocationStats)
    (res : CString) (endTime : Time) : CompletionMessage :=
  let cm := CompletionMessage.ofActivation uninit record.am
  let totalTime := millisecondsBetween record.start endTime
  let waitTime := totalTime - istats.exec.runTime - istats.exec.initTime
  {
    cm with
    response := {
      cm.response with
      annotations := annotations waitTime istats.exec.initTime
      duration := istats.exec.runTime.toInt64
      start := 0
      end_ := 0
      statusCode := if istats.exec.status then 1 else 0
      result := res
    }
  }

def resolveActivation (uninit : CompletionMessage) (c : Controller) (istats : InvocationStats)
    (res : CString) (endTime : Time) : Controller × Option (Nat × CompletionMessage) :=
  match c.recordMap.find? istats.transactionId with
  | none => (c, none)
  | some record =>
    (
      { c with recordMap := AList.erase istats.transactionId c.recordMap },
      some (record.promise, completion uninit record istats res endTime)
    )

end Controller
end Seuss
