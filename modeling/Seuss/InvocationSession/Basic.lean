import Mathlib.Logic.Function.Basic
import Seuss.Basic

/-!
This module contains `seuss::InvocationSession`, the TCP client of one function instance. The
library that it runs on is a parameter where the sources do not fix what it does: what `SetValue`
does on a promise that has a value and where an exception of a callback goes. Callbacks run inside
the `SetValue` that they wait for.
-/

namespace Seuss

inductive Resatisfy where
  | throws
  | ignored
  | reruns
  deriving DecidableEq, Repr

structure Promises where
  second : Resatisfy
  -- exceptions of a callback stay in the future that `Then` returned
  captures : Bool

inductive Signal where
  | aborted
  | closed
  | connected
  | executed
  | initialized
  deriving DecidableEq, Repr

inductive Stop where
  | outOfRange
  | alreadySatisfied
  | kassert
  | kbugon
  deriving DecidableEq, Repr

def Stop.isException (stop : Stop) : Bool :=
  match stop with
  | .outOfRange | .alreadySatisfied => true
  | .kassert | .kbugon => false

inductive Spawned where
  | connect
  | setValue (sig : Signal)
  | signalHalt
  deriving DecidableEq, Repr

inductive Effect where
  | connect (srcPort : UInt16)
  | disconnect
  | startTimer (microseconds : Int)
  | stopTimer
  | send (path msg : CString)
  | setValue (sig : Signal)
  | finish (status : Bool)
  | resolve (istats : InvocationStats) (ret : CString)
  | saveHotInstance (saved : Bool)
  | signalHalt
  deriving DecidableEq

def Effect.path? (e : Effect) : Option CString :=
  match e with
  | .send path _ => some path
  | _ => none

def Effect.reply? (e : Effect) : Option (InvocationStats × CString) :=
  match e with
  | .resolve istats ret => some (istats, ret)
  | _ => none

structure InvocationSession where
  -- the promises `when_*_` that have a value
  satisfied : Signal → Bool
  whenFinished : Option Bool
  isConnected : Bool
  isInitialized : Bool
  srcPort : UInt16
  timerSet : Bool
  timeout : Time
  initStartTime : Time
  runStartTime : Time
  previousRequest : CString
  reply : CString
  -- what the callbacks point to
  istats : InvocationStats
  -- a connection that was asked for and is not established yet
  connecting : Bool
  -- when `ebbrt::timer` fires the hook
  hook : Option Time
  spawned : List Spawned
  effects : List Effect
  stopped : Option Stop

-- What an event finds around it: the clock and the answer of `save_hot_instance`.
structure Env where
  now : Time
  saved : Bool

structure MutIOBuf where
  data : CString
  isChained : Bool

inductive Outcome where
  | done (s : InvocationSession)
  | threw (stop : Stop) (s : InvocationSession)

def Outcome.andThen (o : Outcome) (f : InvocationSession → Outcome) : Outcome :=
  match o with
  | .done s => f s
  | .threw stop s => .threw stop s

-- An exception that leaves the handler of an event ends the process.
def Outcome.settle (o : Outcome) : InvocationSession :=
  match o with
  | .done s => s
  | .threw stop s => { s with stopped := some stop }

def Promises.callback (promises : Promises) (o : Outcome) : Outcome :=
  match o with
  | .done s => .done s
  | .threw stop s => if promises.captures && stop.isException then .done s else .threw stop s

namespace InvocationSession

def new (srcPort : UInt16) (istats : InvocationStats) : InvocationSession where
  satisfied := fun _ => false
  whenFinished := none
  isConnected := false
  isInitialized := false
  srcPort := srcPort
  timerSet := false
  timeout := 0
  initStartTime := 0
  runStartTime := 0
  previousRequest := []
  reply := []
  istats := istats
  connecting := false
  hook := none
  spawned := [.connect]
  effects := []
  stopped := none

def emit (e : Effect) (s : InvocationSession) : InvocationSession :=
  { s with effects := s.effects ++ [e] }

def spawn (e : Spawned) (s : InvocationSession) : InvocationSession :=
  { s with spawned := s.spawned ++ [e] }

def unspawn (k : Nat) (s : InvocationSession) : InvocationSession :=
  { s with spawned := s.spawned.eraseIdx k }

def enableTimer (now : Time) (s : InvocationSession) : InvocationSession :=
  if s.timerSet ∨ now ≥ s.timeout then
    s
  else
    let duration := Int.tdiv (s.timeout - now) 1000
    emit (.startTimer duration) { s with hook := some (now + duration * 1000), timerSet := true }

def stopTimer (s : InvocationSession) : InvocationSession :=
  if s.timerSet then emit .stopTimer { s with hook := none } else s

def disableTimer (s : InvocationSession) : InvocationSession :=
  { s.stopTimer with timerSet := false, timeout := 0 }

def connect (now : Time) (s : InvocationSession) : Outcome :=
  if s.isConnected then
    .threw .kbugon s
  else if s.srcPort = 0 then
    .threw .kbugon s
  else
    let s := emit (.connect s.srcPort) { s with connecting := true }
    .done (enableTimer now { s with timeout := now + 5000 * 1000000 })

def connected (now : Time) (s : InvocationSession) : InvocationSession :=
  let s := disableTimer { s with isConnected := true, connecting := false }
  let s := enableTimer now { s with timeout := now + 60 * 1000000000 }
  spawn (.setValue .connected) s

def close (s : InvocationSession) : InvocationSession :=
  let s := emit .disconnect { disableTimer s with isConnected := false }
  spawn (.setValue .closed) s

def abort (s : InvocationSession) : InvocationSession :=
  spawn (.setValue .aborted) { disableTimer s with isConnected := false }

def fire (now : Time) (s : InvocationSession) : InvocationSession :=
  let s := { s with timerSet := false }
  if s.timeout ≠ 0 ∧ now ≥ s.timeout then abort { s with timeout := 0 } else s

def getRuntime (now : Time) (s : InvocationSession) : UInt64 :=
  millisecondsBetween s.runStartTime now

def getInittime (now : Time) (s : InvocationSession) : UInt64 :=
  millisecondsBetween s.initStartTime now

def httpPostRequest (path msg : CString) (keepAlive : Bool) : CString :=
  let msg := msg.filter (· ≠ '\n')
  let value :=
    if path = "/init".toList ∨ path = "/preInit".toList then
      "\x7b\"main\":\"main\", \"code\":\"".toList ++ msg ++ "\"\x7d\x7d".toList
    else
      msg ++ "\x7d".toList
  let body := "\x7b\"value\": ".toList ++ value
  "POST ".toList ++ path ++ " HTTP/1.0\r\n".toList
    ++ "Content-Type: application/json\r\n".toList
    ++ (if keepAlive then "Connection: keep-alive\r\n".toList else [])
    ++ "content-length: ".toList ++ CString.ofNat body.length ++ "\r\n\r\n".toList ++ body

def recordStart (now : Time) (path : CString) (s : InvocationSession) : InvocationSession :=
  if path = "/init".toList then
    { s with initStartTime := now }
  else if path = "/run".toList then
    { s with runStartTime := now }
  else
    s

def sendHttpRequest (build : Build) (now : Time) (path payload : CString) (keepAlive : Bool)
    (s : InvocationSession) : Outcome :=
  match build.kassert (payload.length > 0) with
  | .error _ => .threw .kassert s
  | .ok () =>
    let msg := httpPostRequest path payload keepAlive
    .done (emit (.send path msg) (recordStart now path { s with previousRequest := msg }))

section promises

variable (promises : Promises) (handlers : Env → Signal → InvocationSession → Outcome)

def finish (status : Bool) (s : InvocationSession) : Outcome :=
  let s := emit (.finish status) s.disableTimer
  match s.whenFinished, promises.second with
  | none, _ => .done { s with whenFinished := some status }
  | some _, .throws => .threw .alreadySatisfied s
  | some _, .ignored => .done s
  | some _, .reruns => .done { s with whenFinished := some status }

def setValue (env : Env) (sig : Signal) (s : InvocationSession) : Outcome :=
  let s := emit (.setValue sig) s
  match s.satisfied sig, promises.second with
  | false, _ =>
    let s := { s with satisfied := Function.update s.satisfied sig true }
    promises.callback (handlers env sig s)
  | true, .throws => .threw .alreadySatisfied s
  | true, .ignored => .done s
  | true, .reruns => promises.callback (handlers env sig s)

-- `reply.substr(reply.find_first_of("{"))`, which throws where there is none
def responseOf (reply : CString) : Option CString :=
  match reply.findFirstOf '{' with
  | none => none
  | some pos => reply.substr pos none

-- `reply.substr(0, reply.find_first_of("\r"))`, which cannot throw
def httpStatusOf (reply : CString) : CString :=
  (reply.substr 0 (reply.findFirstOf '\r')).getD []

def httpOk : CString := "HTTP/1.1 200 OK".toList

def initialized : CString := "\x7b\"OK\":true\x7d".toList

def receiveFailure (env : Env) (response : CString) (s : InvocationSession) : Outcome :=
  (setValue promises handlers env .aborted { s with reply := response }).andThen fun s =>
    .done (emit .disconnect s)

def receiveResponse (env : Env) (response : CString) (s : InvocationSession) : Outcome :=
  if response = initialized ∧ ¬ s.isInitialized then
    setValue promises handlers env .initialized { s with isInitialized := true }
  else
    setValue promises handlers env .executed { s with reply := response }

def receive (env : Env) (b : MutIOBuf) (s : InvocationSession) : Outcome :=
  if b.isChained then
    .threw .kbugon s
  else
    match responseOf b.data with
    | none => .threw .outOfRange s
    | some response =>
      if httpStatusOf b.data ≠ httpOk then
        -- does not return
        (receiveFailure promises handlers env response s).andThen
          (receiveResponse promises handlers env response)
      else
        receiveResponse promises handlers env response s

end promises

def requests (s : InvocationSession) : List CString :=
  s.effects.filterMap Effect.path?

def replies (s : InvocationSession) : List (InvocationStats × CString) :=
  s.effects.filterMap Effect.reply?

def effectsSince (s t : InvocationSession) : List Effect :=
  t.effects.drop s.effects.length

end InvocationSession
end Seuss
