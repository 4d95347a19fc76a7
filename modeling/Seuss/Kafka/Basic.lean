import Seuss.System.Consumer
import Seuss.Wire.Refinement

/-!
This module contains `openwhisk::kafka::activation_consumer_loop` on top of the whole stack: what a
payload asks for goes through the controller, the channel and a core to an HTTP session, and its
response comes back as the reply.
-/

namespace Seuss
namespace Kafka

structure Config where
  wire : Wire.Config
  yajl : Msg.Yajl
  invokerId : UInt64
  nullMode : Bool

def Config.consumer (cfg : Config) (n : Nat) : Consumer.Config where
  system := cfg.wire.stack.system n
  yajl := cfg.yajl
  invokerId := cfg.invokerId
  nullMode := cfg.nullMode

structure State (n : Nat) where
  wire : Wire.State n
  committed : List CString
  pending : List Consumer.Pending
  answered : List Consumer.Answer

variable (cfg : Config) {n : Nat}

def State.new (n : Nat) : State n where
  wire := .new cfg.wire n
  committed := []
  pending := []
  answered := []

-- what the loop has to do with
def State.view (s : State n) : Consumer.State where
  system := s.wire.stack.view
  committed := s.committed
  pending := s.pending
  answered := s.answered

inductive Event (n : Nat) where
  | loop (e : Consumer.Event)
  | wire (e : Wire.Event n)

def ofLoop (e : Consumer.Event) : Bool :=
  match e with
  | .poll _ _ _ _ _ | .respond _ => true
  | .system _ => false

-- what the loop has the stack do, if anything
def stepWire (s : Wire.State n) (d : Option System.Event) : Option (Wire.State n) :=
  match d with
  | none => some s
  | some d => (Wire.machine cfg.wire n).step s (.stack (.system d))

def State.stepLoop (s : State n) (e : Consumer.Event) : Option (State n) := do
  if ofLoop e = true then
    let loop ← (Consumer.machine (cfg.consumer n)).step s.view e
    let wire ← stepWire cfg s.wire (e.toSystem (cfg.consumer n))
    some {
      wire := wire
      committed := loop.committed
      pending := loop.pending
      answered := loop.answered
    }
  else
    none

variable (n) in
def machine : Machine (State n) (Event n) where
  init := .new cfg n
  step s e :=
    match e with
    | .loop e => s.stepLoop cfg e
    -- activations are only scheduled by the loop
    | .wire (.stack (.system (.scheduleActivation _ _ _))) => none
    | .wire e => ((Wire.machine cfg.wire n).step s.wire e).map fun wire => { s with wire := wire }

-- what an event is to the stack
def Event.toWire (e : Event n) : Option (Wire.Event n) :=
  match e with
  | .loop e => (e.toSystem (cfg.consumer n)).map fun d => .stack (.system d)
  | .wire e => some e

-- The id of a payload that the loop schedules is neither outstanding nor still on a core.
def FreshTids (s : State n) (e : Event n) : Prop :=
  ∀ e' ∈ e.toWire cfg, Wire.FreshTids cfg.wire s.wire e'

instance (s : State n) (e : Event n) : Decidable (FreshTids cfg s e) :=
  inferInstanceAs (Decidable (∀ e' ∈ e.toWire cfg, Wire.FreshTids cfg.wire s.wire e'))

def SessionsInOrder (s : State n) (e : Event n) : Prop :=
  ∀ e' ∈ e.toWire cfg, Wire.SessionsInOrder s.wire e'

instance (s : State n) (e : Event n) : Decidable (SessionsInOrder cfg s e) :=
  inferInstanceAs (Decidable (∀ e' ∈ e.toWire cfg, Wire.SessionsInOrder s.wire e'))

/--
Transaction ids are fresh, and the sessions are in order.
-/
def FreshInOrder (s : State n) (e : Event n) : Prop :=
  FreshTids cfg s e ∧ SessionsInOrder cfg s e

instance (s : State n) (e : Event n) : Decidable (FreshInOrder cfg s e) :=
  inferInstanceAs (Decidable (_ ∧ _))

def Event.payload (e : Event n) : Option CString :=
  match e with
  | .loop e => e.payload
  | .wire _ => none

def payloads (es : List (Event n)) : List CString :=
  es.filterMap Event.payload

inductive Happens (cfg : Config) (s : State n) : Event n → State n → Prop where
  | silent {e : Consumer.Event} (loop : Consumer.State) (hloop : ofLoop e = true)
      (hstep : (Consumer.machine (cfg.consumer n)).step s.view e = some loop)
      (hnone : e.toSystem (cfg.consumer n) = none) :
      Happens cfg s (.loop e) {
        wire := s.wire
        committed := loop.committed
        pending := loop.pending
        answered := loop.answered
      }
  | scheduled {e : Consumer.Event} (d : System.Event) (loop : Consumer.State) (wire : Wire.State n)
      (hloop : ofLoop e = true)
      (hstep : (Consumer.machine (cfg.consumer n)).step s.view e = some loop)
      (hsome : e.toSystem (cfg.consumer n) = some d)
      (hwire : (Wire.machine cfg.wire n).step s.wire (.stack (.system d)) = some wire) :
      Happens cfg s (.loop e) {
        wire := wire
        committed := loop.committed
        pending := loop.pending
        answered := loop.answered
      }
  | wire {e : Wire.Event n} (wire : Wire.State n)
      (hother : ∀ env am code, e ≠ .stack (.system (.scheduleActivation env am code)))
      (hwire : (Wire.machine cfg.wire n).step s.wire e = some wire) :
      Happens cfg s (.wire e) { s with wire := wire }

section step

variable {cfg} {s t : State n} {e : Event n}

theorem happens_of_step (h : (machine cfg n).step s e = some t) : Happens cfg s e t := by
  cases e with
  | loop e =>
    change s.stepLoop cfg e = some t at h
    unfold State.stepLoop at h
    split at h
    . next hloop =>
      simp only [Option.bind_eq_bind, Option.bind_eq_some_iff, Option.some.injEq] at h
      rcases h with ⟨loop, hstep, wire, hwire, rfl⟩
      cases hsystem : e.toSystem (cfg.consumer n) with
      | none =>
        rw [hsystem] at hwire
        cases hwire
        exact .silent loop hloop hstep hsystem
      | some d =>
        rw [hsystem] at hwire
        exact .scheduled d loop wire hloop hstep hsystem hwire
    . cases h
  | wire e =>
    simp only [machine] at h
    split at h
    . next heq => cases heq
    . cases h
    . next e' hother heq =>
      cases heq
      rw [Option.map_eq_some_iff] at h
      rcases h with ⟨wire, hwire, rfl⟩
      exact .wire wire (fun env am code he => hother env am code (by rw [he])) hwire

end step

end Kafka
end Seuss
