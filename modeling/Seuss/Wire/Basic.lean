import Seuss.FullStack.Completion
import Seuss.Invoker.Replies

/-!
This module contains the whole stack with the sessions in it: an invocation that is blocked has an
HTTP session with its instance, and what the connection delivers to the session decides what is
replied and how the start path ends.
-/

namespace Seuss
namespace Wire

open Invoker

structure Config where
  stack : FullStack.Config
  promises : Promises

structure Session where
  config : SessionConfig
  session : InvocationSession
  -- how many responses it was given
  received : Nat

structure State (n : Nat) where
  stack : FullStack.State n
  -- the sessions of the invocations in flight, at the same positions
  sessions : Fin n → List (Option Session)

variable (cfg : Config) {n : Nat}

def State.new (n : Nat) : State n where
  stack := .new cfg.stack n
  sessions := fun _ => []

def State.setSession (s : State n) (stack : FullStack.State n) (c : Fin n) (k : Nat)
    (session : Option Session) : State n :=
  { stack := stack, sessions := Function.update s.sessions c ((s.sessions c).set k session) }

inductive Event (n : Nat) where
  | stack (e : FullStack.Event n)
  -- `srcPort` is what `get_internal_port` gives to the session
  | attempt (c : Fin n) (k : Nat) (umiId : UmiId) (managed : UmiId → Bool) (srcPort : UInt16)
  -- an event of the session of the invocation `k`, with `j` the position of its instance on the core
  | session (c : Fin n) (k j : Nat) (managed : UmiId → Bool) (env : Env) (e : SessionEvent)

-- The event neither opens nor concerns a session.
def apart (e : FullStack.Event n) : Bool :=
  match e with
  | .executed _ _ _ _ => false
  | .node (.attempt _ _ _ _) | .node (.closed _ _ _ _) | .node (.aborted _ _ _) => false
  | .system _ | .receiveRequest _ _ | .node _ => true

-- An invocation enters its core without a session and has none any more when it leaves.
def followed (before after : FullStack.State n) (e : FullStack.Event n)
    (sessions : Fin n → List (Option Session)) : Fin n → List (Option Session) :=
  match e with
  | .node (.poke c) =>
    let entered := InvokerNode.entered (before.node.node.cores c) (after.node.node.cores c)
    Function.update sessions c (sessions c ++ entered.map fun _ => none)
  | .node (.leave c k) => Function.update sessions c ((sessions c).eraseIdx k)
  | _ => sessions

def State.stepStack (s : State n) (e : FullStack.Event n) : Option (State n) :=
  if apart e = true then
    ((FullStack.machine cfg.stack n).step s.stack e).map fun stack =>
      { stack := stack, sessions := followed s.stack stack e s.sessions }
  else
    none

def newSession (i : Invocation) (path : Deployment.StartPath) (srcPort : UInt16) : Session :=
  let config := sessionConfig cfg.stack.nativeBuild cfg.promises i
  match path with
  | .hot => { config := config [], session := .new srcPort i.info, received := 0 }
  | .warm => { config := config [], session := .new srcPort (warmStats i), received := 0 }
  | .cold => { config := config i.code, session := .new srcPort i.info, received := 0 }

def sessionOf (a : InvokerNode.Active) (srcPort : UInt16) : Option Session :=
  match a.stage with
  | .blocked path _ => some (newSession cfg a.invocation path srcPort)
  | _ => none

def State.attempt (s : State n) (c : Fin n) (k : Nat) (umiId : UmiId) (managed : UmiId → Bool)
    (srcPort : UInt16) : Option (State n) := do
  let stack ← (FullStack.machine cfg.stack n).step s.stack (.node (.attempt c k umiId managed))
  let a ← (stack.node.active c)[k]?
  some (s.setSession stack c k (sessionOf cfg a srcPort))

-- `Resolve`, for each time that the session has called it
def sendReplies (s : FullStack.State n) (i : Invocation)
    (replies : List (InvocationStats × CString)) : Option (FullStack.State n) :=
  replies.foldlM (fun s r => (SeussChannel.sendReply r.1 r.2).toOption.map fun buf =>
    { s with owed := s.owed.erase i, replies := s.replies ++ [buf] }) s

-- What `save_hot_instance` has answered in the step.
def saved (before after : FullStack.State n) (c : Fin n) : Bool :=
  (after.node.idle c).pendingHalts.length = (before.node.idle c).pendingHalts.length

def finishSession (s : FullStack.State n) (c : Fin n) (k j : Nat) (managed : UmiId → Bool)
    (env : Env) (status : Option Bool) : Option (FullStack.State n) :=
  match status with
  | none => some s
  | some true => do
    let t ← (FullStack.machine cfg.stack n).step s (.node (.closed c k j managed))
    if env.saved = saved s t c then some t else none
  | some false => (FullStack.machine cfg.stack n).step s (.node (.aborted c k j))

def receives (e : SessionEvent) : Nat :=
  match e with
  | .receive _ => 1
  | _ => 0

def newReplies (before after : InvocationSession) : List (InvocationStats × CString) :=
  after.replies.drop before.replies.length

def Session.next (s : Session) (e : SessionEvent) (t : InvocationSession) : Session :=
  { s with session := t, received := s.received + receives e }

-- The session is deleted when it has finished.
def Session.after (s : Session) (e : SessionEvent) (t : InvocationSession) : Option Session :=
  match t.whenFinished with
  | none => some (s.next e t)
  | some _ => none

def State.stepSession (s : State n) (c : Fin n) (k j : Nat) (managed : UmiId → Bool) (env : Env)
    (e : SessionEvent) : Option (State n) := do
  let a ← (s.stack.node.active c)[k]?
  let session ← (s.sessions c)[k]?.join
  let t ← Invoker.stepSession session.config session.session (env, e)
  if t.stopped = none then
    let stack ← sendReplies s.stack a.invocation (newReplies session.session t)
    let stack ← finishSession cfg stack c k j managed env t.whenFinished
    some (s.setSession stack c k (session.after e t))
  else
    none

variable (n) in
def machine : Machine (State n) (Event n) where
  init := .new cfg n
  step s e :=
    match e with
    | .stack e => s.stepStack cfg e
    | .attempt c k umiId managed srcPort => s.attempt cfg c k umiId managed srcPort
    | .session c k j managed env e => s.stepSession cfg c k j managed env e

def Session.due (s : Session) : Due :=
  dueAfter s.config.code s.received

instance (b : MutIOBuf) : Decidable (IsOk b) :=
  decidable_of_iff
    (b.isChained = false ∧ InvocationSession.httpStatusOf b.data = InvocationSession.httpOk)
    ⟨fun h => ⟨h.1, h.2⟩, fun h => ⟨h.isChained, h.status⟩⟩

instance (due : Due) (b : MutIOBuf) : Decidable (due.Answers b) :=
  match due with
  | .init => inferInstanceAs (Decidable (_ ∨ _))
  | .run _ => inferInstanceAs (Decidable (_ ∧ _))
  | .nothing => inferInstanceAs (Decidable (_ = _))

instance (s : InvocationSession) : Decidable (InvocationSession.Aborting s) :=
  inferInstanceAs (Decidable (_ ∨ _))

/--
The instance answers what it is asked, and closes the connection when it has answered everything. The
session is given up only before that, and then no answer to the last request comes any more.
-/
def Session.InOrder (s : Session) (e : SessionEvent) : Prop :=
  match e with
  | .receive b => IsOk b ∧ s.received < s.session.requests.length ∧ s.due.Answers b
    ∧ (InvocationSession.Aborting s.session → s.due.next ≠ .nothing)
  | .close => s.due = .nothing
  | .abort | .fire => s.due ≠ .nothing
  | .connected | .spawned _ => True

instance (s : Session) (e : SessionEvent) : Decidable (s.InOrder e) :=
  match e with
  | .receive _ => inferInstanceAs (Decidable (_ ∧ _ ∧ _ ∧ _))
  | .close => inferInstanceAs (Decidable (_ = _))
  | .abort | .fire => inferInstanceAs (Decidable (_ ≠ _))
  | .connected | .spawned _ => instDecidableTrue

-- A new transaction id is neither outstanding nor that of an invocation still on a core.
def FreshTids (s : State n) (e : Event n) : Prop :=
  match e with
  | .stack (.system (.scheduleActivation _ am _)) => FullStack.UnusedTid cfg.stack s.stack am
  | _ => True

instance (s : State n) (e : Event n) : Decidable (FreshTids cfg s e) := by
  unfold FreshTids
  split <;> infer_instance

def SessionsInOrder (s : State n) (e : Event n) : Prop :=
  match e with
  | .session c k _ _ _ e => ∀ session ∈ (s.sessions c)[k]?.join, session.InOrder e
  | _ => True

instance (s : State n) (e : Event n) : Decidable (SessionsInOrder s e) := by
  unfold SessionsInOrder
  split <;> infer_instance

/--
Transaction ids are fresh, and the sessions are in order.
-/
def FreshInOrder (s : State n) (e : Event n) : Prop :=
  FreshTids cfg s e ∧ SessionsInOrder s e

instance (s : State n) (e : Event n) : Decidable (FreshInOrder cfg s e) :=
  inferInstanceAs (Decidable (_ ∧ _))

inductive Happens (cfg : Config) (s : State n) : Event n → State n → Prop where
  | stack {e : FullStack.Event n} (stack : FullStack.State n) (hapart : apart e = true)
      (hstep : (FullStack.machine cfg.stack n).step s.stack e = some stack) :
      Happens cfg s (.stack e) { stack := stack, sessions := followed s.stack stack e s.sessions }
  | attempt {c : Fin n} {k : Nat} {umiId : UmiId} {managed : UmiId → Bool} {srcPort : UInt16}
      (stack : FullStack.State n) (a : InvokerNode.Active)
      (hstep : (FullStack.machine cfg.stack n).step s.stack (.node (.attempt c k umiId managed))
        = some stack)
      (ha : (stack.node.active c)[k]? = some a) :
      Happens cfg s (.attempt c k umiId managed srcPort)
        (s.setSession stack c k (sessionOf cfg a srcPort))
  | session {c : Fin n} {k j : Nat} {managed : UmiId → Bool} {env : Env} {e : SessionEvent}
      (a : InvokerNode.Active) (session : Session) (t : InvocationSession)
      (replied stack : FullStack.State n) (ha : (s.stack.node.active c)[k]? = some a)
      (hsession : (s.sessions c)[k]? = some (some session))
      (hstep : Invoker.stepSession session.config session.session (env, e) = some t)
      (hrunning : t.stopped = none)
      (hreplied : sendReplies s.stack a.invocation (newReplies session.session t) = some replied)
      (hstack : finishSession cfg replied c k j managed env t.whenFinished = some stack) :
      Happens cfg s (.session c k j managed env e) (s.setSession stack c k (session.after e t))

section step

variable {cfg} {s t : State n} {e : Event n}

theorem orderly_of_freshTids {e : FullStack.Event n} (hapart : apart e = true)
    (h : FreshTids cfg s (.stack e)) : FullStack.Orderly cfg.stack s.stack e := by
  cases e with
  | system e =>
    cases e with
    | scheduleActivation env am code => exact h
    | _ => trivial
  | executed => cases hapart
  | receiveRequest => trivial
  | node e =>
    cases e with
    | closed | aborted => cases hapart
    | _ => trivial

theorem happens_of_step (h : (machine cfg n).step s e = some t) : Happens cfg s e t := by
  cases e with
  | stack e =>
    change s.stepStack cfg e = some t at h
    unfold State.stepStack at h
    split at h
    . next hapart =>
      rw [Option.map_eq_some_iff] at h
      rcases h with ⟨stack, hstep, rfl⟩
      exact .stack stack hapart hstep
    . cases h
  | attempt c k umiId managed srcPort =>
    change s.attempt cfg c k umiId managed srcPort = some t at h
    simp only [State.attempt, Option.bind_eq_bind, Option.bind_eq_some_iff, Option.some.injEq] at h
    rcases h with ⟨stack, hstep, a, ha, rfl⟩
    exact .attempt stack a hstep ha
  | session c k j managed env e =>
    change s.stepSession cfg c k j managed env e = some t at h
    simp only [State.stepSession, Option.bind_eq_bind, Option.bind_eq_some_iff] at h
    rcases h with ⟨a, ha, session, hsession, t', hstep, h⟩
    rw [Option.join_eq_some_iff] at hsession
    split at h
    . next hrunning =>
      simp only [Option.bind_eq_some_iff, Option.some.injEq] at h
      rcases h with ⟨replied, hreplied, stack, hstack, rfl⟩
      exact .session a session t' replied stack ha hsession hstep hrunning hreplied hstack
    . cases h

end step

end Wire
end Seuss
