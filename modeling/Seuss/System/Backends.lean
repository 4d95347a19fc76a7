import Mathlib.Logic.Function.Basic
import Seuss.System.WorkQueue

/-!
This module contains the controller with all the native instances that were allocated for it. Every one of
them registers itself, and everything is sent to the one that registered first: the others stay as they were
booted, and the one that is used is the node of `System`.
-/

namespace Seuss
namespace Backends

-- a native instance with the messages that are on their way to it and from it
structure Node where
  requests : List IOBuf
  root : InvokerRoot
  working : List Invocation
  replies : List IOBuf
  added : List Invocation
  handed : List (Nat × Invocation)

def Node.booted : Node where
  requests := []
  root := .bootstrapped
  working := []
  replies := []
  added := []
  handed := []

structure State where
  hosted : Controller.State
  nodes : NetworkId → Node

def State.new : State where
  hosted := .new
  nodes _ := .booted

-- the system as one node is in it
def State.view (s : State) (nid : NetworkId) : System.State where
  hosted := s.hosted
  requests := (s.nodes nid).requests
  root := (s.nodes nid).root
  working := (s.nodes nid).working
  replies := (s.nodes nid).replies
  added := (s.nodes nid).added
  handed := (s.nodes nid).handed

def Node.of (s : System.State) : Node where
  requests := s.requests
  root := s.root
  working := s.working
  replies := s.replies
  added := s.added
  handed := s.handed

def State.put (s : State) (nid : NetworkId) (system : System.State) : State where
  hosted := system.hosted
  nodes := Function.update s.nodes nid (.of system)

structure Event where
  nid : NetworkId
  event : System.Event

-- `SendRequest` sends to the node that `ScheduleActivation` has chosen.
def Event.Addressed (s : State) (e : Event) : Prop :=
  match e.event with
  | .sendRequest k => ∀ event ∈ s.hosted.spawned[k]?, event.nid = e.nid
  | _ => True

instance (s : State) (e : Event) : Decidable (e.Addressed s) := by
  unfold Event.Addressed
  split <;> infer_instance

variable (cfg : System.Config)

def machine : Machine State Event where
  init := .new
  step s e :=
    if e.Addressed s then
      ((System.machine cfg).step (s.view e.nid) e.event).map (s.put e.nid)
    else
      none

def FreshTid (s : State) (e : Event) : Prop :=
  System.FreshTid cfg (s.view e.nid) e.event

instance (s : State) (e : Event) : Decidable (FreshTid cfg s e) :=
  inferInstanceAs (Decidable (System.FreshTid cfg (s.view e.nid) e.event))

-- The event is one of the controller alone.
def hostedOnly (e : System.Event) : Bool :=
  match e with
  | .registerNode _ _ | .scheduleActivation _ _ _ => true
  | _ => false

-- what an event is to the controller and the node `front`
def Event.at (front : NetworkId) (e : Event) : Option System.Event :=
  if hostedOnly e.event = true ∨ e.nid = front then some e.event else none

def State.front (s : State) : Option NetworkId :=
  s.hosted.controller.nids.head?

structure Single (s : State) : Prop where
  addressed : ∀ event ∈ s.hosted.spawned, s.front = some event.nid
  booted : ∀ nid, s.front ≠ some nid → s.nodes nid = .booted

section step

variable {cfg} {s t : State} {nid front : NetworkId} {e : Event} {ev : System.Event}
  {system system' : System.State}

theorem step_eq_some :
    (machine cfg).step s e = some t
      ↔
    e.Addressed s
      ∧ ∃ system, (System.machine cfg).step (s.view e.nid) e.event = some system
        ∧ s.put e.nid system = t := by
  simp only [machine, Option.ite_none_right_eq_some, Option.map_eq_some_iff]

@[simp]
theorem State.view_put (s : State) (nid : NetworkId) (system : System.State) :
    (s.put nid system).view nid = system := by
  simp [State.view, State.put, Node.of]

theorem State.put_view (s : State) (nid : NetworkId) : s.put nid (s.view nid) = s := by
  have hnode : Node.of (s.view nid) = s.nodes nid := rfl
  simp only [State.put, hnode, Function.update_eq_self]
  rfl

theorem State.put_hosted (s : State) (nid : NetworkId) (hosted : Controller.State) :
    s.put nid { s.view nid with hosted := hosted } = { s with hosted := hosted } := by
  have hnode : Node.of { s.view nid with hosted := hosted } = s.nodes nid := rfl
  simp only [State.put, hnode, Function.update_eq_self]

theorem State.nodes_put_of_ne (s : State) (system : System.State) (h : nid ≠ front) :
    (s.put front system).nodes nid = s.nodes nid := by
  simp [State.put, h]

theorem booted_view (h : s.nodes nid = .booted) :
    (s.view nid).requests = [] ∧ (s.view nid).root = .bootstrapped ∧ (s.view nid).working = []
      ∧ (s.view nid).replies = [] := by
  rw [State.view, h]
  exact ⟨rfl, rfl, rfl, rfl⟩

-- Nothing can happen at a node that nothing was sent to, but that a core finds no work.
theorem step_booted (hnode : s.nodes nid = .booted)
    (hs : (System.machine cfg).step (s.view nid) ev = some system) (hhosted : hostedOnly ev = false)
    (hsend : ∀ k, ev ≠ .sendRequest k) : system = s.view nid := by
  rcases booted_view hnode with ⟨hrequests, hroot, hworking, hreplies⟩
  rw [System.machine_step] at hs
  cases System.happens_of_step hs with
  | registerNode | scheduleActivation => cases hhosted
  | sendRequest => exact absurd rfl (hsend _)
  | loseRequest buf hbuf | receiveRequest buf received hbuf =>
    rw [hrequests] at hbuf
    cases hbuf
  | idle root hwork => rw [(InvokerRoot.getWork_eq_none hwork).2]
  | getWork root i hwork =>
    rcases InvokerRoot.getWork_eq_some hwork with ⟨tid, hqueue, _⟩
    rw [hroot] at hqueue
    cases hqueue
  | sendReply i buf hi =>
    rw [hworking] at hi
    cases hi
  | loseReply buf hbuf | receiveReply buf received hbuf =>
    rw [hreplies] at hbuf
    cases hbuf

theorem step_hostedOnly (hs : (System.machine cfg).step (s.view nid) ev = some system)
    (hhosted : hostedOnly ev = true) :
    ∃ hosted, system = { s.view nid with hosted := hosted }
      ∧ ∀ nid', (System.machine cfg).step (s.view nid') ev = some { s.view nid' with hosted := hosted } := by
  rw [System.machine_step] at hs
  cases System.happens_of_step hs with
  | registerNode hosted hstep | scheduleActivation hosted hstep =>
    refine ⟨hosted, rfl, ?_⟩
    intro nid'
    have hstep' : Controller.State.step cfg.hash cfg.hostedBuild (s.view nid').hosted _ = .ok hosted := hstep
    rw [System.machine_step, System.State.step, hstep']
    rfl
  | _ => cases hhosted

-- The first node stays the first.
theorem front_of_step (hs : (System.machine cfg).step (s.view nid) ev = some system)
    (hfront : s.front = some front) : (s.put nid system).front = some front := by
  have hkeep : system.hosted.controller.nids.head? = some front := by
    rw [System.machine_step] at hs
    cases System.happens_of_step hs with
    | registerNode hosted hstep =>
      cases hstep
      change (s.hosted.controller.nids ++ [_]).head? = some front
      rw [List.head?_append, ← State.front, hfront]
      rfl
    | scheduleActivation hosted hstep =>
      rcases Controller.State.step_scheduleActivation_cases hstep with ⟨c, event, hcall, rfl⟩
      rw [(Controller.scheduleActivation_cases hcall).2.1]
      exact hfront
    | sendRequest | loseRequest | idle | getWork | sendReply | loseReply => exact hfront
    | receiveRequest buf received hbuf hreceive hqueue =>
      rcases System.queueInvocation_eq_ok hqueue with ⟨root, added, rfl⟩
      exact hfront
    | receiveReply buf received hbuf hreceive hresolve =>
      rcases System.resolveReceived_cases hresolve with ⟨clock, _, rfl, _⟩ | ⟨_, _, _, _, _, rfl⟩
      . exact hfront
      . exact hfront
  exact hkeep

theorem spawned_of_step {event : SendRequestEvent}
    (hs : (System.machine cfg).step (s.view nid) ev = some system)
    (hevent : event ∈ system.hosted.spawned) :
    event ∈ s.hosted.spawned ∨ s.front = some event.nid := by
  rw [System.machine_step] at hs
  cases System.happens_of_step hs with
  | registerNode hosted hstep =>
    cases hstep
    exact .inl hevent
  | scheduleActivation hosted hstep =>
    rcases Controller.State.step_scheduleActivation_cases hstep with ⟨c, event', hcall, rfl⟩
    rcases List.mem_append.mp hevent with hevent | hevent
    . exact .inl hevent
    . rw [List.mem_singleton.mp hevent]
      exact .inr (Controller.scheduleActivation_cases hcall).1
  | sendRequest => exact .inl (List.mem_of_mem_eraseIdx hevent)
  | loseRequest | idle | getWork | sendReply | loseReply => exact .inl hevent
  | receiveRequest buf received hbuf hreceive hqueue =>
    rcases System.queueInvocation_eq_ok hqueue with ⟨root, added, rfl⟩
    exact .inl hevent
  | receiveReply buf received hbuf hreceive hresolve =>
    rcases System.resolveReceived_cases hresolve with ⟨clock, _, rfl, _⟩ | ⟨_, _, _, _, _, rfl⟩
    . exact .inl hevent
    . exact .inl hevent

theorem Single.new : Single State.new where
  addressed _ h := nomatch h
  booted _ _ := rfl

/--
A step is one of the controller alone, one of the first node, or nothing at all.
-/
theorem Single.cases_of_step (h : Single s) (hs : (machine cfg).step s e = some t) :
    (∃ hosted, hostedOnly e.event = true ∧ t = { s with hosted := hosted }
        ∧ ∀ nid, (System.machine cfg).step (s.view nid) e.event
          = some { s.view nid with hosted := hosted })
      ∨ (s.front = some e.nid ∧ hostedOnly e.event = false
        ∧ ∃ system, (System.machine cfg).step (s.view e.nid) e.event = some system
          ∧ t = s.put e.nid system)
      ∨ (s.front ≠ some e.nid ∧ hostedOnly e.event = false ∧ t = s) := by
  rcases step_eq_some.mp hs with ⟨haddressed, system, hstep, rfl⟩
  cases hhosted : hostedOnly e.event with
  | true =>
    rcases step_hostedOnly hstep hhosted with ⟨hosted, rfl, hall⟩
    exact .inl ⟨hosted, rfl, State.put_hosted s e.nid hosted, hall⟩
  | false =>
    by_cases hfront : s.front = some e.nid
    . exact .inr (.inl ⟨hfront, rfl, system, hstep, rfl⟩)
    . refine .inr (.inr ⟨hfront, rfl, ?_⟩)
      have hsend : ∀ k, e.event ≠ .sendRequest k := by
        intro k hk
        rw [hk, System.machine_step] at hstep
        cases System.happens_of_step hstep with
        | sendRequest event buf hevent hsend =>
          have hmem : event ∈ s.hosted.spawned[k]? := hevent
          simp only [Event.Addressed, hk] at haddressed
          rw [← haddressed event hmem] at hfront
          exact hfront (h.addressed event (List.mem_of_getElem? hevent))
      rw [step_booted (h.booted e.nid hfront) hstep hhosted hsend, State.put_view]

theorem Single.step (h : Single s) (hs : (machine cfg).step s e = some t) : Single t := by
  rcases step_eq_some.mp hs with ⟨_, system, hstep, hput⟩
  have hfront : ∀ nid, s.front = some nid → t.front = some nid := by
    intro nid hnid
    rw [← hput]
    exact front_of_step hstep hnid
  constructor
  . intro event hevent
    rw [← hput] at hevent
    rcases spawned_of_step hstep hevent with hevent | hnew
    . exact hfront _ (h.addressed event hevent)
    . exact hfront _ hnew
  . intro nid hnid
    have hbooted := h.booted nid fun hs => hnid (hfront nid hs)
    rcases h.cases_of_step hs with ⟨hosted, _, rfl, _⟩ | ⟨hat, _, system, _, rfl⟩ | ⟨_, _, rfl⟩
    . exact hbooted
    . rw [State.nodes_put_of_ne s system]
      . exact hbooted
      . rintro rfl
        exact hnid (hfront e.nid hat)
    . exact hbooted

/--
To a node that is the first one or still may be, a step is that of its own system, or nothing.
-/
theorem Single.step_at (h : Single s) (hs : (machine cfg).step s e = some t)
    (hfront : ∀ nid, s.front = some nid → nid = front) :
    (e.at front = none ∧ t.view front = s.view front)
      ∨ (e.at front = some e.event
        ∧ (System.machine cfg).step (s.view front) e.event = some (t.view front)) := by
  rcases h.cases_of_step hs with ⟨hosted, hhosted, rfl, hall⟩ | ⟨hat, _, system, hstep, rfl⟩ | ⟨hne, hhosted, rfl⟩
  . exact .inr ⟨if_pos (.inl hhosted), hall front⟩
  . cases hfront e.nid hat
    refine .inr ⟨if_pos (.inr rfl), ?_⟩
    rw [State.view_put]
    exact hstep
  . by_cases heq : e.nid = front
    . rcases step_eq_some.mp hs with ⟨_, system, hstep, hput⟩
      have hsame : system = t.view e.nid := by
        rw [← State.view_put t e.nid system, hput]
      refine .inr ⟨if_pos (.inr heq), ?_⟩
      rw [← heq, hstep, hsame]
    . left
      refine ⟨if_neg ?_, rfl⟩
      rw [hhosted, not_or]
      exact ⟨Bool.false_ne_true, heq⟩

end step

section run

variable {cfg} {es : List Event} {s : State} {front : NetworkId}

theorem single_of_run (h : (machine cfg).run es = some s) : Single s := by
  refine Machine.run_induction _ (P := fun _ s => Single s) .new ?_ h
  intro es s e t _ hsingle hstep
  exact hsingle.step hstep

theorem front_mono {s t : State} {e : Event} {nid : NetworkId} (hs : (machine cfg).step s e = some t)
    (h : s.front = some nid) : t.front = some nid := by
  rcases step_eq_some.mp hs with ⟨_, system, hstep, hput⟩
  rw [← hput]
  exact front_of_step hstep h

/--
The first node runs with the controller as it does with it alone, also where the events are restricted by what
the controller is in.
-/
theorem run_at {P : System.State → System.Event → Prop} [∀ s e, Decidable (P s e)]
    (hP : ∀ s s' e, s.hosted = s'.hosted → P s e → P s' e)
    (h : ((machine cfg).restrict fun s e => P (s.view e.nid) e.event).run es = some s)
    (hfront : ∀ nid, s.front = some nid → nid = front) :
    ((System.machine cfg).restrict P).run (es.filterMap (Event.at front)) = some (s.view front) := by
  refine Machine.run_induction _ (P := fun es s => (∀ nid, s.front = some nid → nid = front) →
    ((System.machine cfg).restrict P).run (es.filterMap (Event.at front)) = some (s.view front))
    ?_ ?_ h hfront
  . intro _
    rfl
  . intro es s e t hes ih hstep hfront
    rw [Machine.restrict_step] at hstep
    have hfront' : ∀ nid, s.front = some nid → nid = front := by
      intro nid hnid
      exact hfront nid (front_mono hstep.2 hnid)
    have hrun := ih hfront'
    have hsingle := single_of_run (Machine.runFrom_of_restrict hes)
    rw [List.filterMap_append]
    rcases hsingle.step_at hstep.2 hfront' with ⟨hnone, hsame⟩ | ⟨hsome, hstep'⟩
    . rw [List.filterMap_cons_none hnone, List.filterMap_nil, List.append_nil, hsame]
      exact hrun
    . rw [List.filterMap_cons_some hsome, List.filterMap_nil, Machine.run_concat]
      exact ⟨_, hrun, Machine.restrict_step.mpr ⟨hP (s.view e.nid) _ _ rfl hstep.1, hstep'⟩⟩

/--
However many native instances are allocated, all that is sent goes to the one that registered first: the others
stay as they were booted, and the controller with the first one runs as it does with that one alone.
-/
theorem singleBackend (h : (machine cfg).run es = some s) :
    (∀ nid, s.front ≠ some nid → s.nodes nid = .booted)
      ∧ ∀ front, s.front = some front →
        (System.machine cfg).run (es.filterMap (Event.at front)) = some (s.view front)
          ∧ (((machine cfg).restrict (FreshTid cfg)).run es = some s →
            ((System.machine cfg).restrict (System.FreshTid cfg)).run (es.filterMap (Event.at front))
              = some (s.view front)) := by
  refine ⟨(single_of_run h).booted, ?_⟩
  intro front hfront
  have hsame : ∀ nid, s.front = some nid → nid = front := by
    intro nid hnid
    exact Option.some.inj (hnid.symm.trans hfront)
  constructor
  . rw [← Machine.restrict_true (machine cfg)] at h
    rw [← Machine.restrict_true (System.machine cfg)]
    exact run_at (P := fun _ _ => True) (fun _ _ _ _ _ => trivial) h hsame
  . intro hfresh
    refine run_at (P := System.FreshTid cfg) ?_ hfresh hsame
    intro s s' e hhosted hs
    cases e with
    | scheduleActivation env am code =>
      rw [System.FreshTid, ← hhosted]
      exact hs
    | _ => trivial

end run

-- Two native instances register, both of them have cores that look for work.
def twoNodes : List Event :=
  let env : Controller.ScheduleEnv :=
    { getAction := fun _ => "code".toList, now := 0, beyond := fun _ => 'x' }
  let first : NetworkId := "10.0.0.2".toList
  let second : NetworkId := "10.0.0.3".toList
  [
    ⟨second, .getWork 0⟩,
    ⟨first, .registerNode 4 first⟩,
    ⟨second, .registerNode 4 second⟩,
    ⟨first, .scheduleActivation env (Msg.testActivation "a".toList "r".toList) []⟩,
    ⟨first, .scheduleActivation env (Msg.testActivation "bb".toList "r".toList) []⟩,
    ⟨first, .sendRequest 0⟩,
    ⟨first, .receiveRequest 0 0⟩,
    ⟨second, .getWork 1⟩,
    ⟨first, .getWork 1⟩,
    ⟨first, .sendRequest 0⟩,
    ⟨first, .sendReply 0 .zero "[2]".toList⟩
  ]

theorem twoNodes_run : ((machine System.rescheduledConfig).run twoNodes).isSome := by
  decide

theorem singleBackend_twoNodes :
    ∃ s, (machine System.rescheduledConfig).run twoNodes = some s
      ∧ s.nodes "10.0.0.3".toList = .booted
      ∧ (System.machine System.rescheduledConfig).run
        (twoNodes.filterMap (Event.at "10.0.0.2".toList)) = some (s.view "10.0.0.2".toList) := by
  have hrun := (Option.some_get twoNodes_run).symm
  have hsingle := singleBackend hrun
  exact ⟨_, hrun, hsingle.1 _ (by decide), (hsingle.2 _ (by decide)).1⟩

end Backends
end Seuss
