import Seuss.Data.Machine
import Seuss.Controller.Basic

/-!
This module contains the runs of the controller: any order of calls to `RegisterNode`,
`ScheduleActivation` and `ResolveActivation`. The calls of a run are named by their position, the
future that `ScheduleActivation` returns is named by the call that returned it.
-/

namespace Seuss

open Msg

namespace Controller

inductive Call where
  | registerNode (cpuNum : Int) (nid : NetworkId)
  | scheduleActivation (env : ScheduleEnv) (am : ActivationMessage) (code : CString)
  | resolveActivation (uninit : CompletionMessage) (istats : InvocationStats) (res : CString)
      (endTime : Time)

structure Fulfilled where
  promise : Nat
  resolvedAt : Nat
  message : CompletionMessage

structure State where
  controller : Controller
  clock : Nat
  spawned : List SendRequestEvent
  fulfilled : List Fulfilled

def State.new : State where
  controller := .new
  clock := 0
  spawned := []
  fulfilled := []

variable (hash : CString → UInt64) (build : Build)

def State.step (s : State) (call : Call) : Except Fault State :=
  match call with
  | .registerNode cpuNum nid =>
    .ok { s with controller := s.controller.registerNode cpuNum nid, clock := s.clock + 1 }
  | .scheduleActivation env am code =>
    match scheduleActivation hash build env s.controller s.clock am code with
    | .error fault => .error fault
    | .ok (controller, event) =>
      .ok {
        s with
        controller := controller
        clock := s.clock + 1
        spawned := s.spawned ++ [event]
      }
  | .resolveActivation uninit istats res endTime =>
    match resolveActivation uninit s.controller istats res endTime with
    | (controller, none) => .ok { s with controller := controller, clock := s.clock + 1 }
    | (controller, some (promise, cm)) =>
      .ok {
        s with
        controller := controller
        clock := s.clock + 1
        fulfilled := s.fulfilled ++ [⟨promise, s.clock, cm⟩]
      }

def machine : Machine State Call where
  init := .new
  step s call := (s.step hash build call).toOption

-- The duplicate check of `ScheduleActivation` succeeds.
def FreshTid (s : State) (call : Call) : Prop :=
  match call with
  | .scheduleActivation _ am _ => (s.controller.recordMap.find? (tid hash am)).isNone
  | _ => True

instance (s : State) (call : Call) : Decidable (FreshTid hash s call) := by
  unfold FreshTid
  split <;> infer_instance

section step

variable {hash} {build} {env : ScheduleEnv} {c c' : Controller} {promise : Nat}
  {am : ActivationMessage} {code : CString} {event : SendRequestEvent}

/--
What a call of `ScheduleActivation` has done once it returns.
-/
theorem scheduleActivation_cases
    (h : scheduleActivation hash build env c promise am code = .ok (c', event)) :
    c.nids.head? = some event.nid
      ∧ c' = {
        c with
        frontEndCpusMap := (c.frontEndCpusMap.subscript event.nid).2
        recordMap := (c.recordMap.emplace (tid hash am) ⟨promise, am, env.now⟩).1
      }
      ∧ event = {
        ioCpu := (c.frontEndCpusMap.subscript event.nid).1
        nid := event.nid
        stats := requestStats hash env am
        args := am.content
        code := obtainCode env am code
      } := by
  simp only [scheduleActivation, bind, Except.bind] at h
  split at h
  . cases h
  . split at h
    . cases build <;> simp [Build.kassert] at h
    . next hnids =>
      cases h
      rw [hnids]
      exact ⟨rfl, rfl, rfl⟩

theorem scheduleActivation_event
    (h : scheduleActivation hash build env c promise am code = .ok (c', event)) :
    event.stats = requestStats hash env am
      ∧ event.args = am.content
      ∧ event.code = obtainCode env am code := by
  rw [(scheduleActivation_cases h).2.2]
  exact ⟨rfl, rfl, rfl⟩

theorem scheduleActivation_eq_ok (hfresh : c.recordMap.find? (tid hash am) = none)
    (h : scheduleActivation hash build env c promise am code = .ok (c', event)) :
    c'.nids = c.nids
      ∧ c'.recordMap = AList.insert (tid hash am) ⟨promise, am, env.now⟩ c.recordMap := by
  rw [(scheduleActivation_cases h).2.1, UnorderedMap.emplace_of_find?_none _ hfresh]
  exact ⟨rfl, rfl⟩

variable {uninit : CompletionMessage} {istats : InvocationStats} {res : CString} {endTime : Time}

theorem resolveActivation_of_none (h : c.recordMap.find? istats.transactionId = none) :
    resolveActivation uninit c istats res endTime = (c, none) := by
  simp [resolveActivation, h]

theorem resolveActivation_of_some {record : ActivationRecord}
    (h : c.recordMap.find? istats.transactionId = some record) :
    resolveActivation uninit c istats res endTime = (
      { c with recordMap := AList.erase istats.transactionId c.recordMap },
      some (record.promise, completion uninit record istats res endTime)
    ) := by
  simp [resolveActivation, h]

variable {s s' : State}

theorem State.step_scheduleActivation_cases
    (h : s.step hash build (.scheduleActivation env am code) = .ok s') :
    ∃ c event, Controller.scheduleActivation hash build env s.controller s.clock am code
        = .ok (c, event)
      ∧ s' = { s with controller := c, clock := s.clock + 1, spawned := s.spawned ++ [event] } := by
  unfold State.step at h
  dsimp only at h
  split at h
  . cases h
  . next c event hsched =>
    cases h
    exact ⟨c, event, hsched, rfl⟩

theorem State.step_scheduleActivation_spawned
    (h : s.step hash build (.scheduleActivation env am code) = .ok s') :
    ∃ event : SendRequestEvent, s'.spawned = s.spawned ++ [event]
      ∧ event.stats = requestStats hash env am
      ∧ event.args = am.content
      ∧ event.code = obtainCode env am code := by
  rcases State.step_scheduleActivation_cases h with ⟨_, event, hsched, rfl⟩
  exact ⟨event, rfl, scheduleActivation_event hsched⟩

theorem State.step_scheduleActivation_eq_ok
    (hfresh : s.controller.recordMap.find? (tid hash am) = none)
    (h : s.step hash build (.scheduleActivation env am code) = .ok s') :
    s'.controller.nids = s.controller.nids
      ∧ s'.controller.recordMap
          = AList.insert (tid hash am) ⟨s.clock, am, env.now⟩ s.controller.recordMap
      ∧ s'.clock = s.clock + 1
      ∧ s'.fulfilled = s.fulfilled := by
  rcases State.step_scheduleActivation_cases h with ⟨_, _, hsched, rfl⟩
  rcases scheduleActivation_eq_ok hfresh hsched with ⟨hnids, hmap⟩
  exact ⟨hnids, hmap, rfl, rfl⟩

theorem State.step_resolveActivation_spawned
    (h : s.step hash build (.resolveActivation uninit istats res endTime) = .ok s') :
    s'.spawned = s.spawned := by
  unfold State.step at h
  dsimp only at h
  split at h <;> cases h <;> rfl

theorem State.step_resolveActivation_of_none
    (h : s.controller.recordMap.find? istats.transactionId = none) :
    s.step hash build (.resolveActivation uninit istats res endTime)
      =
    .ok { s with clock := s.clock + 1 } := by
  unfold State.step
  dsimp only
  rw [resolveActivation_of_none h]

theorem State.step_resolveActivation_of_some {record : ActivationRecord}
    (h : s.controller.recordMap.find? istats.transactionId = some record) :
    s.step hash build (.resolveActivation uninit istats res endTime)
      =
    .ok {
      s with
      controller := {
        s.controller with
        recordMap := AList.erase istats.transactionId s.controller.recordMap
      }
      clock := s.clock + 1
      fulfilled :=
        s.fulfilled ++ [⟨record.promise, s.clock, completion uninit record istats res endTime⟩]
    } := by
  unfold State.step
  dsimp only
  rw [resolveActivation_of_some h]

theorem resolveActivation_find?_ne {tid : UInt64} (h : tid ≠ istats.transactionId) :
    (resolveActivation uninit c istats res endTime).1.recordMap.find? tid
      =
    c.recordMap.find? tid := by
  unfold resolveActivation
  split
  . rfl
  . apply UnorderedMap.find?_erase_ne
    exact h

end step

end Controller
end Seuss
