import Seuss.Controller.Run

/-!
This module contains the controller together with a back end that answers every request it received
at most once, with the result computed from the arguments and the code of that request. It is about
an activation whose transaction id is already outstanding.
-/

namespace Seuss

open Msg

namespace Controller

structure Exchange where
  hosted : State
  -- what the back end has to answer and what it was ever sent, with the call that sent it
  pending : List (Nat × SendRequestEvent)
  sent : List (Nat × SendRequestEvent)

def Exchange.new : Exchange where
  hosted := .new
  pending := []
  sent := []

inductive ExchangeEvent where
  | call (call : Call)
  | answer (k : Nat) (uninit : CompletionMessage) (exec : ExecStats) (endTime : Time)

variable (hash : CString → UInt64) (build : Build) (compute : CString → CString → CString)

-- the call of `ResolveActivation` that the reply of the back end to a request leads to
def replyTo (event : SendRequestEvent) (uninit : CompletionMessage) (exec : ExecStats)
    (endTime : Time) : Call :=
  let res := compute event.args event.code
  .resolveActivation uninit { event.stats with argsSize := res.length, exec := exec } res endTime

def Exchange.step (s : Exchange) (e : ExchangeEvent) : Option (Except Fault Exchange) :=
  match e with
  | .call call => some do
    let hosted ← s.hosted.step hash build call
    let events := (hosted.spawned.drop s.hosted.spawned.length).map (s.hosted.clock, ·)
    .ok { hosted := hosted, pending := s.pending ++ events, sent := s.sent ++ events }
  | .answer k uninit exec endTime => s.pending[k]?.map fun (_, event) => do
    let hosted ← s.hosted.step hash build (replyTo compute event uninit exec endTime)
    .ok { s with hosted := hosted, pending := s.pending.eraseIdx k }

def exchange : Machine Exchange ExchangeEvent where
  init := .new
  step s e := (s.step hash build compute e).bind Except.toOption

-- no reply but those of the back end, and no further duplicate
def Orderly (s : Exchange) (e : ExchangeEvent) : Prop :=
  match e with
  | .call (.resolveActivation _ _ _ _) => False
  | .call call => FreshTid hash s.hosted call
  | .answer _ _ _ _ => True

instance (s : Exchange) (e : ExchangeEvent) : Decidable (Orderly hash s e) := by
  unfold Orderly
  split <;> infer_instance

def Outstanding (s : State) (promise : Nat) : Prop :=
  ∃ tid record, s.controller.recordMap.find? tid = some record ∧ record.promise = promise

/--
The call that schedules `am` does not abort and sends nothing, and once the back end has answered
all that it received, the futures that were outstanding hold the results of their own requests.
-/
structure LeavesOthersAlone (env : ScheduleEnv) (am : ActivationMessage) (code : CString)
    (s : Exchange) : Prop where
  returns : ∃ t, s.step hash build compute (.call (.scheduleActivation env am code)) = some (.ok t)
  nothingSent : ∀ t,
    s.step hash build compute (.call (.scheduleActivation env am code)) = some (.ok t) →
    t.pending = s.pending
  own : ∀ t es u,
    s.step hash build compute (.call (.scheduleActivation env am code)) = some (.ok t) →
    ((exchange hash build compute).restrict (Orderly hash)).runFrom t es = some u →
    u.pending = [] →
    ∀ promise event, (promise, event) ∈ s.sent → Outstanding s.hosted promise →
      ∃ f ∈ u.hosted.fulfilled, f.promise = promise
        ∧ f.message.response.result = compute event.args event.code

section step

variable {hash} {build} {compute} {env : ScheduleEnv} {c c' : Controller} {promise : Nat}
  {am : ActivationMessage} {code : CString}

theorem scheduleActivation_nids {event : SendRequestEvent}
    (h : scheduleActivation hash build env c promise am code = .ok (c', event)) :
    c'.nids = c.nids ∧ c.nids ≠ [] := by
  rcases scheduleActivation_cases h with ⟨hnid, rfl, _⟩
  refine ⟨rfl, ?_⟩
  intro hnids
  rw [hnids] at hnid
  cases hnid

theorem scheduleActivation_debug_of_some {record : ActivationRecord}
    (h : c.recordMap.find? (tid hash am) = some record) :
    scheduleActivation hash .debug env c promise am code = .error .assertion := by
  simp [scheduleActivation, UnorderedMap.emplace, h, Build.kassert, bind, Except.bind]

theorem scheduleActivation_release_of_some (env : ScheduleEnv) (promise : Nat) (code : CString)
    {record : ActivationRecord} (h : c.recordMap.find? (tid hash am) = some record)
    (hnids : c.nids ≠ []) :
    ∃ c' event, scheduleActivation hash .release env c promise am code = .ok (c', event)
      ∧ c'.recordMap = c.recordMap := by
  rcases List.exists_cons_of_ne_nil hnids with ⟨nid, nids, hnids⟩
  simp [scheduleActivation, UnorderedMap.emplace, h, hnids, Build.kassert, bind, Except.bind]

theorem State.step_schedule_debug_of_some {s : State} {record : ActivationRecord}
    (h : s.controller.recordMap.find? (tid hash am) = some record) :
    s.step hash .debug (.scheduleActivation env am code) = .error .assertion := by
  unfold State.step
  dsimp only
  rw [scheduleActivation_debug_of_some h]

theorem State.step_schedule_release_of_some (env : ScheduleEnv) (code : CString) {s : State}
    {record : ActivationRecord} (h : s.controller.recordMap.find? (tid hash am) = some record)
    (hnids : s.controller.nids ≠ []) :
    ∃ s' event, s.step hash .release (.scheduleActivation env am code) = .ok s'
      ∧ s'.spawned = s.spawned ++ [event]
      ∧ s'.controller.recordMap = s.controller.recordMap
      ∧ s'.fulfilled = s.fulfilled
      ∧ event.stats = requestStats hash env am
      ∧ event.args = am.content
      ∧ event.code = obtainCode env am code := by
  rcases scheduleActivation_release_of_some env s.clock code h hnids with ⟨c', event, hsched, hmap⟩
  refine ⟨
    { s with controller := c', clock := s.clock + 1, spawned := s.spawned ++ [event] },
    event, ?_, rfl, hmap, rfl, scheduleActivation_event hsched
  ⟩
  unfold State.step
  dsimp only
  rw [hsched]

theorem State.step_replyTo (hash : CString → UInt64) (build : Build)
    (compute : CString → CString → CString) {s : State} {record : ActivationRecord}
    (event : SendRequestEvent) (uninit : CompletionMessage) (exec : ExecStats) (endTime : Time)
    (h : s.controller.recordMap.find? event.stats.transactionId = some record) :
    ∃ s' istats, s.step hash build (replyTo compute event uninit exec endTime) = .ok s'
      ∧ s'.fulfilled = s.fulfilled ++ [⟨
          record.promise,
          s.clock,
          completion uninit record istats (compute event.args event.code) endTime
        ⟩] := by
  refine ⟨_, _, State.step_resolveActivation_of_some ?_, rfl⟩
  exact h

end step

section invariant

variable {hash} {build} {compute} {s t : Exchange}

def HasBackEnd (s : State) : Prop :=
  ∀ tid record, s.controller.recordMap.find? tid = some record → s.controller.nids ≠ []

theorem HasBackEnd.step {s s' : State} {call : Call} (h : HasBackEnd s)
    (hs : s.step hash build call = .ok s') :
    HasBackEnd s' := by
  cases call with
  | registerNode cpuNum nid =>
    cases hs
    intro tid record _
    simp [registerNode]
  | scheduleActivation env am code =>
    rcases State.step_scheduleActivation_cases hs with ⟨_, _, hsched, rfl⟩
    intro tid record _
    rcases scheduleActivation_nids hsched with ⟨hnids, hne⟩
    rw [hnids]
    exact hne
  | resolveActivation uninit istats res endTime =>
    cases hfind : s.controller.recordMap.find? istats.transactionId with
    | none =>
      rw [State.step_resolveActivation_of_none hfind] at hs
      cases hs
      exact h
    | some record =>
      rw [State.step_resolveActivation_of_some hfind] at hs
      cases hs
      intro tid other hother
      dsimp only at hother
      rw [UnorderedMap.find?_erase] at hother
      split at hother
      . cases hother
      . exact h tid other hother

theorem Exchange.step_hosted {e : ExchangeEvent} (h : s.step hash build compute e = some (.ok t)) :
    ∃ call, s.hosted.step hash build call = .ok t.hosted := by
  cases e with
  | call call =>
    simp only [Exchange.step, Option.some.injEq, bind, Except.bind] at h
    split at h
    . cases h
    . next hosted hstep =>
      cases h
      exact ⟨call, hstep⟩
  | answer k uninit exec endTime =>
    simp only [Exchange.step, Option.map_eq_some_iff] at h
    rcases h with ⟨⟨promise, event⟩, _, h⟩
    simp only [bind, Except.bind] at h
    split at h
    . cases h
    . next hosted hstep =>
      cases h
      exact ⟨_, hstep⟩

theorem Exchange.hasBackEnd (h : (exchange hash build compute).Reachable s) :
    HasBackEnd s.hosted := by
  refine h.invariant (P := fun s => HasBackEnd s.hosted) ?_ ?_
  . intro tid record hfind
    cases hfind
  . intro s e t _ hinv he
    rcases Exchange.step_hosted (Machine.bind_toOption_eq_some.mp he) with ⟨call, hcall⟩
    exact hinv.step hcall

variable {env : ScheduleEnv} {am : ActivationMessage} {code : CString} {record : ActivationRecord}

theorem Exchange.step_duplicate_debug (compute : CString → CString → CString) (env : ScheduleEnv)
    (code : CString)
    (hfind : s.hosted.controller.recordMap.find? (tid hash am) = some record) :
    s.step hash .debug compute (.call (.scheduleActivation env am code))
      =
    some (.error .assertion) := by
  simp only [Exchange.step, State.step_schedule_debug_of_some hfind, bind, Except.bind]

/--
The request of the duplicate goes out, and if the back end answers it first then the future of the
earlier activation holds the result of the duplicate.
-/
structure Mixed (hash : CString → UInt64) (compute : CString → CString → CString)
    (env : ScheduleEnv) (am : ActivationMessage) (code : CString) (record : ActivationRecord)
    (s t : Exchange) : Prop where
  sent : ∃ event, t.pending = s.pending ++ [(s.hosted.clock, event)]
    ∧ event.stats = requestStats hash env am
    ∧ event.args = am.content
    ∧ event.code = obtainCode env am code
  recordMap : t.hosted.controller.recordMap = s.hosted.controller.recordMap
  answered : ∀ uninit exec endTime, ∃ u f,
    t.step hash .release compute (.answer s.pending.length uninit exec endTime) = some (.ok u)
      ∧ u.hosted.fulfilled = s.hosted.fulfilled ++ [f]
      ∧ f.promise = record.promise
      ∧ f.message.response.result = compute am.content (obtainCode env am code)

theorem Exchange.step_duplicate_release (env : ScheduleEnv) (code : CString)
    (h : (exchange hash .release compute).Reachable s)
    (hfind : s.hosted.controller.recordMap.find? (tid hash am) = some record) :
    ∃ t, s.step hash .release compute (.call (.scheduleActivation env am code)) = some (.ok t)
      ∧ Mixed hash compute env am code record s t := by
  have hnids := Exchange.hasBackEnd h _ _ hfind
  rcases State.step_schedule_release_of_some env code hfind hnids with
    ⟨hosted, event, hstep, hspawned, hmap, hfulfilled, hstats, hargs, hcode⟩
  have hnew : (hosted.spawned.drop s.hosted.spawned.length).map (s.hosted.clock, ·)
      =
    [(s.hosted.clock, event)] := by
    simp [hspawned]
  refine ⟨{
    hosted := hosted
    pending := s.pending ++ [(s.hosted.clock, event)]
    sent := s.sent ++ [(s.hosted.clock, event)]
  }, ?_, ⟨⟨event, rfl, hstats, hargs, hcode⟩, hmap, ?_⟩⟩
  . simp only [Exchange.step, hstep, hnew, bind, Except.bind]
  . intro uninit exec endTime
    have hrecord : hosted.controller.recordMap.find? event.stats.transactionId = some record := by
      rw [hmap, hstats]
      exact hfind
    rcases State.step_replyTo hash .release compute event uninit exec endTime hrecord with
      ⟨answered, istats, hanswer, hanswered⟩
    rw [hfulfilled, hargs, hcode] at hanswered
    refine ⟨{
      hosted := answered
      pending := (s.pending ++ [(s.hosted.clock, event)]).eraseIdx s.pending.length
      sent := s.sent ++ [(s.hosted.clock, event)]
    }, _, ?_, hanswered, rfl, rfl⟩
    simp only [Exchange.step, List.getElem?_concat_length, Option.map_some, hanswer, bind,
      Except.bind]

end invariant

theorem duplicate_disturbs {s : Exchange} {env : ScheduleEnv} {am : ActivationMessage}
    {code : CString} {record : ActivationRecord} (h : (exchange hash build compute).Reachable s)
    (hfind : s.hosted.controller.recordMap.find? (tid hash am) = some record) :
    ¬ LeavesOthersAlone hash build compute env am code s
      ∧ (build = .debug →
          s.step hash build compute (.call (.scheduleActivation env am code))
            =
          some (.error .assertion))
      ∧ (build = .release →
          ∃ t, s.step hash build compute (.call (.scheduleActivation env am code)) = some (.ok t)
            ∧ Mixed hash compute env am code record s t) := by
  cases build with
  | debug =>
    have hstep := Exchange.step_duplicate_debug compute env code hfind
    refine ⟨?_, fun _ => hstep, by simp⟩
    intro hothers
    rcases hothers.returns with ⟨t, ht⟩
    rw [hstep] at ht
    cases ht
  | release =>
    rcases Exchange.step_duplicate_release env code h hfind with ⟨t, ht, hmixed⟩
    refine ⟨?_, by simp, fun _ => ⟨t, ht, hmixed⟩⟩
    intro hothers
    rcases hmixed.sent with ⟨event, hpending, _⟩
    have hsame := hothers.nothingSent t ht
    rw [hpending] at hsame
    simp at hsame

def transidHash (s : CString) : UInt64 :=
  s.length.toUInt64

def echo (args _code : CString) : CString :=
  args

def scheduleEnv : ScheduleEnv where
  getAction _ := "code".toList
  now := 0
  beyond _ := 'x'

def earlierActivation : ActivationMessage :=
  testActivation "t".toList "r".toList

def duplicateActivation : ActivationMessage :=
  { earlierActivation with content := "\x7b\x7d".toList }

def earlierEvents : List ExchangeEvent :=
  [
    .call (.registerNode 4 "10.0.0.2".toList),
    .call (.scheduleActivation scheduleEnv earlierActivation [])
  ]

def answerEvents : List ExchangeEvent :=
  let uninit := CompletionMessage.ofActivation ⟨⟨[], 0⟩, { statusCode := 0 }, ⟨0, []⟩⟩
    earlierActivation
  [.answer 1 uninit .zero 0, .answer 0 uninit .zero 0]

theorem earlierEvents_run :
    ((exchange transidHash .release echo).run earlierEvents).isSome := by
  decide

def earlierState : Exchange :=
  ((exchange transidHash .release echo).run earlierEvents).get earlierEvents_run

theorem duplicate_step :
    ((exchange transidHash .release echo).step earlierState
      (.call (.scheduleActivation scheduleEnv duplicateActivation []))).isSome := by
  decide

def duplicateState : Exchange :=
  ((exchange transidHash .release echo).step earlierState
    (.call (.scheduleActivation scheduleEnv duplicateActivation []))).get duplicate_step

theorem answerEvents_run :
    (((exchange transidHash .release echo).restrict (Orderly transidHash)).runFrom duplicateState
      answerEvents).isSome := by
  decide

theorem earlier_outstanding :
    (earlierState.hosted.controller.recordMap.find?
      (tid transidHash duplicateActivation)).isSome := by
  decide

theorem duplicate_disturbs_earlier :
    ¬ LeavesOthersAlone transidHash .release echo scheduleEnv duplicateActivation [] earlierState :=
  (duplicate_disturbs transidHash .release echo
    ⟨earlierEvents, (Option.some_get earlierEvents_run).symm⟩
    (Option.some_get earlier_outstanding).symm).1

-- The only future that is ever fulfilled is the earlier one, with the result of the duplicate.
theorem earlier_completed_with_duplicate :
    ∃ u, ((exchange transidHash .release echo).restrict (Orderly transidHash)).runFrom
        duplicateState answerEvents = some u
      ∧ u.pending.isEmpty = true
      ∧ u.hosted.fulfilled.map (fun f => (f.promise, f.message.response.result))
          = [(1, duplicateActivation.content)]
      ∧ ¬ LeavesOthersAlone transidHash .release echo scheduleEnv duplicateActivation []
          earlierState := by
  refine ⟨_, (Option.some_get answerEvents_run).symm, by decide, by decide, ?_⟩
  intro h
  have hsame := h.nothingSent duplicateState
    (Machine.bind_toOption_eq_some.mp (Option.some_get duplicate_step).symm)
  have hlength := congrArg List.length hsame
  revert hlength
  decide

end Controller
end Seuss
