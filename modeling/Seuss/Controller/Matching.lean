import Seuss.Data.Correlation
import Seuss.Controller.Run

/-!
This module shows that the controller is a correlation table: activations are entered under the hash
of their transaction id and the first reply with that id completes them.
-/

namespace Seuss

open Msg

namespace Controller

variable (hash : CString → UInt64) (build : Build)

structure Reply where
  uninit : CompletionMessage
  istats : InvocationStats
  res : CString
  endTime : Time

abbrev RecordTable := Correlation.Table UInt64 (ActivationMessage × Time) Reply

def Call.toEvent (call : Call) : Correlation.Event UInt64 (ActivationMessage × Time) Reply :=
  match call with
  | .registerNode _ _ => .other
  | .scheduleActivation env am _ => .issue (tid hash am) (am, env.now)
  | .resolveActivation uninit istats res endTime =>
    .answer istats.transactionId ⟨uninit, istats, res, endTime⟩

def toRecord (p : Nat × ActivationMessage × Time) : ActivationRecord :=
  ⟨p.1, p.2.1, p.2.2⟩

def toFulfilled (m : Correlation.Matched (ActivationMessage × Time) Reply) : Fulfilled where
  promise := m.issuedAt
  resolvedAt := m.answeredAt
  message :=
    completion m.answer.uninit (toRecord (m.issuedAt, m.request)) m.answer.istats m.answer.res
      m.answer.endTime

structure Correlates (s : State) (t : RecordTable) : Prop where
  clock : s.clock = t.clock
  records : ∀ tid, s.controller.recordMap.find? tid = (t.pending.find? tid).map toRecord
  fulfilled : s.fulfilled = t.matched.map toFulfilled

section simulation

variable {hash} {build} {s s' : State} {t : RecordTable} {uninit : CompletionMessage}
  {istats : InvocationStats} {res : CString} {endTime : Time}

theorem Correlates.schedule (h : Correlates s t) {env : ScheduleEnv} {am : ActivationMessage}
    {code : CString} (hfresh : (s.controller.recordMap.find? (tid hash am)).isNone)
    (hs : s.step hash build (.scheduleActivation env am code) = .ok s') :
    ∃ t', t.step (.issue (tid hash am) (am, env.now)) = some t' ∧ Correlates s' t' := by
  rw [Option.isNone_iff_eq_none] at hfresh
  have hpending : t.pending.find? (tid hash am) = none := by
    have := h.records (tid hash am)
    rw [hfresh] at this
    simpa using this.symm
  rcases State.step_scheduleActivation_eq_ok hfresh hs with ⟨_, hmap, hclock, hful⟩
  refine ⟨_, Correlation.Table.step_issue hpending _, ?_⟩
  constructor
  . rw [hclock, h.clock]
  . intro tid
    dsimp only
    rw [hmap, UnorderedMap.find?_insert, UnorderedMap.find?_insert]
    split
    . simp [toRecord, h.clock]
    . apply h.records
  . rw [hful, h.fulfilled]

theorem Correlates.resolve (h : Correlates s t)
    (hs : s.step hash build (.resolveActivation uninit istats res endTime) = .ok s') :
    ∃ t', t.step (.answer istats.transactionId ⟨uninit, istats, res, endTime⟩) = some t'
      ∧ Correlates s' t' := by
  have hrec := h.records istats.transactionId
  cases hp : t.pending.find? istats.transactionId with
  | none =>
    rw [hp] at hrec
    rw [State.step_resolveActivation_of_none hrec] at hs
    cases hs
    refine ⟨_, Correlation.Table.step_answer_none hp _, ?_⟩
    constructor
    . simp [h.clock]
    . exact h.records
    . exact h.fulfilled
  | some p =>
    rw [hp] at hrec
    rw [State.step_resolveActivation_of_some hrec] at hs
    cases hs
    refine ⟨_, Correlation.Table.step_answer_some hp _, ?_⟩
    constructor
    . simp [h.clock]
    . intro tid
      dsimp only
      rw [UnorderedMap.find?_erase, UnorderedMap.find?_erase]
      split
      . rfl
      . apply h.records
    . simp [h.fulfilled, h.clock, toFulfilled, toRecord]

theorem Correlates.step {call : Call} (h : Correlates s t) (hfresh : FreshTid hash s call)
    (hs : s.step hash build call = .ok s') :
    ∃ t', t.step (call.toEvent hash) = some t' ∧ Correlates s' t' := by
  cases call with
  | registerNode cpuNum nid =>
    cases hs
    refine ⟨_, rfl, ?_⟩
    constructor
    . simp [h.clock]
    . exact h.records
    . exact h.fulfilled
  | scheduleActivation env am code => exact h.schedule hfresh hs
  | resolveActivation uninit istats res endTime => exact h.resolve hs

theorem correlates_of_run {calls : List Call}
    (h : ((machine hash build).restrict (FreshTid hash)).run calls = some s) :
    ∃ t : RecordTable, t.Inv (calls.map (Call.toEvent hash)) ∧ Correlates s t := by
  have hsim := Machine.simulation ((machine hash build).restrict (FreshTid hash))
    (Correlation.machine UInt64 (ActivationMessage × Time) Reply) (Call.toEvent hash)
    (R := Correlates) (by constructor <;> simp [Machine.restrict, machine, State.new, new,
      Correlation.machine, Correlation.Table.empty]) ?_ h
  . rcases hsim with ⟨t, ht, hcorr⟩
    exact ⟨t, Correlation.Table.matching ht, hcorr⟩
  . intro s call s' t hcorr hstep
    rw [Machine.restrict_step] at hstep
    exact hcorr.step hstep.1 (Machine.toOption_eq_some.mp hstep.2)

end simulation

/--
The call at position `j` is the first `ResolveActivation` after the `ScheduleActivation` of `am` at
position `i` that carries its transaction id.
-/
def FirstReply (calls : List Call) (i j : Nat) (am : ActivationMessage) (istats : InvocationStats)
    (res : CString) : Prop :=
  (∃ env code, calls[i]? = some (.scheduleActivation env am code))
    ∧ (∃ uninit endTime, calls[j]? = some (.resolveActivation uninit istats res endTime))
    ∧ istats.transactionId = tid hash am
    ∧ i < j
    ∧ ∀ l uninit' istats' res' endTime', i < l → l < j →
        calls[l]? = some (.resolveActivation uninit' istats' res' endTime') →
        istats'.transactionId ≠ tid hash am

section positions

variable {hash} {calls : List Call} {k : UInt64}

theorem toEvent_eq_issue {call : Call} {r : ActivationMessage × Time} :
    call.toEvent hash = .issue k r
      ↔
    ∃ env am code, call = .scheduleActivation env am code ∧ tid hash am = k ∧ (am, env.now) = r := by
  cases call <;> simp [Call.toEvent]

theorem toEvent_eq_answer {call : Call} {a : Reply} :
    call.toEvent hash = .answer k a
      ↔
    call = .resolveActivation a.uninit a.istats a.res a.endTime ∧ a.istats.transactionId = k := by
  cases a
  cases call <;> simp [Call.toEvent]
  grind

theorem firstReply_of_firstAnswer
    {m : Correlation.Matched (ActivationMessage × Time) Reply}
    (h : Correlation.FirstAnswer (calls.map (Call.toEvent hash)) k m) :
    FirstReply hash calls m.issuedAt m.answeredAt m.request.1 m.answer.istats m.answer.res := by
  rcases h with ⟨hissue, hanswer, hlt, hfirst⟩
  simp only [List.getElem?_map, Option.map_eq_some_iff, toEvent_eq_issue] at hissue
  simp only [List.getElem?_map, Option.map_eq_some_iff, toEvent_eq_answer] at hanswer
  rcases hissue with ⟨_, hissue, env, am, code, rfl, htid, hreq⟩
  rcases hanswer with ⟨_, hanswer, rfl, hk⟩
  rw [← hreq]
  refine ⟨⟨env, code, hissue⟩, ⟨_, _, hanswer⟩, by rw [hk, htid], hlt, ?_⟩
  intro l uninit istats res endTime hil hlj hl heq
  apply hfirst l ⟨uninit, istats, res, endTime⟩ hil hlj
  simp [hl, Call.toEvent, heq, htid]

theorem firstAnswer_of_firstReply {i j : Nat} {am : ActivationMessage} {istats : InvocationStats}
    {res : CString} (h : FirstReply hash calls i j am istats res) :
    ∃ m : Correlation.Matched (ActivationMessage × Time) Reply,
      Correlation.FirstAnswer (calls.map (Call.toEvent hash)) (tid hash am) m
        ∧ m.issuedAt = i ∧ m.answeredAt = j := by
  rcases h with ⟨⟨env, code, hissue⟩, ⟨uninit, endTime, hanswer⟩, htid, hlt, hfirst⟩
  refine ⟨⟨i, j, (am, env.now), ⟨uninit, istats, res, endTime⟩⟩, ⟨?_, ?_, hlt, ?_⟩, rfl, rfl⟩
  . simp [hissue, Call.toEvent]
  . simp [hanswer, Call.toEvent, htid]
  . intro l a hil hlj hl
    simp only [List.getElem?_map, Option.map_eq_some_iff, toEvent_eq_answer] at hl
    rcases hl with ⟨_, hl, rfl, hk⟩
    exact hfirst l _ _ _ _ hil hlj hl hk

end positions

structure Carries (cm : CompletionMessage) (am : ActivationMessage) (istats : InvocationStats)
    (res : CString) : Prop where
  transid : cm.transid = am.transid
  activationId : cm.response.activationId = am.activationId
  name : cm.response.name = am.action.name
  version : cm.response.version = am.action.version
  subject : cm.response.subject = am.user.subject
  namespace_ : cm.response.namespace_ = am.user.namespace_.name
  result : cm.response.result = res
  status : cm.response.statusCode = if istats.exec.status then 1 else 0
  duration : cm.response.duration = istats.exec.runTime.toInt64

theorem completion_carries (uninit : CompletionMessage) (record : ActivationRecord)
    (istats : InvocationStats) (res : CString) (endTime : Time) :
    Carries (completion uninit record istats res endTime) record.am istats res := by
  constructor <;> rfl

/--
Every future is fulfilled at most once, by the first reply to its own call and with the data of that
call and that reply; a reply leaves the records of all other transactions alone.
-/
theorem scheduleActivation_matching {calls : List Call} {s : State}
    (h : ((machine hash build).restrict (FreshTid hash)).run calls = some s) :
    (s.fulfilled.map Fulfilled.promise).Nodup
      ∧ (∀ i j, (∃ f ∈ s.fulfilled, f.promise = i ∧ f.resolvedAt = j)
          ↔ ∃ am istats res, FirstReply hash calls i j am istats res)
      ∧ (∀ f ∈ s.fulfilled, ∃ am istats res,
          FirstReply hash calls f.promise f.resolvedAt am istats res
            ∧ Carries f.message am istats res)
      ∧ (∀ uninit istats res endTime tid, tid ≠ istats.transactionId →
          (resolveActivation uninit s.controller istats res endTime).1.recordMap.find? tid
            =
          s.controller.recordMap.find? tid) := by
  rcases correlates_of_run h with ⟨t, hinv, hcorr⟩
  have hpromise : s.fulfilled.map Fulfilled.promise = t.matched.map Correlation.Matched.issuedAt := by
    rw [hcorr.fulfilled, List.map_map]
    rfl
  have hfirst : ∀ m ∈ t.matched,
      FirstReply hash calls m.issuedAt m.answeredAt m.request.1 m.answer.istats m.answer.res := by
    intro m hm
    rcases (hinv.matched m).mp hm with ⟨k, hm⟩
    exact firstReply_of_firstAnswer hm
  refine ⟨?_, ?_, ?_, ?_⟩
  . rw [hpromise]
    exact hinv.nodup
  . intro i j
    rw [hcorr.fulfilled]
    constructor
    . rintro ⟨f, hf, rfl, rfl⟩
      rcases List.mem_map.mp hf with ⟨m, hm, rfl⟩
      exact ⟨_, _, _, hfirst m hm⟩
    . rintro ⟨am, istats, res, hreply⟩
      rcases firstAnswer_of_firstReply hreply with ⟨m, hm, hi, hj⟩
      refine ⟨toFulfilled m, ?_, hi, hj⟩
      apply List.mem_map_of_mem
      exact (hinv.matched m).mpr ⟨_, hm⟩
  . intro f hf
    rw [hcorr.fulfilled] at hf
    rcases List.mem_map.mp hf with ⟨m, hm, rfl⟩
    exact ⟨_, _, _, hfirst m hm, completion_carries _ _ _ _ _⟩
  . intro uninit istats res endTime tid hne
    apply resolveActivation_find?_ne
    exact hne

-- Two activations in flight, answered in the other order, with a reply to nobody and a repeated one.
def overlappingCalls : List Call :=
  let env : ScheduleEnv := { getAction := fun _ => "code".toList, now := 0, beyond := fun _ => 'x' }
  let reply (tid : UInt64) : Call :=
    .resolveActivation (.ofActivation ⟨⟨[], 0⟩, { statusCode := 0 }, ⟨0, []⟩⟩ (testActivation [] []))
      ⟨tid, 0, 0, .filled '0', ⟨5, 1, false⟩⟩ "{}".toList 9000000
  [
    .registerNode 4 "10.0.0.2".toList,
    .scheduleActivation env (testActivation "a".toList "r".toList) [],
    .scheduleActivation env (testActivation "bb".toList "r".toList) [],
    reply 7,
    reply 2,
    reply 1,
    reply 2
  ]

theorem overlappingCalls_run :
    (((machine (·.length.toUInt64) .debug).restrict (FreshTid (·.length.toUInt64))).run
      overlappingCalls).isSome := by
  decide

theorem scheduleActivation_matching_overlapping :
    ∃ s, ((machine (·.length.toUInt64) .debug).restrict (FreshTid (·.length.toUInt64))).run
        overlappingCalls = some s
      ∧ s.fulfilled.map (fun f => (f.promise, f.resolvedAt)) = [(2, 4), (1, 5)]
      ∧ (s.fulfilled.map Fulfilled.promise).Nodup := by
  refine ⟨_, (Option.some_get overlappingCalls_run).symm, by decide, ?_⟩
  exact (scheduleActivation_matching _ _ (Option.some_get overlappingCalls_run).symm).1

end Controller
end Seuss
