import Seuss.Kafka.Basic

/-!
This module shows that the loop on top of the whole stack refines the loop on top of the system in
which an invocation is simply replied to. So an answer carries what an instance has responded to the
arguments of its payload.
-/

namespace Seuss
namespace Kafka

open Controller Invoker InvocationSession

variable {cfg : Config} {n : Nat} {s t : State n} {e : Event n}

-- What an event is to the loop on top of the system without the node.
inductive Means (cfg : Config) (s : State n) : Event n → Consumer.Event → Prop where
  | loop {e : Consumer.Event} (hloop : ofLoop e = true) : Means cfg s (.loop e) e
  | wire {e : Wire.Event n} {f : FullStack.Event n} {d : System.Event}
      (hwire : Wire.Means cfg.wire s.wire e f) (hstack : FullStack.Means s.wire.stack f d)
      (hother : ∀ env am code, d ≠ .scheduleActivation env am code) :
      Means cfg s (.wire e) (.system d)

section step

/--
What an event of the stack does to the system without the node: nothing, or what one of its own
events does.
-/
theorem wire_matched {s t : Wire.State n} {e : Wire.Event n} {cfg : Wire.Config}
    (hinv : FullStack.Inv s.stack) (hholds : Wire.Holds cfg s)
    (horder : Wire.FreshInOrder cfg s e)
    (hs : (Wire.machine cfg n).step s e = some t) :
    t.stack.view = s.stack.view
      ∨ ∃ f d, Wire.Means cfg s e f
        ∧ FullStack.Means s.stack f d
        ∧ System.FreshTid (cfg.stack.system n) s.stack.view d
        ∧ (System.machine (cfg.stack.system n)).step s.stack.view d = some t.stack.view := by
  cases (Wire.matched_of_step hinv hholds horder hs).1 with
  | silent hstack =>
    left
    rw [hstack]
  | step f hmeans horderly hf =>
    have honce := FullStack.once_of_orderly horderly
    cases FullStack.matched_of_step honce.2 hf with
    | silent hview => exact .inl hview
    | step d hmeans' hd => exact .inr ⟨f, d, hmeans, hmeans', hmeans'.freshTid honce.1, hd⟩

theorem view_eq {loop : Consumer.State} {wire : Wire.State n} (h : loop.system = wire.stack.view) :
    State.view {
      wire := wire
      committed := loop.committed
      pending := loop.pending
      answered := loop.answered
    } = loop := by
  rw [State.view, ← h]

theorem ne_scheduleActivation {e : Wire.Event n} {f : FullStack.Event n} {d : System.Event}
    (hother : ∀ env am code, e ≠ .stack (.system (.scheduleActivation env am code)))
    (hwire : Wire.Means cfg.wire s.wire e f) (hstack : FullStack.Means s.wire.stack f d)
    (env : ScheduleEnv) (am : Msg.ActivationMessage) (code : CString) :
    d ≠ .scheduleActivation env am code := by
  rintro rfl
  cases hstack with
  | system =>
    cases hwire with
    | stack => exact hother env am code rfl

theorem loop_of_silent {e : Consumer.Event} {loop : Consumer.State}
    (hstep : (Consumer.machine (cfg.consumer n)).step s.view e = some loop)
    (hnone : e.toSystem (cfg.consumer n) = none) :
    Consumer.FreshTid (cfg.consumer n) s.view e ∧ loop.system = s.wire.stack.view := by
  constructor
  . rw [Consumer.FreshTid, hnone]
    trivial
  . exact Consumer.system_of_none (Consumer.happens_of_step hstep) hnone

theorem loop_of_scheduled {e : Consumer.Event} {d : System.Event} {loop : Consumer.State}
    {wire : Wire.State n} (hstep : (Consumer.machine (cfg.consumer n)).step s.view e = some loop)
    (hsome : e.toSystem (cfg.consumer n) = some d)
    (hfresh : Wire.FreshTids cfg.wire s.wire (.stack (.system d)))
    (hwire : (Wire.machine cfg.wire n).step s.wire (.stack (.system d)) = some wire) :
    Consumer.FreshTid (cfg.consumer n) s.view e ∧ loop.system = wire.stack.view := by
  constructor
  . rw [Consumer.FreshTid, hsome]
    cases Wire.happens_of_step hwire with
    | stack stack hapart hstack =>
      exact (FullStack.once_of_orderly (Wire.orderly_of_freshTids hapart hfresh)).1
  . have hsystem := Consumer.system_of_some (Consumer.happens_of_step hstep) hsome
    cases Wire.happens_of_step hwire with
    | stack stack hapart hstack =>
      exact Option.some.inj (hsystem.symm.trans (FullStack.step_system hstack))

theorem toWire_of_some {e : Consumer.Event} {d : System.Event}
    (hsome : e.toSystem (cfg.consumer n) = some d) :
    (Event.loop e).toWire cfg = some (.stack (.system d) : Wire.Event n) := by
  rw [Event.toWire, hsome]
  rfl

end step

/--
The loop on top of the stack refines the loop on top of the system.
-/
def refinement (cfg : Config) (n : Nat) :
    Machine.Refinement ((machine cfg n).restrict (FreshInOrder cfg))
      ((Consumer.machine (cfg.consumer n)).restrict (Consumer.FreshTid (cfg.consumer n))) where
  view := State.view
  Inv s := FullStack.Inv s.wire.stack ∧ Wire.Holds cfg.wire s.wire
  Silent _ e := e.payload = none
  Means := Means cfg
  view_init := rfl
  inv_init := ⟨.new, .new⟩
  inv_step := by
    intro s e t hinv hstep
    rw [Machine.restrict_step] at hstep
    rcases hstep with ⟨horder, hstep⟩
    cases happens_of_step hstep with
    | silent => exact hinv
    | scheduled d loop wire hloop hloop' hsome hwire =>
      apply (Wire.refinement cfg.wire n).inv_step _ _ _ hinv
      have hsome' := toWire_of_some hsome
      exact Machine.restrict_step.mpr ⟨⟨horder.1 _ hsome', horder.2 _ hsome'⟩, hwire⟩
    | wire wire hother hwire =>
      apply (Wire.refinement cfg.wire n).inv_step _ _ _ hinv
      exact Machine.restrict_step.mpr ⟨⟨horder.1 _ rfl, horder.2 _ rfl⟩, hwire⟩
  simulates := by
    rintro s e t ⟨hinv, hholds⟩ hstep
    rw [Machine.restrict_step] at hstep
    rcases hstep with ⟨horder, hstep⟩
    cases happens_of_step hstep with
    | @silent e loop hloop hloop' hnone =>
      rcases loop_of_silent hloop' hnone with ⟨hfresh, hsystem⟩
      refine .inr ⟨e, .loop hloop, Machine.restrict_step.mpr ⟨hfresh, ?_⟩⟩
      rw [hloop', view_eq hsystem]
    | @scheduled e d loop wire hloop hloop' hsome hwire =>
      have hfresh := horder.1 _ (toWire_of_some hsome)
      rcases loop_of_scheduled hloop' hsome hfresh hwire with ⟨hfresh, hsystem⟩
      refine .inr ⟨e, .loop hloop, Machine.restrict_step.mpr ⟨hfresh, ?_⟩⟩
      rw [hloop', view_eq hsystem]
    | wire wire hother hwire =>
      have hmatched := wire_matched hinv hholds ⟨horder.1 _ rfl, horder.2 _ rfl⟩ hwire
      rcases hmatched with hview | ⟨f, d, hmeans, hmeans', hfresh, hd⟩
      . refine .inl ⟨rfl, ?_⟩
        rw [State.view, hview]
        rfl
      . have hne := ne_scheduleActivation hother hmeans hmeans'
        refine .inr ⟨.system d, .wire hmeans hmeans' hne, Machine.restrict_step.mpr ⟨hfresh, ?_⟩⟩
        have hd' : (System.machine (cfg.consumer n).system).step s.view.system d
            = some wire.stack.view := hd
        rw [Consumer.step_other hne, hd']
        rfl

section run

variable {es : List (Event n)} {ds : List Consumer.Event}

-- The loop has polled the payload, and the future `promise` was returned when `i` was sent for it.
def ScheduledFor (cfg : Config) (es : List (Event n)) (json : CString) (promise : Nat)
    (am : Msg.ActivationMessage) (i : Invocation) : Prop :=
  ∃ before fuel g env uninit s, before ++ [.loop (.poll fuel g env uninit (.payload json))] <+: es
    ∧ (machine cfg n).run before = some s
    ∧ (cfg.consumer n).parse fuel g json = .ok am
    ∧ (cfg.consumer n).answersAtOnce am = false
    ∧ s.wire.stack.hosted.clock = promise
    ∧ i = System.scheduledInvocation cfg.wire.stack.hash env am []

-- The session of the invocation had posted its arguments and was given the successful response `b`.
def RespondedTo (cfg : Config) (es : List (Event n)) (i : Invocation) (b : MutIOBuf) : Prop :=
  ∃ before c k j managed env s a session,
    before ++ [.wire (.session c k j managed env (.receive b))] <+: es
    ∧ (machine cfg n).run before = some s
    ∧ (s.wire.stack.node.active c)[k]? = some a
    ∧ a.invocation = i
    ∧ (s.wire.sessions c)[k]? = some (some session)
    ∧ .send Invoker.runPath (httpPostRequest Invoker.runPath i.args false)
      ∈ session.session.effects
    ∧ IsOk b

/--
The answer is the empty response to its payload, or the completion of the activation in its payload
with the body of the response to the arguments of the invocation that was sent for it.
-/
inductive AnsweredFor (cfg : Config) (es : List (Event n)) (a : Consumer.Answer) : Prop where
  | atOnce (fuel : Nat) (g : Garbage) (am : Msg.ActivationMessage) (uninit : Msg.CompletionMessage)
      (hparse : (cfg.consumer n).parse fuel g a.json = .ok am)
      (hnow : (cfg.consumer n).answersAtOnce am = true) (hpromise : a.promise = none)
      (hpayload : a.payload = sent cfg.invokerId (Consumer.emptyResponse uninit am))
  | completed (promise : Nat) (am : Msg.ActivationMessage) (cm : Msg.CompletionMessage)
      (i : Invocation) (exec : ExecStats) (b : MutIOBuf)
      (hscheduled : ScheduledFor cfg es a.json promise am i) (hpromise : a.promise = some promise)
      (hresponded : RespondedTo cfg es i b)
      (hcarries : Carries cm am { i.info with argsSize := (bodyOf b.data).length, exec := exec }
        (bodyOf b.data))
      (hpayload : a.payload = sent cfg.invokerId cm)

theorem payloads_concat (es : List (Event n)) (e : Event n) :
    payloads (es ++ [e]) = payloads es ++ e.payload.toList := by
  apply History.filterMap_concat

theorem Means.payload {d : Consumer.Event} (h : Means cfg s e d) : d.payload = e.payload := by
  cases h <;> rfl

theorem payloads_of_trace (h : (refinement cfg n).Trace es s ds) :
    Consumer.payloads ds = payloads es := by
  induction h with
  | nil => rfl
  | silent e t _ _ hsilent _ ih =>
    have hnone : e.payload = none := hsilent
    rw [payloads_concat, hnone, Option.toList_none, List.append_nil, ih]
  | step e t d _ _ hmeans _ ih =>
    rw [payloads_concat, Consumer.payloads_concat, ih, Means.payload hmeans]

theorem scheduledFor_of_trace (h : (refinement cfg n).Trace es s ds) {json : CString} {promise : Nat}
    {am : Msg.ActivationMessage} {i : Invocation}
    (hpolled : Consumer.PolledFor (cfg.consumer n) ds json promise am i) :
    ScheduledFor cfg es json promise am i := by
  rcases hpolled.1 with ⟨before, fuel, g, env, uninit, s', hbefore, hs', hparse, hlater, hclock, hi⟩
  rcases h.occurs hbefore with ⟨es₀, e, s₀, hes, hrun, hview, hmeans⟩
  cases hs'.symm.trans (Machine.runFrom_of_restrict hview)
  cases hmeans with
  | loop =>
    exact ⟨es₀, fuel, g, env, uninit, s₀, hes, Machine.runFrom_of_restrict hrun, hparse, hlater,
      hclock, hi⟩

theorem respondedTo_of_trace (h : (refinement cfg n).Trace es s ds) {i : Invocation}
    {exec : ExecStats} {res : CString}
    (hreplied : System.RepliedTo (cfg.consumer n).system
      (Consumer.systemEvents (cfg.consumer n) ds) i exec res) :
    ∃ b, res = bodyOf b.data ∧ RespondedTo cfg es i b := by
  rcases hreplied with ⟨before, j, s', hbefore, hs', hi⟩
  -- the reply is what an event of the loop means, and that is what an event of the stack means
  rcases (Consumer.trace_of_run h.view_run).occurs hbefore with ⟨ds₀, d, s₁, hds, hloop, hview, hd⟩
  cases hs'.symm.trans (Machine.runFrom_of_restrict hview)
  cases Consumer.toSystem_sendReply hd
  rcases h.occurs hds with ⟨es₀, e, s₀, hes, hrun, hview', hmeans⟩
  cases hloop.symm.trans hview'
  cases hmeans with
  | loop hloop => cases hloop
  | wire hwire hstack =>
    cases hstack with
    | system houtside => cases houtside
    | @sendReply c k _ _ _ a ha hj =>
      have hinvocation := Option.some.inj (hj.symm.trans hi)
      cases hwire with
      | stack hapart => cases hapart
      | @replies _ _ j managed env b _ a' session ha' hsession hok hposted =>
        cases ha.symm.trans ha'
        rw [hinvocation] at hposted
        exact ⟨b, rfl, es₀, c, k, j, managed, env, s₀, a, session, hes,
          Machine.runFrom_of_restrict hrun, ha, hinvocation, hsession, hposted, hok⟩

/--
In every run in which transaction ids are fresh and the sessions are in order, every payload that was
committed is answered once or still waits for its future. A fresh id is neither outstanding nor that of
an invocation still on a core. A session in order is answered what it asks and closed when it has been
answered everything; it is given up only before, and then its last request is not answered any more. An
answer is the one to its payload: what is in it is the body of a successful response to the arguments
that a session has posted for the invocation which was sent when that payload was polled.
-/
theorem answersPayloads (h : ((machine cfg n).restrict (FreshInOrder cfg)).run es = some s) :
    s.committed = payloads es
      ∧ (s.answered.map Consumer.Answer.json ++ s.pending.map Consumer.Pending.json).Perm (payloads es)
      ∧ (s.answered.filterMap Consumer.Answer.promise
        ++ s.pending.map Consumer.Pending.promise).Nodup
      ∧ ∀ a ∈ s.answered, AnsweredFor cfg es a := by
  rcases (refinement cfg n).exists_trace h with ⟨ds, htrace⟩
  rcases Consumer.answeredOnce htrace.view_run with ⟨hcommitted, hjsons, hpromises, hanswered⟩
  rw [payloads_of_trace htrace] at hcommitted hjsons
  refine ⟨hcommitted, hjsons, hpromises, ?_⟩
  intro a ha
  cases hanswered a ha with
  | atOnce fuel g am uninit hparse hnow hpromise hpayload =>
    exact .atOnce fuel g am uninit hparse hnow hpromise hpayload
  | completed promise am cm i exec res hscheduled hpromise hsent hreplied hcarries hpayload =>
    have hpolls := Consumer.polls_of_run htrace.view_run
    rcases hpolls.answered a ha promise hpromise with ⟨am', i', hpolled⟩
    rcases hpolled.2.unique hsent with ⟨rfl, rfl⟩
    rcases respondedTo_of_trace htrace hreplied with ⟨b, rfl, hresponded⟩
    have hscheduled' := scheduledFor_of_trace htrace hpolled
    exact .completed promise am' cm i' exec b hscheduled' hpromise hresponded hcarries hpayload

end run

def exampleConfig : Config where
  wire := Wire.exampleConfig
  yajl := Consumer.twoPayloads
  invokerId := 3
  nullMode := false

-- The loop answers one payload at once, and the other is served by a cold start.
def servedByColdStart (mine c : Fin 2) : List (Event 2) :=
  [
    .wire (.stack (.system (.registerNode 4 "10.0.0.2".toList))),
    .loop (Consumer.polled exactPayload),
    .loop (Consumer.polled Consumer.healthPayload)
  ] ++ ((Wire.coldStart mine c).drop 2).map .wire ++ [.loop (.respond 0)]

theorem servedByColdStart_run :
    (((machine exampleConfig 2).restrict (FreshInOrder exampleConfig)).run
      (servedByColdStart 0 1)).isSome := by
  decide +kernel

theorem answersPayloads_coldStart :
    ∃ s, ((machine exampleConfig 2).restrict (FreshInOrder exampleConfig)).run (servedByColdStart 0 1)
        = some s
      ∧ s.committed = [exactPayload, Consumer.healthPayload]
      ∧ s.answered.map Consumer.Answer.promise = [none, some 1]
      ∧ ∀ a ∈ s.answered, AnsweredFor exampleConfig (servedByColdStart 0 1) a := by
  have hrun := (Option.some_get servedByColdStart_run).symm
  have hanswers := answersPayloads hrun
  exact ⟨_, hrun, hanswers.1, by decide +kernel, hanswers.2.2.2⟩

end Kafka
end Seuss
