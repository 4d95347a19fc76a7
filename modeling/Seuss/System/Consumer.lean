import Seuss.Controller.Completion
import Seuss.Data.Refinement
import Seuss.System.Completion
import Seuss.System.EndToEnd

/-!
This module contains `openwhisk::kafka::activation_consumer_loop` on top of the whole system: one turn of
the loop, which commits what it has polled before it looks at it, and the continuation of a future, which
produces the reply. A fault ends the process, so a run goes on only without one.
-/

namespace Seuss
namespace Consumer

open Msg Controller

structure Config where
  system : System.Config
  yajl : Yajl
  invokerId : UInt64
  nullMode : Bool

-- what `poll` may return
inductive Polled where
  | nothing
  | eof
  | error
  | payload (json : CString)

-- a future with its continuation, and the payload it was scheduled for
structure Pending where
  json : CString
  promise : Nat

-- a message to `completed0`, what it answers and the future that it came from
structure Answer where
  json : CString
  promise : Option Nat
  payload : CString

structure State where
  system : System.State
  committed : List CString
  pending : List Pending
  answered : List Answer

def State.new : State where
  system := .new
  committed := []
  pending := []
  answered := []

inductive Event where
  | poll (fuel : Nat) (g : Garbage) (env : ScheduleEnv) (uninit : CompletionMessage) (polled : Polled)
  | respond (k : Nat)
  | system (e : System.Event)

variable (cfg : Config)

def Config.parse (fuel : Nat) (g : Garbage) (json : CString) : Except Msg.Fault ActivationMessage :=
  ActivationMessage.ofJson (misreading cfg.yajl g.misread) fuel g.uninit json

def Config.answersAtOnce (am : ActivationMessage) : Bool :=
  cfg.nullMode || am.action.name == "invokerHealthTestAction0".toList

def emptyResponse (uninit : CompletionMessage) (am : ActivationMessage) : CompletionMessage :=
  let cm := CompletionMessage.ofActivation uninit am
  { cm with response := { cm.response with statusCode := 0 } }

def State.process (s : State) (env : ScheduleEnv) (uninit : CompletionMessage) (json : CString)
    (am : ActivationMessage) : Option State :=
  let s := { s with committed := s.committed ++ [json] }
  if cfg.answersAtOnce am then
    let payload := sent cfg.invokerId (emptyResponse uninit am)
    some { s with answered := s.answered ++ [{ json := json, promise := none, payload := payload }] }
  else
    let promise := s.system.hosted.clock
    ((System.machine cfg.system).step s.system (.scheduleActivation env am [])).map fun system =>
      { s with system := system, pending := s.pending ++ [{ json := json, promise := promise }] }

def State.poll (s : State) (fuel : Nat) (g : Garbage) (env : ScheduleEnv)
    (uninit : CompletionMessage) (polled : Polled) : Option State :=
  match polled with
  | .nothing | .eof | .error => some s
  | .payload json => (cfg.parse fuel g json).toOption.bind (s.process cfg env uninit json)

def State.respond (s : State) (k : Nat) : Option State :=
  s.pending[k]?.bind fun p =>
    (s.system.hosted.fulfilled.find? (·.promise = p.promise)).map fun f =>
      {
        s with
        pending := s.pending.eraseIdx k
        answered := s.answered ++
          [{ json := p.json, promise := some p.promise, payload := sent cfg.invokerId f.message }]
      }

def machine : Machine State Event where
  init := .new
  step s e :=
    match e with
    | .poll fuel g env uninit polled => s.poll cfg fuel g env uninit polled
    | .respond k => s.respond cfg k
    -- activations are only scheduled by the loop
    | .system (.scheduleActivation _ _ _) => none
    | .system e => ((System.machine cfg.system).step s.system e).map fun system =>
      { s with system := system }

-- what an event is to the rest of the system
def Event.toSystem (e : Event) : Option System.Event :=
  match e with
  | .poll fuel g env _ (.payload json) => (cfg.parse fuel g json).toOption.bind fun am =>
    if cfg.answersAtOnce am then none else some (.scheduleActivation env am [])
  | .system e => some e
  | _ => none

def Event.payload (e : Event) : Option CString :=
  match e with
  | .poll _ _ _ _ (.payload json) => some json
  | _ => none

def systemEvents (es : List Event) : List System.Event :=
  es.filterMap (Event.toSystem cfg)

def payloads (es : List Event) : List CString :=
  es.filterMap Event.payload

def FreshTid (s : State) (e : Event) : Prop :=
  match e.toSystem cfg with
  | none => True
  | some e => System.FreshTid cfg.system s.system e

instance (s : State) (e : Event) : Decidable (FreshTid cfg s e) :=
  match h : e.toSystem cfg with
  | none => isTrue (by rw [FreshTid, h]; trivial)
  | some e => decidable_of_iff (System.FreshTid cfg.system s.system e) (by rw [FreshTid, h])

inductive Happens (cfg : Config) (s : State) : Event → State → Prop where
  | idle {fuel : Nat} {g : Garbage} {env : ScheduleEnv} {uninit : CompletionMessage}
      {polled : Polled} (hpolled : ∀ json, polled ≠ .payload json) :
      Happens cfg s (.poll fuel g env uninit polled) s
  | atOnce {fuel : Nat} {g : Garbage} {env : ScheduleEnv} {uninit : CompletionMessage}
      {json : CString} (am : ActivationMessage) (hparse : cfg.parse fuel g json = .ok am)
      (hnow : cfg.answersAtOnce am = true) :
      Happens cfg s (.poll fuel g env uninit (.payload json)) {
        s with
        committed := s.committed ++ [json]
        answered := s.answered ++ [{
          json := json
          promise := none
          payload := sent cfg.invokerId (emptyResponse uninit am)
        }]
      }
  | scheduled {fuel : Nat} {g : Garbage} {env : ScheduleEnv} {uninit : CompletionMessage}
      {json : CString} (am : ActivationMessage) (system : System.State)
      (hparse : cfg.parse fuel g json = .ok am) (hlater : cfg.answersAtOnce am = false)
      (hstep : (System.machine cfg.system).step s.system (.scheduleActivation env am [])
        = some system) :
      Happens cfg s (.poll fuel g env uninit (.payload json)) {
        s with
        system := system
        committed := s.committed ++ [json]
        pending := s.pending ++ [{ json := json, promise := s.system.hosted.clock }]
      }
  | responded {k : Nat} (p : Pending) (f : Fulfilled) (hp : s.pending[k]? = some p)
      (hf : s.system.hosted.fulfilled.find? (·.promise = p.promise) = some f) :
      Happens cfg s (.respond k) {
        s with
        pending := s.pending.eraseIdx k
        answered := s.answered ++ [{
          json := p.json
          promise := some p.promise
          payload := sent cfg.invokerId f.message
        }]
      }
  | system {e : System.Event} (system : System.State)
      (hother : ∀ env am code, e ≠ .scheduleActivation env am code)
      (hstep : (System.machine cfg.system).step s.system e = some system) :
      Happens cfg s (.system e) { s with system := system }

section step

variable {cfg} {s t : State} {e : Event}

theorem happens_of_poll {fuel : Nat} {g : Garbage} {env : ScheduleEnv} {uninit : CompletionMessage}
    {polled : Polled} (h : s.poll cfg fuel g env uninit polled = some t) :
    Happens cfg s (.poll fuel g env uninit polled) t := by
  cases polled with
  | nothing | eof | error =>
    cases h
    exact .idle fun json hpolled => nomatch hpolled
  | payload json =>
    simp only [State.poll, Option.bind_eq_some_iff, Machine.toOption_eq_some] at h
    rcases h with ⟨am, hparse, h⟩
    unfold State.process at h
    dsimp only at h
    split at h
    . next hnow =>
      cases h
      exact .atOnce am hparse hnow
    . next hlater =>
      rw [Option.map_eq_some_iff] at h
      rcases h with ⟨system, hstep, rfl⟩
      exact .scheduled am system hparse (Bool.eq_false_iff.mpr hlater) hstep

theorem happens_of_step (h : (machine cfg).step s e = some t) : Happens cfg s e t := by
  cases e with
  | poll fuel g env uninit polled => exact happens_of_poll h
  | respond k =>
    change s.respond cfg k = some t at h
    simp only [State.respond, Option.bind_eq_some_iff, Option.map_eq_some_iff] at h
    rcases h with ⟨p, hp, f, hf, rfl⟩
    exact .responded p f hp hf
  | system e =>
    simp only [machine] at h
    split at h
    . next heq => cases heq
    . next heq => cases heq
    . cases h
    . next e' hother heq =>
      cases heq
      rw [Option.map_eq_some_iff] at h
      rcases h with ⟨system, hstep, rfl⟩
      exact .system system (fun env am code he => hother env am code (by rw [he])) hstep

theorem step_other {d : System.Event} (hother : ∀ env am code, d ≠ .scheduleActivation env am code) :
    (machine cfg).step s (.system d) = ((System.machine cfg.system).step s.system d).map
      fun system => { s with system := system } := by
  cases d with
  | scheduleActivation env am code => exact absurd rfl (hother env am code)
  | _ => rfl

section toSystem

variable {fuel : Nat} {g : Garbage} {env : ScheduleEnv} {uninit : CompletionMessage}
  {polled : Polled} {json : CString} {am : ActivationMessage}

theorem payload_idle (hpolled : ∀ json, polled ≠ .payload json) :
    (Event.poll fuel g env uninit polled).payload = none := by
  cases polled with
  | payload json => exact absurd rfl (hpolled json)
  | _ => rfl

theorem toSystem_idle (hpolled : ∀ json, polled ≠ .payload json) :
    (Event.poll fuel g env uninit polled).toSystem cfg = none := by
  cases polled with
  | payload json => exact absurd rfl (hpolled json)
  | _ => rfl

theorem toSystem_atOnce (hparse : cfg.parse fuel g json = .ok am)
    (hnow : cfg.answersAtOnce am = true) :
    (Event.poll fuel g env uninit (.payload json)).toSystem cfg = none := by
  simp [Event.toSystem, hparse, hnow, Except.toOption]

theorem toSystem_scheduled (hparse : cfg.parse fuel g json = .ok am)
    (hlater : cfg.answersAtOnce am = false) :
    (Event.poll fuel g env uninit (.payload json)).toSystem cfg
      = some (.scheduleActivation env am []) := by
  simp [Event.toSystem, hparse, hlater, Except.toOption]

end toSystem

/--
The system makes the step that the event is to it.
-/
theorem system_of_happens (h : Happens cfg s e t) :
    (e.toSystem cfg = none ∧ t.system = s.system)
      ∨ ∃ e', e.toSystem cfg = some e' ∧ (System.machine cfg.system).step s.system e' = some t.system := by
  cases h with
  | idle hpolled => exact .inl ⟨toSystem_idle hpolled, rfl⟩
  | atOnce am hparse hnow => exact .inl ⟨toSystem_atOnce hparse hnow, rfl⟩
  | scheduled am system hparse hlater hstep =>
    exact .inr ⟨_, toSystem_scheduled hparse hlater, hstep⟩
  | responded => exact .inl ⟨rfl, rfl⟩
  | system system hother hstep => exact .inr ⟨_, rfl, hstep⟩

theorem system_of_none (h : Happens cfg s e t) (hnone : e.toSystem cfg = none) :
    t.system = s.system := by
  rcases system_of_happens h with ⟨_, hsame⟩ | ⟨d, hd, _⟩
  . exact hsame
  . rw [hnone] at hd
    cases hd

theorem system_of_some {d : System.Event} (h : Happens cfg s e t) (hsome : e.toSystem cfg = some d) :
    (System.machine cfg.system).step s.system d = some t.system := by
  rcases system_of_happens h with ⟨hd, _⟩ | ⟨d', hd, hstep⟩
  . rw [hsome] at hd
    cases hd
  . rw [hsome] at hd
    cases hd
    exact hstep

end step

-- The payload was parsed as `am`, and the future was returned for that.
def ScheduledFor (es : List Event) (json : CString) (promise : Nat) (am : ActivationMessage) : Prop :=
  cfg.answersAtOnce am = false
    ∧ (∃ fuel g, cfg.parse fuel g json = .ok am)
    ∧ ∃ i, System.SentFor cfg.system (systemEvents cfg es) promise am i

/--
The answer is the empty response to its payload, or the completion of the activation in its payload, with
a result that a core replied to the invocation that was sent for it.
-/
inductive AnsweredFor (es : List Event) (a : Answer) : Prop where
  | atOnce (fuel : Nat) (g : Garbage) (am : ActivationMessage) (uninit : CompletionMessage)
      (hparse : cfg.parse fuel g a.json = .ok am) (hnow : cfg.answersAtOnce am = true)
      (hpromise : a.promise = none)
      (hpayload : a.payload = sent cfg.invokerId (emptyResponse uninit am))
  | completed (promise : Nat) (am : ActivationMessage) (cm : CompletionMessage) (i : Invocation)
      (exec : ExecStats) (res : CString) (hscheduled : ScheduledFor cfg es a.json promise am)
      (hpromise : a.promise = some promise)
      (hsent : System.SentFor cfg.system (systemEvents cfg es) promise am i)
      (hreplied : System.RepliedTo cfg.system (systemEvents cfg es) i exec res)
      (hcarries : Carries cm am { i.info with argsSize := res.length, exec := exec } res)
      (hpayload : a.payload = sent cfg.invokerId cm)

structure Tracks (es : List Event) (s : State) : Prop where
  committed : s.committed = payloads es
  jsons : (s.answered.map Answer.json ++ s.pending.map Pending.json).Perm s.committed
  promises : (s.answered.filterMap Answer.promise ++ s.pending.map Pending.promise).Perm
    (System.futures cfg.system (systemEvents cfg es))
  pending : ∀ p ∈ s.pending, ∃ am, ScheduledFor cfg es p.json p.promise am
  answered : ∀ a ∈ s.answered, AnsweredFor cfg es a

section run

variable {cfg} {es : List Event} {s t : State} {e : Event}

theorem systemEvents_concat (es : List Event) (e : Event) :
    systemEvents cfg es <+: systemEvents cfg (es ++ [e]) := by
  rw [systemEvents, systemEvents, History.filterMap_concat]
  apply List.prefix_append

theorem systemEvents_of_none (es : List Event) (h : e.toSystem cfg = none) :
    systemEvents cfg (es ++ [e]) = systemEvents cfg es := by
  rw [systemEvents, History.filterMap_concat, h]
  apply List.append_nil

theorem systemEvents_of_some (es : List Event) {e' : System.Event} (h : e.toSystem cfg = some e') :
    systemEvents cfg (es ++ [e]) = systemEvents cfg es ++ [e'] := by
  rw [systemEvents, History.filterMap_concat, h]
  rfl

/--
The loop refines the system below it, which does what the events of the loop are to it.
-/
def refinement (cfg : Config) : Machine.Refinement ((machine cfg).restrict (FreshTid cfg))
    ((System.machine cfg.system).restrict (System.FreshTid cfg.system)) where
  view := State.system
  Inv _ := True
  Silent _ e := e.toSystem cfg = none
  Means _ e d := e.toSystem cfg = some d
  view_init := rfl
  inv_init := trivial
  inv_step _ _ _ _ _ := trivial
  simulates := by
    intro s e t _ hstep
    rw [Machine.restrict_step] at hstep
    rcases system_of_happens (happens_of_step hstep.2) with hsilent | ⟨e', he', hstep'⟩
    . exact .inl hsilent
    . have hfresh := hstep.1
      rw [FreshTid, he'] at hfresh
      exact .inr ⟨e', he', Machine.restrict_step.mpr ⟨hfresh, hstep'⟩⟩

theorem systemEvents_of_trace {ds : List System.Event} (h : (refinement cfg).Trace es s ds) :
    ds = systemEvents cfg es := by
  induction h with
  | nil => rfl
  | silent e t _ _ hsilent _ ih => rw [systemEvents_of_none _ hsilent, ih]
  | step e t d _ _ hmeans _ ih => rw [systemEvents_of_some _ hmeans, ih]

theorem trace_of_run (h : ((machine cfg).restrict (FreshTid cfg)).run es = some s) :
    (refinement cfg).Trace es s (systemEvents cfg es) := by
  rcases (refinement cfg).exists_trace h with ⟨ds, htrace⟩
  rw [← systemEvents_of_trace htrace]
  exact htrace

/--
The system below the loop runs as it does alone.
-/
theorem system_run (h : ((machine cfg).restrict (FreshTid cfg)).run es = some s) :
    ((System.machine cfg.system).restrict (System.FreshTid cfg.system)).run (systemEvents cfg es)
      = some s.system :=
  (trace_of_run h).view_run

theorem ScheduledFor.mono {json : CString} {promise : Nat} {am : ActivationMessage}
    (h : ScheduledFor cfg es json promise am) (e : Event) :
    ScheduledFor cfg (es ++ [e]) json promise am := by
  rcases h with ⟨hlater, hparse, i, hsent⟩
  exact ⟨hlater, hparse, i, hsent.mono (systemEvents_concat es e)⟩

theorem AnsweredFor.mono {a : Answer} (h : AnsweredFor cfg es a) (e : Event) :
    AnsweredFor cfg (es ++ [e]) a := by
  cases h with
  | atOnce fuel g am uninit hparse hnow hpromise hpayload =>
    exact .atOnce fuel g am uninit hparse hnow hpromise hpayload
  | completed promise am cm i exec res hscheduled hpromise hsent hreplied hcarries hpayload =>
    have hearlier : systemEvents cfg es <+: systemEvents cfg (es ++ [e]) := systemEvents_concat es e
    exact .completed promise am cm i exec res (hscheduled.mono e) hpromise (hsent.mono hearlier)
      (hreplied.mono hearlier) hcarries hpayload

theorem Tracks.new : Tracks cfg [] State.new where
  committed := rfl
  jsons := .nil
  promises := .nil
  pending := fun _ hp => nomatch hp
  answered := fun _ ha => nomatch ha

theorem payloads_concat (es : List Event) (e : Event) :
    payloads (es ++ [e]) = payloads es ++ e.payload.toList := by
  apply History.filterMap_concat

-- What the loop does not take part in leaves it as it is.
theorem Tracks.idle {system : System.State} (h : Tracks cfg es s) (hpayload : e.payload = none)
    (hfutures : System.futures cfg.system (systemEvents cfg (es ++ [e]))
      = System.futures cfg.system (systemEvents cfg es)) :
    Tracks cfg (es ++ [e]) { s with system := system } := by
  constructor
  . rw [payloads_concat, hpayload]
    exact h.committed.trans (List.append_nil _).symm
  . exact h.jsons
  . rw [hfutures]
    exact h.promises
  . intro p hp
    rcases h.pending p hp with ⟨am, hscheduled⟩
    exact ⟨am, hscheduled.mono e⟩
  . intro a ha
    exact (h.answered a ha).mono e

theorem Tracks.atOnce (h : Tracks cfg es s) {json payload : CString} (hpayload : e.payload = some json)
    (hsystem : e.toSystem cfg = none)
    (hanswer : AnsweredFor cfg (es ++ [e]) { json := json, promise := none, payload := payload }) :
    Tracks cfg (es ++ [e]) {
      s with
      committed := s.committed ++ [json]
      answered := s.answered ++ [{ json := json, promise := none, payload := payload }]
    } := by
  constructor
  . rw [payloads_concat, hpayload, ← h.committed]
    rfl
  . dsimp only
    rw [List.map_append]
    exact Pool.perm_put_left h.jsons json
  . dsimp only
    rw [systemEvents_of_none es hsystem, List.filterMap_append, List.filterMap_cons_none rfl,
      List.filterMap_nil, List.append_nil]
    exact h.promises
  . intro p hp
    rcases h.pending p hp with ⟨am, hscheduled⟩
    exact ⟨am, hscheduled.mono e⟩
  . apply Pool.forall_put _ hanswer
    intro a ha
    exact (h.answered a ha).mono e

theorem Tracks.scheduled (h : Tracks cfg es s) {json : CString} {env : ScheduleEnv}
    {am : ActivationMessage} {system : System.State} (hpayload : e.payload = some json)
    (hsystem : e.toSystem cfg = some (.scheduleActivation env am []))
    (hrun : (System.machine cfg.system).run (systemEvents cfg es) = some s.system)
    (hscheduled : ScheduledFor cfg (es ++ [e]) json s.system.hosted.clock am) :
    Tracks cfg (es ++ [e]) {
      s with
      system := system
      committed := s.committed ++ [json]
      pending := s.pending ++ [{ json := json, promise := s.system.hosted.clock }]
    } := by
  constructor
  . rw [payloads_concat, hpayload, ← h.committed]
    rfl
  . dsimp only
    rw [List.map_append]
    exact Pool.perm_put_right h.jsons json
  . dsimp only
    rw [systemEvents_of_some es hsystem, System.futures_concat hrun, List.map_append]
    exact Pool.perm_put_right h.promises _
  . refine Pool.forall_put (P := fun (p : Pending) => ∃ am, ScheduledFor cfg (es ++ [e]) p.json p.promise am) ?_
      ⟨am, hscheduled⟩
    intro p hp
    rcases h.pending p hp with ⟨am, hscheduled⟩
    exact ⟨am, hscheduled.mono e⟩
  . intro a ha
    exact (h.answered a ha).mono e

theorem Tracks.responded (h : Tracks cfg es s) {k : Nat} {p : Pending} {payload : CString}
    (hpayload : e.payload = none) (hsystem : e.toSystem cfg = none) (hp : s.pending[k]? = some p)
    (hanswer : AnsweredFor cfg (es ++ [e])
      { json := p.json, promise := some p.promise, payload := payload }) :
    Tracks cfg (es ++ [e]) {
      s with
      pending := s.pending.eraseIdx k
      answered := s.answered ++ [{ json := p.json, promise := some p.promise, payload := payload }]
    } := by
  constructor
  . rw [payloads_concat, hpayload]
    exact h.committed.trans (List.append_nil _).symm
  . dsimp only
    rw [List.map_append]
    exact Pool.perm_move h.jsons hp
  . dsimp only
    rw [systemEvents_of_none es hsystem, List.filterMap_append]
    exact Pool.perm_move h.promises hp
  . intro q hq
    rcases h.pending q (List.mem_of_mem_eraseIdx hq) with ⟨am, hscheduled⟩
    exact ⟨am, hscheduled.mono e⟩
  . apply Pool.forall_put _ hanswer
    intro a ha
    exact (h.answered a ha).mono e

theorem Tracks.step (h : Tracks cfg es s)
    (hrun : ((machine cfg).restrict (FreshTid cfg)).run es = some s)
    (hstep : ((machine cfg).restrict (FreshTid cfg)).step s e = some t) :
    Tracks cfg (es ++ [e]) t := by
  rw [Machine.restrict_step] at hstep
  have hsystem := Machine.runFrom_of_restrict (system_run hrun)
  cases happens_of_step hstep.2 with
  | idle hpolled =>
    apply h.idle (payload_idle hpolled)
    rw [systemEvents_of_none es (toSystem_idle hpolled)]
  | atOnce am hparse hnow =>
    apply h.atOnce rfl (toSystem_atOnce hparse hnow)
    exact .atOnce _ _ am _ hparse hnow rfl rfl
  | @scheduled fuel g env uninit json am system hparse hlater hstep' =>
    apply h.scheduled rfl (toSystem_scheduled hparse hlater) hsystem
    refine ⟨hlater, ⟨fuel, g, hparse⟩, _, systemEvents cfg es, env, [], s.system, ?_, hsystem, rfl, rfl⟩
    rw [systemEvents_of_some es (toSystem_scheduled hparse hlater)]
  | responded p f hp hf =>
    apply h.responded rfl rfl hp
    rcases h.pending p (Pool.mem_of_getElem? hp) with ⟨am, hscheduled⟩
    have hpromise : f.promise = p.promise := by
      simpa using List.find?_some hf
    have hcompletes := (System.answered_of_run (system_run hrun)).fulfilled f (List.mem_of_find?_eq_some hf)
    rcases hcompletes with ⟨am', i, exec, res, hsent, hreplied, hcarries⟩
    rw [hpromise] at hsent
    rcases hscheduled.2.2 with ⟨i', hsent'⟩
    rcases hsent'.unique hsent with ⟨rfl, rfl⟩
    apply AnsweredFor.mono
    exact .completed p.promise am f.message i' exec res hscheduled rfl hsent hreplied hcarries rfl
  | @system e' system hother hstep' =>
    apply h.idle rfl
    rw [systemEvents_of_some es rfl, System.futures_concat hsystem]
    cases e' with
    | scheduleActivation env am code => exact absurd rfl (hother env am code)
    | _ => apply List.append_nil

theorem tracks_of_run (h : ((machine cfg).restrict (FreshTid cfg)).run es = some s) : Tracks cfg es s := by
  refine Machine.run_induction _ (P := Tracks cfg) .new ?_ h
  intro es s e t hes htracks hstep
  exact htracks.step hes hstep

/--
Every payload that was committed is answered once or still waits for its future, and an answer is the one to
its payload: what is in it was computed for the activation that the payload was parsed as. An invocation is
replied to at most once here, and no transaction id is outstanding twice.
-/
theorem answeredOnce (h : ((machine cfg).restrict (FreshTid cfg)).run es = some s) :
    s.committed = payloads es
      ∧ (s.answered.map Answer.json ++ s.pending.map Pending.json).Perm (payloads es)
      ∧ (s.answered.filterMap Answer.promise ++ s.pending.map Pending.promise).Nodup
      ∧ ∀ a ∈ s.answered, AnsweredFor cfg es a := by
  have htracks := tracks_of_run h
  have hnodup := (System.futures_nodup (Machine.runFrom_of_restrict (system_run h))).1
  refine ⟨htracks.committed, ?_, htracks.promises.nodup_iff.mpr hnodup, htracks.answered⟩
  rw [← htracks.committed]
  exact htracks.jsons

-- The loop has polled the payload, and the future `promise` was returned when `i` was sent for it.
def PolledFor (cfg : Config) (es : List Event) (json : CString) (promise : Nat)
    (am : ActivationMessage) (i : Invocation) : Prop :=
  (∃ before fuel g env uninit s, before ++ [.poll fuel g env uninit (.payload json)] <+: es
    ∧ (machine cfg).run before = some s
    ∧ cfg.parse fuel g json = .ok am
    ∧ cfg.answersAtOnce am = false
    ∧ s.system.hosted.clock = promise
    ∧ i = System.scheduledInvocation cfg.system.hash env am [])
  ∧ System.SentFor cfg.system (systemEvents cfg es) promise am i

structure Polls (cfg : Config) (es : List Event) (s : State) : Prop where
  pending : ∀ p ∈ s.pending, ∃ am i, PolledFor cfg es p.json p.promise am i
  answered : ∀ a ∈ s.answered, ∀ promise ∈ a.promise, ∃ am i, PolledFor cfg es a.json promise am i

theorem PolledFor.mono {json : CString} {promise : Nat} {am : ActivationMessage} {i : Invocation}
    (h : PolledFor cfg es json promise am i) (e : Event) :
    PolledFor cfg (es ++ [e]) json promise am i := by
  rcases h with ⟨⟨before, fuel, g, env, uninit, s, hbefore, hrest⟩, hsent⟩
  have hbefore' := hbefore.trans (List.prefix_append es [e])
  exact ⟨⟨before, fuel, g, env, uninit, s, hbefore', hrest⟩, hsent.mono (systemEvents_concat es e)⟩

theorem Polls.mono (h : Polls cfg es s) (e : Event) : Polls cfg (es ++ [e]) s where
  pending p hp := by
    rcases h.pending p hp with ⟨am, i, hpolled⟩
    exact ⟨am, i, hpolled.mono e⟩
  answered a ha promise hpromise := by
    rcases h.answered a ha promise hpromise with ⟨am, i, hpolled⟩
    exact ⟨am, i, hpolled.mono e⟩

theorem Polls.step (h : Polls cfg es s)
    (hrun : ((machine cfg).restrict (FreshTid cfg)).run es = some s)
    (hstep : (machine cfg).step s e = some t) :
    Polls cfg (es ++ [e]) t := by
  have hmono := h.mono e
  cases happens_of_step hstep with
  | idle => exact hmono
  | atOnce am hparse hnow =>
    refine ⟨hmono.pending, Pool.forall_put hmono.answered ?_⟩
    intro promise hpromise
    cases hpromise
  | @scheduled fuel g env uninit json am system hparse hlater hstep' =>
    refine ⟨Pool.forall_put hmono.pending ?_, hmono.answered⟩
    have hsystem := Machine.runFrom_of_restrict (system_run hrun)
    refine ⟨am, System.scheduledInvocation cfg.system.hash env am [], ?_, ?_⟩
    . exact ⟨es, fuel, g, env, uninit, s, List.prefix_refl _, Machine.runFrom_of_restrict hrun,
        hparse, hlater, rfl, rfl⟩
    . refine ⟨systemEvents cfg es, env, [], s.system, ?_, hsystem, rfl, rfl⟩
      rw [systemEvents_of_some es (toSystem_scheduled hparse hlater)]
  | responded p f hp hf =>
    refine ⟨fun q hq => hmono.pending q (List.mem_of_mem_eraseIdx hq), ?_⟩
    apply Pool.forall_put hmono.answered
    intro promise hpromise
    cases hpromise
    exact hmono.pending p (Pool.mem_of_getElem? hp)
  | system => exact ⟨hmono.pending, hmono.answered⟩

/--
A future that is waited for, or was answered from, is the one that was returned for the payload
itself.
-/
theorem polls_of_run (h : ((machine cfg).restrict (FreshTid cfg)).run es = some s) :
    Polls cfg es s := by
  refine Machine.run_induction _ (P := Polls cfg) ⟨?_, ?_⟩ ?_ h
  . intro p hp
    cases hp
  . intro a ha
    cases ha
  . intro es s e t hes hpolls hstep
    exact hpolls.step hes (Machine.restrict_step.mp hstep).2

theorem toSystem_sendReply {k : Nat} {exec : ExecStats} {res : CString}
    (h : e.toSystem cfg = some (.sendReply k exec res)) :
    e = .system (.sendReply k exec res) := by
  cases e with
  | poll fuel g env uninit polled =>
    cases polled with
    | payload json =>
      simp only [Event.toSystem, Option.bind_eq_some_iff] at h
      rcases h with ⟨am, _, hsystem⟩
      split at hsystem <;> cases hsystem
    | _ => cases h
  | respond k => cases h
  | system e =>
    cases h
    rfl

theorem fulfilled_of_run (h : ((machine cfg).restrict (FreshTid cfg)).run es = some s) :
    ∀ promise ∈ s.answered.filterMap Answer.promise,
      promise ∈ s.system.hosted.fulfilled.map Fulfilled.promise := by
  refine Machine.run_induction _ (P := fun _ (s : State) =>
    ∀ promise ∈ s.answered.filterMap Answer.promise,
      promise ∈ s.system.hosted.fulfilled.map Fulfilled.promise) ?_ ?_ h
  . intro promise hpromise
    cases hpromise
  . intro es s e t _ hfulfilled hstep
    rw [Machine.restrict_step] at hstep
    cases happens_of_step hstep.2 with
    | idle => exact hfulfilled
    | atOnce =>
      dsimp only
      rw [List.filterMap_append, List.filterMap_cons_none rfl, List.filterMap_nil, List.append_nil]
      exact hfulfilled
    | scheduled am system hparse hlater hstep' =>
      intro promise hpromise
      have hmono := System.fulfilled_mono (System.machine_step.mp hstep')
      exact (hmono.map Fulfilled.promise).subset (hfulfilled promise hpromise)
    | responded p f hp hf =>
      have hpromise : f.promise = p.promise := by
        simpa using List.find?_some hf
      intro promise hmem
      rw [List.filterMap_append, List.mem_append] at hmem
      rcases hmem with hmem | hmem
      . exact hfulfilled promise hmem
      . cases List.mem_singleton.mp hmem
        rw [← hpromise]
        exact List.mem_map_of_mem (List.mem_of_find?_eq_some hf)
    | system system hother hstep' =>
      intro promise hpromise
      have hmono := System.fulfilled_mono (System.machine_step.mp hstep')
      exact (hmono.map Fulfilled.promise).subset (hfulfilled promise hpromise)

end run

-- An event that brings an answer nearer.
def Productive (s : State) (e : Event) : Prop :=
  match e with
  | .poll _ _ _ _ _ => False
  | .respond _ => True
  | .system e => System.Productive s.system e

instance (s : State) (e : Event) : Decidable (Productive s e) :=
  match e with
  | .poll _ _ _ _ _ => instDecidableFalse
  | .respond _ => instDecidableTrue
  | .system e => inferInstanceAs (Decidable (System.Productive s.system e))

def State.distance (s : State) : Nat :=
  s.system.distance + s.pending.length

section progress

variable {cfg} {es es' : List Event} {s t : State} {e : Event}

theorem freshTid_of_productive (he : Productive s e) : FreshTid cfg s e := by
  cases e with
  | poll => cases he
  | respond => trivial
  | system e => exact System.freshTid_of_productive he

theorem decreases (hinv : System.Inv s.system)
    (hs : ((machine cfg).restrict Productive).step s e = some t) :
    System.Inv t.system ∧ t.distance < s.distance := by
  rw [Machine.restrict_step] at hs
  unfold State.distance
  cases happens_of_step hs.2 with
  | idle | atOnce | scheduled => cases hs.1
  | responded p f hp hf =>
    have hlen := Pool.length_take hp
    refine ⟨hinv, ?_⟩
    dsimp only
    omega
  | system system hother hstep =>
    have hdecreases := System.decreases hinv (Machine.restrict_step.mpr ⟨hs.1, hstep⟩)
    refine ⟨hdecreases.1, ?_⟩
    dsimp only
    omega

end progress

section example_

def healthPayload : CString :=
  namedPayload "invokerHealthTestAction0".toList

-- the library on the two payloads
def twoPayloads : Yajl where
  treeParse json :=
    if json = exactPayload then some exactTree
    else if json = healthPayload then some (namedTree "invokerHealthTestAction0".toList)
    else none
  treeGet := pathYajl.treeGet
  getInteger := pathYajl.getInteger

def exampleConfig : Config where
  system := System.rescheduledConfig
  yajl := twoPayloads
  invokerId := 3
  nullMode := false

def polled (json : CString) : Event :=
  .poll 1 ⟨testActivation [] [], fun _ => 0, fun _ => 'x'⟩ exampleEnv exampleCompletion (.payload json)

def polledTwice : List Event :=
  [.system (.registerNode 4 "10.0.0.2".toList), polled exactPayload, polled healthPayload]

def answeredBoth : List Event :=
  polledTwice ++ [
    .system (.sendRequest 0),
    .system (.receiveRequest 0 0),
    .system (.getWork 1),
    .system (.sendReply 0 .zero "\x7b\x7d".toList),
    .system (.receiveReply 0 exampleCompletion 9000000),
    .respond 0
  ]

theorem twoPayloads_parse :
    twoPayloads.treeParse exactPayload = Json.parse exactPayload
      ∧ twoPayloads.treeParse healthPayload = Json.parse healthPayload := by
  constructor
  . rw [parse_exactPayload]
    rfl
  . have hplain : Json.Plain "invokerHealthTestAction0".toList := List.all_eq_true.mp rfl
    have hparse := parse_namedPayload (Json.literal_of_plain hplain)
    rw [Json.decode_map_byte] at hparse
    rw [healthPayload, hparse]
    rfl

theorem answeredBoth_run :
    (((machine exampleConfig).restrict (FreshTid exampleConfig)).run answeredBoth).isSome := by
  decide

theorem answeredOnce_both :
    ∃ s, ((machine exampleConfig).restrict (FreshTid exampleConfig)).run answeredBoth = some s
      ∧ twoPayloads.treeParse exactPayload = Json.parse exactPayload
      ∧ twoPayloads.treeParse healthPayload = Json.parse healthPayload
      ∧ s.committed = [exactPayload, healthPayload]
      ∧ s.answered.map Answer.promise = [none, some 1]
      ∧ ∀ a ∈ s.answered, AnsweredFor exampleConfig answeredBoth a := by
  have hrun := (Option.some_get answeredBoth_run).symm
  have honce := answeredOnce hrun
  exact ⟨_, hrun, twoPayloads_parse.1, twoPayloads_parse.2, honce.1, by decide, honce.2.2.2⟩

end example_

end Consumer
end Seuss
