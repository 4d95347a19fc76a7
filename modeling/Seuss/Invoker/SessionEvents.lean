import Seuss.Data.Pool
import Seuss.Invoker.SessionLemmas

/-!
This module contains what one event of a session does to its timer, to its promises and to the events
that are spawned. What it sends, replies and records besides is left open.
-/

namespace Seuss

def Effect.isSilent (e : Effect) : Bool :=
  match e with
  | .connect _ | .startTimer _ | .stopTimer | .setValue _ | .finish _ => false
  | _ => true

def Signal.ends (sig : Signal) : Bool :=
  match sig with
  | .closed | .aborted => true
  | _ => false

theorem Spawned.closes_setValue (sig : Signal) : (Spawned.setValue sig).closes = sig.ends := by
  cases sig <;> rfl

namespace InvocationSession

open Invoker

variable {s t u : InvocationSession}

structure Quiet (s t : InvocationSession) : Prop where
  timerSet : t.timerSet = s.timerSet
  timeout : t.timeout = s.timeout
  hook : t.hook = s.hook
  whenFinished : t.whenFinished = s.whenFinished
  satisfied : t.satisfied = s.satisfied
  isInitialized : t.isInitialized = s.isInitialized
  connecting : t.connecting = s.connecting
  spawned : t.spawned.filter (· ≠ .signalHalt) = s.spawned.filter (· ≠ .signalHalt)
  effects : ∃ l, t.effects = s.effects ++ l ∧ ∀ e ∈ l, e.isSilent = true

theorem Quiet.trans (h : Quiet s t) (h' : Quiet t u) : Quiet s u := by
  rcases h.effects with ⟨l, hl, hsilent⟩
  rcases h'.effects with ⟨l', hl', hsilent'⟩
  refine ⟨?_, ?_, ?_, ?_, ?_, ?_, ?_, ?_, l ++ l', ?_, ?_⟩
  . rw [h'.timerSet, h.timerSet]
  . rw [h'.timeout, h.timeout]
  . rw [h'.hook, h.hook]
  . rw [h'.whenFinished, h.whenFinished]
  . rw [h'.satisfied, h.satisfied]
  . rw [h'.isInitialized, h.isInitialized]
  . rw [h'.connecting, h.connecting]
  . rw [h'.spawned, h.spawned]
  . rw [hl', hl, List.append_assoc]
  . intro e he
    rw [List.mem_append] at he
    exact he.elim (hsilent e) (hsilent' e)

theorem quiet_of_eq (timerSet : t.timerSet = s.timerSet) (timeout : t.timeout = s.timeout)
    (hook : t.hook = s.hook) (whenFinished : t.whenFinished = s.whenFinished)
    (satisfied : t.satisfied = s.satisfied) (isInitialized : t.isInitialized = s.isInitialized)
    (connecting : t.connecting = s.connecting) (spawned : t.spawned = s.spawned)
    (effects : t.effects = s.effects) :
    Quiet s t := by
  refine ⟨timerSet, timeout, hook, whenFinished, satisfied, isInitialized, connecting, ?_, [], ?_, ?_⟩
  . rw [spawned]
  . rw [effects, List.append_nil]
  . simp

theorem Quiet.refl (s : InvocationSession) : Quiet s s := by
  apply quiet_of_eq <;> rfl

theorem Quiet.mem_spawned (h : Quiet s t) {e : Spawned} (he : e ≠ .signalHalt) :
    e ∈ t.spawned ↔ e ∈ s.spawned := by
  have hmem := congrArg (e ∈ ·) h.spawned
  simpa [he] using hmem

theorem Quiet.count_spawned (h : Quiet s t) {e : Spawned} (he : e ≠ .signalHalt) :
    t.spawned.count e = s.spawned.count e := by
  have hcount := congrArg (List.count e) h.spawned
  rwa [List.count_filter (by simpa using he), List.count_filter (by simpa using he)] at hcount

theorem quiet_emit {e : Effect} (h : e.isSilent = true) : Quiet s (emit e s) := by
  refine ⟨rfl, rfl, rfl, rfl, rfl, rfl, rfl, rfl, [e], rfl, ?_⟩
  simpa using h

theorem quiet_spawn_signalHalt : Quiet s (spawn .signalHalt s) := by
  refine ⟨rfl, rfl, rfl, rfl, rfl, rfl, rfl, ?_, [], ?_, ?_⟩
  . simp [spawn]
  . simp [spawn]
  . simp

theorem quiet_sendHttpRequest {build : Build} {now : Time} {path payload : CString}
    {keepAlive : Bool} :
    Quiet s (sendHttpRequest build now path payload keepAlive s).settle := by
  unfold sendHttpRequest
  split
  . apply quiet_of_eq <;> rfl
  . dsimp only [Outcome.settle]
    apply Quiet.trans _ (quiet_emit rfl)
    unfold recordStart
    split
    . apply quiet_of_eq <;> rfl
    . split <;> apply quiet_of_eq <;> rfl

theorem quiet_callback {promises : Promises} {o : Outcome} (h : Quiet s o.settle) :
    Quiet s (promises.callback o).settle := by
  rcases settle_callback promises o with ⟨stopped, hsettle⟩
  rw [hsettle]
  apply h.trans
  apply quiet_of_eq <;> rfl

theorem quiet_andThen {o : Outcome} {f : InvocationSession → Outcome} (ho : Quiet s o.settle)
    (hf : ∀ u, Quiet u (f u).settle) :
    Quiet s (o.andThen f).settle := by
  cases o with
  | done u => exact ho.trans (hf u)
  | threw stop u => exact ho

-- the promise of `sig` after `SetValue`
def mark (sig : Signal) (s : InvocationSession) : InvocationSession :=
  {
    s with
    effects := s.effects ++ [.setValue sig]
    satisfied := Function.update s.satisfied sig true
  }

-- the session after `Finish(status)`, with `kept` as the value of `when_finished_`
def ended (status kept : Bool) (s : InvocationSession) : InvocationSession :=
  { emit (.finish status) s.disableTimer with whenFinished := some kept }

theorem mark_of_satisfied {sig : Signal} (h : s.satisfied sig = true) :
    mark sig s = emit (.setValue sig) s := by
  have hupdate : Function.update s.satisfied sig true = s.satisfied := by
    rw [← h, Function.update_eq_self]
  rw [mark, hupdate]
  rfl

theorem mark_satisfied_self {sig : Signal} : (mark sig s).satisfied sig = true := by
  simp [mark]

theorem mark_satisfied_of_ne {sig other : Signal} (h : other ≠ sig) :
    (mark sig s).satisfied other = s.satisfied other := by
  simp [mark, Function.update_of_ne h]

structure TimerOnly (s t : InvocationSession) : Prop where
  whenFinished : t.whenFinished = s.whenFinished
  satisfied : t.satisfied = s.satisfied
  isInitialized : t.isInitialized = s.isInitialized
  connecting : t.connecting = s.connecting
  spawned : t.spawned = s.spawned
  effects : ∃ l, t.effects = s.effects ++ l
    ∧ ∀ e ∈ l, (∃ duration, e = .startTimer duration) ∨ e = .stopTimer

theorem timerOnly_disableTimer : TimerOnly s s.disableTimer := by
  unfold disableTimer stopTimer
  split
  . exact ⟨rfl, rfl, rfl, rfl, rfl, [.stopTimer], rfl, by simp⟩
  . exact ⟨rfl, rfl, rfl, rfl, rfl, [], by simp, by simp⟩

theorem timerOnly_enableTimer {now : Time} : TimerOnly s (enableTimer now s) := by
  unfold enableTimer
  split
  . exact ⟨rfl, rfl, rfl, rfl, rfl, [], by simp, by simp⟩
  . exact ⟨rfl, rfl, rfl, rfl, rfl, [_], rfl, by simp⟩

section setValue

variable {promises : Promises} {handlers : Env → Signal → InvocationSession → Outcome} {env : Env}
  {sig : Signal} {status : Bool}

theorem quiet_finish (promises : Promises) (status : Bool) (s : InvocationSession) :
    ∃ kept, (s.whenFinished = none → kept = status)
      ∧ Quiet (ended status kept s) (finish promises status s).settle := by
  unfold finish
  dsimp only
  split
  . exact ⟨status, fun _ => rfl, by apply quiet_of_eq <;> rfl⟩
  . next kept hfinished _ =>
    rw [emit, timerOnly_disableTimer.whenFinished] at hfinished
    refine ⟨kept, by simp [hfinished], ?_⟩
    apply quiet_of_eq <;> first | rfl | skip
    simp only [ended, Outcome.settle, emit, timerOnly_disableTimer.whenFinished, hfinished]
  . next kept hfinished _ =>
    rw [emit, timerOnly_disableTimer.whenFinished] at hfinished
    refine ⟨kept, by simp [hfinished], ?_⟩
    apply quiet_of_eq <;> first | rfl | skip
    simp only [ended, Outcome.settle, emit, timerOnly_disableTimer.whenFinished, hfinished]
  . exact ⟨status, fun _ => rfl, by apply quiet_of_eq <;> rfl⟩

theorem setValue_cases (promises : Promises)
    (handlers : Env → Signal → InvocationSession → Outcome) (env : Env) (sig : Signal)
    (s : InvocationSession) :
    setValue promises handlers env sig s = promises.callback (handlers env sig (mark sig s))
      ∨ s.satisfied sig = true
        ∧ (setValue promises handlers env sig s = .threw .alreadySatisfied (mark sig s)
          ∨ setValue promises handlers env sig s = .done (mark sig s)) := by
  cases hsig : s.satisfied sig with
  | false => exact .inl (setValue_of_unsatisfied hsig)
  | true =>
    rw [mark_of_satisfied hsig]
    unfold setValue
    cases promises.second with
    | throws => simp [emit, hsig]
    | ignored => simp [emit, hsig]
    | reruns => simp [emit, hsig]

theorem quiet_setValue (h : ∀ u, Quiet u (handlers env sig u).settle) :
    Quiet (mark sig s) (setValue promises handlers env sig s).settle := by
  rcases setValue_cases promises handlers env sig s with hrun | ⟨_, hthrew | hdone⟩
  . rw [hrun]
    exact quiet_callback (h (mark sig s))
  . rw [hthrew]
    apply quiet_of_eq <;> rfl
  . rw [hdone]
    apply Quiet.refl

/--
The promise of `sig` is set, with a callback that calls `Finish(status)`.
-/
inductive Ending (sig : Signal) (status : Bool) (s t : InvocationSession) : Prop where
  | again (hsig : s.satisfied sig = true) (h : Quiet (mark sig s) t)
  | finished (kept : Bool) (hkept : s.whenFinished = none → kept = status)
      (h : Quiet (ended status kept (mark sig s)) t)

theorem ending_setValue
    (h : ∀ u, ∃ kept, (u.whenFinished = none → kept = status)
      ∧ Quiet (ended status kept u) (handlers env sig u).settle) :
    Ending sig status s (setValue promises handlers env sig s).settle := by
  rcases setValue_cases promises handlers env sig s with hrun | ⟨hsig, hthrew | hdone⟩
  . rcases h (mark sig s) with ⟨kept, hkept, hquiet⟩
    rw [hrun]
    exact .finished kept hkept (quiet_callback hquiet)
  . rw [hthrew]
    apply Ending.again hsig
    apply quiet_of_eq <;> rfl
  . rw [hdone]
    exact .again hsig (Quiet.refl _)

theorem Ending.trans (h : Ending sig status s t) (h' : Quiet t u) : Ending sig status s u := by
  cases h with
  | again hsig h => exact .again hsig (h.trans h')
  | finished kept hkept h => exact .finished kept hkept (h.trans h')

end setValue

theorem ending_andThen {sig : Signal} {status : Bool} {o : Outcome}
    {f : InvocationSession → Outcome} (ho : Ending sig status s o.settle)
    (hf : ∀ u, Quiet u (f u).settle) :
    Ending sig status s (o.andThen f).settle := by
  cases o with
  | done u => exact ho.trans (hf u)
  | threw stop u => exact ho

-- the session after `Receive` has taken `response` for a successful one
def answered (response : CString) (s : InvocationSession) : InvocationSession :=
  if response = initialized ∧ ¬ s.isInitialized then
    mark .initialized { s with isInitialized := true }
  else
    mark .executed { s with reply := response }

end InvocationSession

namespace Invoker

open InvocationSession

variable {cfg : SessionConfig} {s t : InvocationSession} {env : Env} {e : SessionEvent}

theorem quiet_handlers {sig : Signal} (h : sig.ends = false) :
    Quiet s (handlers cfg env sig s).settle := by
  cases sig with
  | aborted => cases h
  | closed => cases h
  | connected =>
    simp only [handlers, whenConnected]
    split <;> apply quiet_sendHttpRequest
  | executed =>
    apply Quiet.trans _ (quiet_emit rfl)
    apply quiet_of_eq <;> rfl
  | initialized =>
    apply Quiet.trans _ quiet_sendHttpRequest
    apply quiet_of_eq <;> rfl

theorem quiet_whenClosed :
    ∃ kept, (s.whenFinished = none → kept = true)
      ∧ Quiet (ended true kept s) (whenClosed cfg env s).settle := by
  rcases quiet_finish cfg.promises true s with ⟨kept, hkept, hquiet⟩
  refine ⟨kept, hkept, quiet_andThen hquiet ?_⟩
  intro u
  dsimp only [Outcome.settle]
  split
  . apply quiet_emit rfl
  . apply Quiet.trans _ quiet_spawn_signalHalt
    apply quiet_emit rfl

theorem quiet_whenAborted :
    ∃ kept, (s.whenFinished = none → kept = false)
      ∧ Quiet (ended false kept s) (whenAborted cfg s).settle := by
  rcases quiet_finish cfg.promises false s with ⟨kept, hkept, hquiet⟩
  refine ⟨kept, hkept, quiet_andThen hquiet ?_⟩
  intro u
  exact quiet_spawn_signalHalt

def endStatus (sig : Signal) : Bool :=
  sig == .closed

theorem ending_handlers {sig : Signal} (h : sig.ends = true) :
    ∃ kept, (s.whenFinished = none → kept = endStatus sig)
      ∧ Quiet (ended (endStatus sig) kept s) (handlers cfg env sig s).settle := by
  cases sig with
  | aborted => exact quiet_whenAborted
  | closed => exact quiet_whenClosed
  | connected | executed | initialized => cases h

theorem ending_setValue_of_ends {sig : Signal} (h : sig.ends = true) :
    Ending sig (endStatus sig) s (setValue cfg.promises (handlers cfg) env sig s).settle :=
  ending_setValue fun _ => ending_handlers h

theorem quiet_setValue_of_not_ends {sig : Signal} (h : sig.ends = false) :
    Quiet (mark sig s) (setValue cfg.promises (handlers cfg) env sig s).settle :=
  quiet_setValue fun _ => quiet_handlers h

theorem quiet_receiveResponse {response : CString} :
    Quiet (answered response s)
      (receiveResponse cfg.promises (handlers cfg) env response s).settle := by
  unfold receiveResponse answered
  split
  . exact quiet_setValue_of_not_ends rfl
  . exact quiet_setValue_of_not_ends rfl

theorem ending_receiveFailure (cfg : SessionConfig) (env : Env) (response : CString)
    (s : InvocationSession) :
    Ending .aborted false { s with reply := response }
      (receiveFailure cfg.promises (handlers cfg) env response s).settle := by
  refine ending_andThen (ending_setValue_of_ends rfl) ?_
  intro u
  exact quiet_emit rfl

inductive Happens (cfg : SessionConfig) (env : Env) (s t : InvocationSession) :
    SessionEvent → Prop where
  | connected (hconnecting : s.connecting = true) (ht : t = s.connected env.now) :
      Happens cfg env s t .connected
  | close (ht : t = s.close) : Happens cfg env s t .close
  | abort (ht : t = s.abort) : Happens cfg env s t .abort
  | fire (deadline : Time) (hhook : s.hook = some deadline) (hdue : deadline ≤ env.now)
      (ht : t = fire env.now { s with hook := none }) : Happens cfg env s t .fire
  | rejected (b : MutIOBuf) (h : Quiet s t) : Happens cfg env s t (.receive b)
  | received (b : MutIOBuf) (response : CString) (hchained : b.isChained = false)
      (hresponse : responseOf b.data = some response) (hstatus : httpStatusOf b.data = httpOk)
      (h : Quiet (answered response s) t) : Happens cfg env s t (.receive b)
  | failed (b : MutIOBuf) (response : CString) (u : InvocationSession)
      (hchained : b.isChained = false) (hresponse : responseOf b.data = some response)
      (hstatus : httpStatusOf b.data ≠ httpOk)
      (hending : Ending .aborted false { s with reply := response } u)
      (h : t = u ∨ Quiet (answered response u) t) : Happens cfg env s t (.receive b)
  | connect (k : Nat) (hget : s.spawned[k]? = some .connect)
      (ht : t = (connect env.now (s.unspawn k)).settle) : Happens cfg env s t (.spawned k)
  | opened (k : Nat) (sig : Signal) (hget : s.spawned[k]? = some (.setValue sig))
      (hsig : sig.ends = false) (h : Quiet (mark sig (s.unspawn k)) t) :
      Happens cfg env s t (.spawned k)
  | ended (k : Nat) (sig : Signal) (hget : s.spawned[k]? = some (.setValue sig))
      (hsig : sig.ends = true) (h : Ending sig (endStatus sig) (s.unspawn k) t) :
      Happens cfg env s t (.spawned k)
  | halted (k : Nat) (hget : s.spawned[k]? = some .signalHalt) (h : Quiet s t) :
      Happens cfg env s t (.spawned k)

theorem happens_receive (b : MutIOBuf) :
    Happens cfg env s (s.receive cfg.promises (handlers cfg) env b).settle (.receive b) := by
  unfold receive
  split
  . apply Happens.rejected
    apply quiet_of_eq <;> rfl
  . next hchained =>
    rw [Bool.not_eq_true] at hchained
    split
    . apply Happens.rejected
      apply quiet_of_eq <;> rfl
    . next response hresponse =>
      split
      . next hstatus =>
        have hending := ending_receiveFailure cfg env response s
        refine .failed b response _ hchained hresponse hstatus hending ?_
        cases receiveFailure cfg.promises (handlers cfg) env response s with
        | done u => exact .inr quiet_receiveResponse
        | threw stop u => exact .inl rfl
      . next hstatus =>
        rw [not_not] at hstatus
        exact .received b response hchained hresponse hstatus quiet_receiveResponse

theorem quiet_unspawn_signalHalt {k : Nat} (h : s.spawned[k]? = some .signalHalt) :
    Quiet s (s.unspawn k) := by
  refine ⟨rfl, rfl, rfl, rfl, rfl, rfl, rfl, ?_, [], ?_, ?_⟩
  . exact Pool.filter_take_of_neg h rfl
  . simp [unspawn]
  . simp

theorem happens_of_stepSession (h : stepSession cfg s (env, e) = some t) :
    Happens cfg env s t e := by
  rcases runs_of_stepSession h with ⟨o, ho, rfl⟩
  cases ho with
  | connected hconnecting => exact .connected hconnecting rfl
  | receive b => exact happens_receive b
  | close => exact .close rfl
  | abort => exact .abort rfl
  | fire deadline hhook hdue => exact .fire deadline hhook hdue rfl
  | spawned k e hget =>
    cases e with
    | connect => exact .connect k hget rfl
    | setValue sig =>
      cases hsig : sig.ends with
      | false => exact .opened k sig hget hsig (quiet_setValue_of_not_ends hsig)
      | true => exact .ended k sig hget hsig (ending_setValue_of_ends hsig)
    | signalHalt =>
      apply Happens.halted k hget
      apply (quiet_unspawn_signalHalt hget).trans
      exact quiet_emit rfl

end Invoker
end Seuss
