import Seuss.Data.Pool
import Seuss.InvocationSession.Lemmas
import Seuss.Invoker.Session

/-!
This module contains what one event does to a session of `new_invocation_session`.
-/

namespace Seuss
namespace Invoker

open InvocationSession

variable {cfg : SessionConfig} {s t : InvocationSession} {env : Env} {e : SessionEvent}

theorem stepSession_eq_some :
    stepSession cfg s (env, e) = some t
      ↔
    s.stopped = none ∧ ∃ o, runSessionEvent cfg env e s = some o ∧ o.settle = t := by
  unfold stepSession
  split
  . next h => simp [h]
  . next h => simp [h, Option.map_eq_some_iff]

-- What an event runs, with what it found in the session that let it happen.
inductive Runs (cfg : SessionConfig) (env : Env) (s : InvocationSession) :
    SessionEvent → Outcome → Prop where
  | connected (hconnecting : s.connecting = true) :
      Runs cfg env s .connected (.done (s.connected env.now))
  | receive (b : MutIOBuf) :
      Runs cfg env s (.receive b) (s.receive cfg.promises (handlers cfg) env b)
  | close : Runs cfg env s .close (.done s.close)
  | abort : Runs cfg env s .abort (.done s.abort)
  | fire (deadline : Time) (hhook : s.hook = some deadline) (hdue : deadline ≤ env.now) :
      Runs cfg env s .fire (.done (InvocationSession.fire env.now { s with hook := none }))
  | spawned (k : Nat) (e : Spawned) (hget : s.spawned[k]? = some e) :
      Runs cfg env s (.spawned k) (runSpawned cfg env e (s.unspawn k))

theorem runs_of_stepSession (h : stepSession cfg s (env, e) = some t) :
    ∃ o, Runs cfg env s e o ∧ t = o.settle := by
  rw [stepSession_eq_some] at h
  rcases h with ⟨_, o, ho, rfl⟩
  refine ⟨o, ?_, rfl⟩
  cases e with
  | connected =>
    simp only [runSessionEvent, Option.ite_none_right_eq_some, Option.some.injEq] at ho
    rcases ho with ⟨hconnecting, rfl⟩
    exact .connected hconnecting
  | receive b =>
    cases ho
    exact .receive b
  | close =>
    cases ho
    exact .close
  | abort =>
    cases ho
    exact .abort
  | fire =>
    simp only [runSessionEvent] at ho
    split at ho
    . cases ho
    . next deadline hhook =>
      simp only [Option.ite_none_right_eq_some, Option.some.injEq] at ho
      rcases ho with ⟨hdue, rfl⟩
      exact .fire deadline hhook hdue
  | spawned k =>
    simp only [runSessionEvent, Option.map_eq_some_iff] at ho
    rcases ho with ⟨e, hget, rfl⟩
    exact .spawned k e hget

theorem runFrom_of_stopped {srcPort : UInt16} {istats : InvocationStats}
    {es : List (Env × SessionEvent)} (hstopped : s.stopped ≠ none)
    (h : (sessionMachine cfg srcPort istats).runFrom s es = some t) :
    es = [] := by
  cases es with
  | nil => rfl
  | cons e es =>
    rw [Machine.runFrom_cons] at h
    rcases h with ⟨u, hstep, _⟩
    exact absurd (stepSession_eq_some.mp hstep).1 hstopped

section kept

theorem kept_whenClosed : Kept s (whenClosed cfg env s).settle := by
  apply kept_andThen kept_finish
  intro t
  dsimp only
  split
  . apply Kept.trans _ kept_done
    apply kept_emit rfl
  . apply Kept.trans _ kept_done
    apply Kept.trans _ (kept_spawn rfl)
    apply kept_emit rfl

theorem kept_whenAborted : Kept s (whenAborted cfg s).settle := by
  apply kept_andThen kept_finish
  intro t
  apply Kept.trans _ kept_done
  apply kept_spawn rfl

theorem kept_runSpawned {e : Spawned} (h : e.opens = false) :
    Kept s (runSpawned cfg env e s).settle := by
  cases e with
  | connect => cases h
  | setValue sig =>
    cases sig with
    | closed =>
      apply kept_setValue (.inl rfl)
      intro t
      apply kept_whenClosed
    | aborted =>
      apply kept_setValue (.inr rfl)
      intro t
      apply kept_whenAborted
    | connected => cases h
    | executed => cases h
    | initialized => cases h
  | signalHalt =>
    apply Kept.trans _ kept_done
    apply kept_emit rfl

theorem kept_take {k : Nat} {e : Spawned} (hget : s.spawned[k]? = some e) (he : e.opens = false) :
    Kept s (s.unspawn k) := by
  refine kept_of_fields rfl rfl rfl rfl rfl ?_ ?_
  . apply Pool.filter_take_of_neg hget he
  . intro sig _ _
    rfl

-- What one event does: only `Receive` and the events that open a session change what `Kept` is about.
inductive SessionStep (cfg : SessionConfig) (env : Env) (s t : InvocationSession) :
    SessionEvent → Prop where
  | connected (hconnecting : s.connecting = true) (ht : t = s.connected env.now) :
      SessionStep cfg env s t .connected
  | receive (b : MutIOBuf) (ht : t = (s.receive cfg.promises (handlers cfg) env b).settle) :
      SessionStep cfg env s t (.receive b)
  | opens (k : Nat) (e : Spawned) (hget : s.spawned[k]? = some e) (hopens : e.opens = true)
      (ht : t = (runSpawned cfg env e (s.unspawn k)).settle) :
      SessionStep cfg env s t (.spawned k)
  | kept (e : SessionEvent) (hreceive : ∀ b, e ≠ .receive b) (h : Kept s t) :
      SessionStep cfg env s t e

theorem sessionStep_of_stepSession (h : stepSession cfg s (env, e) = some t) :
    SessionStep cfg env s t e := by
  rcases runs_of_stepSession h with ⟨o, ho, rfl⟩
  cases ho with
  | connected hconnecting =>
    exact .connected hconnecting rfl
  | receive b =>
    exact .receive b rfl
  | close =>
    apply SessionStep.kept _ (by simp)
    apply kept_close.trans kept_done
  | abort =>
    apply SessionStep.kept _ (by simp)
    apply kept_abort.trans kept_done
  | fire deadline hhook hdue =>
    apply SessionStep.kept _ (by simp)
    apply Kept.trans _ kept_done
    apply Kept.trans _ kept_fire
    apply kept_of_eq <;> rfl
  | spawned k e hget =>
    by_cases hopens : e.opens = true
    . exact .opens k e hget hopens rfl
    . simp only [Bool.not_eq_true] at hopens
      apply SessionStep.kept _ (by simp)
      apply (kept_take hget hopens).trans
      apply kept_runSpawned hopens

end kept

section receive

variable {promises : Promises} {hs : Env → Signal → InvocationSession → Outcome} {b : MutIOBuf}

structure IsOk (b : MutIOBuf) : Prop where
  isChained : b.isChained = false
  status : httpStatusOf b.data = httpOk

theorem receive_of_no_response (hchained : b.isChained = false) (h : responseOf b.data = none) :
    s.receive promises hs env b = .threw .outOfRange s := by
  simp [receive, hchained, h]

theorem receive_of_isOk {response : CString} (hok : IsOk b)
    (h : responseOf b.data = some response) :
    s.receive promises hs env b = receiveResponse promises hs env response s := by
  simp [receive, hok.isChained, hok.status, h]

theorem receiveResponse_of_initialized {response : CString} (hresponse : response = initialized)
    (h : s.isInitialized = false) :
    receiveResponse promises hs env response s
      =
    setValue promises hs env .initialized { s with isInitialized := true } := by
  simp [receiveResponse, hresponse, h]

theorem receiveResponse_of_executed {response : CString}
    (h : s.isInitialized = true ∨ response ≠ initialized) :
    receiveResponse promises hs env response s
      =
    setValue promises hs env .executed { s with reply := response } := by
  unfold receiveResponse
  rw [if_neg]
  rintro ⟨hresponse, hinit⟩
  cases h with
  | inl h => exact hinit h
  | inr h => exact h hresponse

theorem setValue_of_unsatisfied {sig : Signal} (h : s.satisfied sig = false) :
    setValue promises hs env sig s
      =
    promises.callback (hs env sig {
      s with
      effects := s.effects ++ [.setValue sig]
      satisfied := Function.update s.satisfied sig true
    }) := by
  simp [setValue, emit, h]

end receive

section effects

theorem effects_sendHttpRequest {path payload : CString} {keepAlive : Bool} :
    s.effects
      <+:
    (sendHttpRequest cfg.build env.now path payload keepAlive s).settle.effects := by
  unfold sendHttpRequest recordStart
  dsimp only
  split
  . apply List.prefix_refl
  . split
    . apply List.prefix_append
    . split
      . apply List.prefix_append
      . apply List.prefix_append

theorem effects_handlers {sig : Signal} :
    s.effects <+: (handlers cfg env sig s).settle.effects := by
  cases sig with
  | aborted => exact kept_whenAborted.effects
  | closed => exact kept_whenClosed.effects
  | connected =>
    simp only [handlers, whenConnected]
    split <;> apply effects_sendHttpRequest
  | executed => apply List.prefix_append
  | initialized =>
    exact effects_sendHttpRequest (s := { s with istats.exec.initTime := s.getInittime env.now })

theorem effects_callback {o : Outcome} :
    (cfg.promises.callback o).settle.effects = o.settle.effects := by
  rcases settle_callback cfg.promises o with ⟨stopped, hsettle⟩
  rw [hsettle]

theorem effects_setValue (cfg : SessionConfig) (env : Env) (sig : Signal) (s : InvocationSession) :
    s.effects ++ [.setValue sig]
      <+:
    (setValue cfg.promises (handlers cfg) env sig s).settle.effects := by
  unfold setValue
  dsimp only
  split
  . rw [effects_callback]
    apply List.IsPrefix.trans _ effects_handlers
    apply List.prefix_refl
  . apply List.prefix_refl
  . apply List.prefix_refl
  . rw [effects_callback]
    exact effects_handlers (s := emit (.setValue sig) s)

theorem mem_effectsSince {u : InvocationSession} {e : Effect} (h : s.effects <+: t.effects)
    (h' : t.effects ++ [e] <+: u.effects) :
    e ∈ effectsSince s u := by
  rcases h with ⟨l, hl⟩
  rcases h' with ⟨l', hl'⟩
  simp [effectsSince, ← hl', ← hl]

end effects

section ending

theorem endKept_handlers {sig : Signal} (hclosed : sig ≠ .closed) (haborted : sig ≠ .aborted) :
    EndKept s (handlers cfg env sig s).settle := by
  cases sig with
  | aborted => contradiction
  | closed => contradiction
  | connected =>
    simp only [handlers, whenConnected]
    split <;> apply endKept_sendHttpRequest
  | executed => apply endKept_of_eq <;> rfl
  | initialized =>
    apply EndKept.trans _ endKept_sendHttpRequest
    apply endKept_of_eq <;> rfl

theorem endsWith_whenClosed : EndsWith true s (whenClosed cfg env s).settle := by
  apply endsWith_andThen endsWith_finish
  intro t
  dsimp only [Outcome.settle]
  split
  . apply endKept_of_eq <;> rfl
  . apply EndKept.trans _ (endKept_spawn rfl)
    apply endKept_of_eq <;> rfl

theorem endsWith_whenAborted : EndsWith false s (whenAborted cfg s).settle := by
  apply endsWith_andThen endsWith_finish
  intro t
  apply endKept_spawn rfl

theorem satisfied_andThen {o : Outcome} {f : InvocationSession → Outcome}
    (hf : ∀ t, (f t).settle.satisfied = t.satisfied) :
    (o.andThen f).settle.satisfied = o.settle.satisfied := by
  cases o with
  | done t => apply hf
  | threw stop t => rfl

theorem satisfied_whenClosed : (whenClosed cfg env s).settle.satisfied = s.satisfied := by
  rw [whenClosed, satisfied_andThen, satisfied_finish]
  intro t
  dsimp only [Outcome.settle]
  split <;> rfl

theorem satisfied_whenAborted : (whenAborted cfg s).settle.satisfied = s.satisfied := by
  rw [whenAborted, satisfied_andThen, satisfied_finish]
  intro t
  rfl

theorem endKept_receiveResponse {response : CString} :
    EndKept s (receiveResponse cfg.promises (handlers cfg) env response s).settle := by
  unfold receiveResponse
  split
  . apply EndKept.trans _ (endKept_setValue (by decide) fun t => endKept_handlers (by decide) (by decide))
    apply endKept_of_eq <;> rfl
  . apply EndKept.trans _ (endKept_setValue (by decide) fun t => endKept_handlers (by decide) (by decide))
    apply endKept_of_eq <;> rfl

structure EndStep (e : SessionEvent) (s t : InvocationSession) : Prop where
  closing : Closing t → Closing s ∨ e = .close
  aborting : Aborting t →
    Aborting s ∨ e = .abort ∨ e = .fire ∨ ∃ b, e = .receive b ∧ httpStatusOf b.data ≠ httpOk
  failed : FailedOnlyByAbort s → FailedOnlyByAbort t

theorem endStep_of_endKept (h : EndKept s t) : EndStep e s t := by
  constructor
  . rw [h.closing_iff]
    exact .inl
  . rw [h.aborting_iff]
    exact .inl
  . rw [h.failedOnlyByAbort_iff]
    exact id

theorem endStep_spawn_closed (h : EndKept s t) : EndStep .close s (spawn (.setValue .closed) t) := by
  constructor
  . intro _
    exact .inr rfl
  . have haborting : Aborting (spawn (.setValue .closed) t) ↔ Aborting t := by
      simp [Aborting, spawn]
    rw [haborting, h.aborting_iff]
    exact .inl
  . rw [← h.failedOnlyByAbort_iff]
    exact id

theorem endStep_spawn_aborted (h : EndKept s t) (he : e = .abort ∨ e = .fire) :
    EndStep e s (spawn (.setValue .aborted) t) := by
  constructor
  . have hclosing : Closing (spawn (.setValue .aborted) t) ↔ Closing t := by
      simp [Closing, spawn]
    rw [hclosing, h.closing_iff]
    exact .inl
  . intro _
    cases he with
    | inl he => exact .inr (.inl he)
    | inr he => exact .inr (.inr (.inl he))
  . rw [← h.failedOnlyByAbort_iff]
    exact id

theorem endStep_close : EndStep .close s s.close := by
  apply endStep_spawn_closed
  apply endKept_disableTimer.trans
  apply endKept_of_eq <;> rfl

theorem endStep_abort (he : e = .abort ∨ e = .fire) : EndStep e s s.abort := by
  apply endStep_spawn_aborted _ he
  apply endKept_disableTimer.trans
  apply endKept_of_eq <;> rfl

theorem endStep_fire {now : Time} : EndStep .fire s (fire now s) := by
  unfold fire abort
  dsimp only
  split
  . apply endStep_spawn_aborted _ (.inr rfl)
    apply EndKept.trans (t := { s with timerSet := false, timeout := 0 })
    . apply endKept_of_eq <;> rfl
    . apply endKept_disableTimer.trans
      apply endKept_of_eq <;> rfl
  . apply endStep_of_endKept
    apply endKept_of_eq <;> rfl

theorem aborting_of_unspawn {k : Nat} (h : Aborting (s.unspawn k)) : Aborting s := by
  cases h with
  | inl h => exact .inl h
  | inr h => exact .inr (List.mem_of_mem_eraseIdx h)

theorem closing_of_unspawn {k : Nat} (h : Closing (s.unspawn k)) : Closing s := by
  cases h with
  | inl h => exact .inl h
  | inr h => exact .inr (List.mem_of_mem_eraseIdx h)

theorem endStep_unspawn {k : Nat} (h : EndStep e (s.unspawn k) t) : EndStep e s t := by
  constructor
  . intro hclosing
    exact (h.closing hclosing).imp_left closing_of_unspawn
  . intro haborting
    exact (h.aborting haborting).imp_left aborting_of_unspawn
  . exact h.failed

theorem endStep_setValue_closed {k : Nat} (hget : s.spawned[k]? = some (.setValue .closed)) :
    EndStep e s (setValue cfg.promises (handlers cfg) env .closed (s.unspawn k)).settle := by
  have hends : EndsWith true (s.unspawn k)
      (setValue cfg.promises (handlers cfg) env .closed (s.unspawn k)).settle :=
    endsWith_setValue fun t => endsWith_whenClosed
  constructor
  . intro _
    exact .inl (.inr (List.mem_of_getElem? hget))
  . intro haborting
    exact .inl (aborting_of_unspawn (hends.aborting_of haborting))
  . intro hfailed hfinished
    rw [satisfied_setValue fun t => satisfied_whenClosed, Function.update_of_ne (by decide)]
    apply hfailed
    cases hends.whenFinished with
    | inl h => rwa [h] at hfinished
    | inr h =>
      rw [h] at hfinished
      cases hfinished

theorem endStep_setValue_aborted {k : Nat} (hget : s.spawned[k]? = some (.setValue .aborted)) :
    EndStep e s (setValue cfg.promises (handlers cfg) env .aborted (s.unspawn k)).settle := by
  have hends : EndsWith false (s.unspawn k)
      (setValue cfg.promises (handlers cfg) env .aborted (s.unspawn k)).settle :=
    endsWith_setValue fun t => endsWith_whenAborted
  constructor
  . intro hclosing
    exact .inl (closing_of_unspawn (hends.closing_of hclosing))
  . intro _
    exact .inl (.inr (List.mem_of_getElem? hget))
  . intro _ _
    rw [satisfied_setValue fun t => satisfied_whenAborted, Function.update_self]

theorem satisfied_receiveFailure (cfg : SessionConfig) (env : Env) (response : CString)
    (s : InvocationSession) :
    (receiveFailure cfg.promises (handlers cfg) env response s).settle.satisfied .aborted = true := by
  rw [receiveFailure, satisfied_andThen, satisfied_setValue fun t => satisfied_whenAborted,
    Function.update_self]
  intro t
  rfl

theorem endsWith_receiveFailure {response : CString} :
    EndsWith false s (receiveFailure cfg.promises (handlers cfg) env response s).settle := by
  apply endsWith_andThen
  . have hends : EndsWith false { s with reply := response }
        (setValue cfg.promises (handlers cfg) env .aborted { s with reply := response }).settle :=
      endsWith_setValue fun t => endsWith_whenAborted
    exact ⟨hends.whenFinished, hends.closers⟩
  . intro t
    apply endKept_of_eq <;> rfl

theorem endStep_receive {b : MutIOBuf} :
    EndStep (.receive b) s (s.receive cfg.promises (handlers cfg) env b).settle := by
  unfold receive
  split
  . apply endStep_of_endKept
    apply endKept_of_eq <;> rfl
  . split
    . apply endStep_of_endKept
      apply endKept_of_eq <;> rfl
    . split
      . next response _ hstatus =>
        have hends : EndsWith false s
            ((receiveFailure cfg.promises (handlers cfg) env response s).andThen
              (receiveResponse cfg.promises (handlers cfg) env response)).settle :=
          endsWith_andThen endsWith_receiveFailure fun t => endKept_receiveResponse
        constructor
        . intro hclosing
          exact .inl (hends.closing_of hclosing)
        . intro _
          exact .inr (.inr (.inr ⟨b, rfl, hstatus⟩))
        . intro _ _
          have haborted := satisfied_receiveFailure cfg env response s
          cases hfailure : receiveFailure cfg.promises (handlers cfg) env response s with
          | done u =>
            rw [hfailure] at haborted
            exact endKept_receiveResponse.aborted.trans haborted
          | threw stop u =>
            rw [hfailure] at haborted
            exact haborted
      . apply endStep_of_endKept endKept_receiveResponse

theorem endStep_of_stepSession (h : stepSession cfg s (env, e) = some t) : EndStep e s t := by
  rcases runs_of_stepSession h with ⟨o, ho, rfl⟩
  cases ho with
  | connected hconnecting =>
    apply endStep_of_endKept
    apply EndKept.trans _ (endKept_spawn rfl)
    apply EndKept.trans _ endKept_enableTimer
    apply EndKept.trans (t := { s with isConnected := true, connecting := false })
    . apply endKept_of_eq <;> rfl
    . apply endKept_disableTimer.trans
      apply endKept_of_eq <;> rfl
  | receive b =>
    apply endStep_receive
  | close =>
    apply endStep_close
  | abort =>
    exact endStep_abort (.inl rfl)
  | fire deadline hhook hdue =>
    have hfire : EndStep .fire { s with hook := none } (fire env.now { s with hook := none }) :=
      endStep_fire
    exact ⟨hfire.closing, hfire.aborting, hfire.failed⟩
  | spawned k e hget =>
    cases e with
    | connect =>
      apply endStep_unspawn
      apply endStep_of_endKept
      simp only [runSpawned, connect]
      split
      . apply endKept_of_eq <;> rfl
      . split
        . apply endKept_of_eq <;> rfl
        . apply EndKept.trans _ endKept_enableTimer
          apply endKept_of_eq <;> rfl
    | setValue sig =>
      by_cases hclosed : sig = .closed
      . subst hclosed
        exact endStep_setValue_closed hget
      . by_cases haborted : sig = .aborted
        . subst haborted
          exact endStep_setValue_aborted hget
        . apply endStep_unspawn
          apply endStep_of_endKept
          apply endKept_setValue haborted
          intro t
          exact endKept_handlers hclosed haborted
    | signalHalt =>
      apply endStep_unspawn
      apply endStep_of_endKept
      apply endKept_of_eq <;> rfl

theorem failedOnlyByAbort_of_reachable {srcPort : UInt16} {istats : InvocationStats}
    (h : (sessionMachine cfg srcPort istats).Reachable s) :
    FailedOnlyByAbort s := by
  refine Machine.Reachable.invariant (P := FailedOnlyByAbort) ?_ ?_ h
  . intro hfinished
    cases hfinished
  . intro s e t _ hfailed hstep
    exact (endStep_of_stepSession hstep).failed hfailed

end ending

end Invoker
end Seuss
