import Seuss.Controller.Basic
import Seuss.Deployment.Basic
import Seuss.Invoker.Invoke
import Seuss.Invoker.Pairing
import Seuss.Invoker.SessionEvents

/-!
This module contains how the durations of a reply are measured and what `ResolveActivation` makes of
them. A session takes a start time when it sends a request and a duration when it takes a response for
the one to that request, so a duration counts from the epoch of the clock where no request was sent.
-/

namespace Seuss

section milliseconds

-- `omega` takes no `Time`
variable {a b c d first last : Int}

theorem toNat_millisecondsBetween (hle : a ≤ b) (hlt : b - a < 2 ^ 63) :
    (millisecondsBetween a b).toNat = (b - a).toNat / 1000000 := by
  have hnonneg : 0 ≤ b - a := by omega
  rw [millisecondsBetween, Int.tdiv_eq_ediv_of_nonneg hnonneg, UInt64.ofInt, UInt64.toNat_ofNat']
  have hmod : (b - a) / 1000000 % 2 ^ 64 = (b - a) / 1000000 := by
    apply Int.emod_eq_of_lt <;> omega
  rw [hmod]
  omega

/--
Whole milliseconds of two intervals, the second after the first, are at most those of an interval around
both.
-/
theorem millisecondsBetween_add_le (hfirst : first ≤ a) (hab : a ≤ b)
    (hbc : b ≤ c) (hcd : c ≤ d) (hlast : d ≤ last) (hlt : last - first < 2 ^ 63) :
    (millisecondsBetween a b).toNat + (millisecondsBetween c d).toNat
      ≤
    (millisecondsBetween first last).toNat := by
  rw [toNat_millisecondsBetween hab (by omega), toNat_millisecondsBetween hcd (by omega),
    toNat_millisecondsBetween (by omega) hlt]
  apply Nat.div_add_div_le_add_div.trans
  apply Nat.div_le_div_right
  omega

-- clocks that advance at the same rate
theorem millisecondsBetween_shift {offset : Int} :
    millisecondsBetween (a + offset) (b + offset) = millisecondsBetween a b := by
  rw [millisecondsBetween, Int.add_sub_add_right, millisecondsBetween]

theorem millisecondsBetween_le (hfirst : first ≤ a) (hab : a ≤ b)
    (hlast : b ≤ last) (hlt : last - first < 2 ^ 63) :
    (millisecondsBetween a b).toNat ≤ (millisecondsBetween first last).toNat := by
  have hle := millisecondsBetween_add_le hfirst hab (Int.le_refl b) (Int.le_refl b) hlast hlt
  omega

-- a duration that counts from the epoch
theorem lt_millisecondsBetween_epoch (hpast : last - first + 1000000 ≤ b)
    (hle : first ≤ last) (hlt : b < 2 ^ 63) :
    (millisecondsBetween first last).toNat < (millisecondsBetween 0 b).toNat := by
  rw [toNat_millisecondsBetween hle (by omega), toNat_millisecondsBetween (by omega) (by omega)]
  omega

end milliseconds

namespace InvocationSession

variable {s t u : InvocationSession}

def startTimes (s : InvocationSession) : Time × Time :=
  (s.initStartTime, s.runStartTime)

theorem startTimes_enableTimer {now : Time} : (enableTimer now s).startTimes = s.startTimes := by
  unfold enableTimer
  split <;> rfl

theorem startTimes_disableTimer : s.disableTimer.startTimes = s.startTimes := by
  unfold disableTimer stopTimer
  split <;> rfl

theorem startTimes_fire {now : Time} : (fire now s).startTimes = s.startTimes := by
  unfold fire
  dsimp only
  split
  . exact startTimes_disableTimer (s := { s with timerSet := false, timeout := 0 })
  . rfl

theorem startTimes_andThen {o : Outcome} {f : InvocationSession → Outcome}
    (ho : o.settle.startTimes = s.startTimes)
    (hf : ∀ t, (f t).settle.startTimes = t.startTimes) :
    (o.andThen f).settle.startTimes = s.startTimes := by
  cases o with
  | done t => exact (hf t).trans ho
  | threw stop t => exact ho

theorem startTimes_callback {promises : Promises} {o : Outcome} :
    (promises.callback o).settle.startTimes = o.settle.startTimes := by
  rcases settle_callback promises o with ⟨stopped, hsettle⟩
  rw [hsettle]
  rfl

theorem startTimes_finish {promises : Promises} {status : Bool} :
    (finish promises status s).settle.startTimes = s.startTimes := by
  unfold finish
  dsimp only
  split <;> exact startTimes_disableTimer

theorem startTimes_setValue {promises : Promises}
    {handlers : Env → Signal → InvocationSession → Outcome} {env : Env} {sig : Signal}
    (h : ∀ t, (handlers env sig t).settle.startTimes = t.startTimes) :
    (setValue promises handlers env sig s).settle.startTimes = s.startTimes := by
  rcases setValue_cases promises handlers env sig s with hrun | ⟨_, hthrew | hdone⟩
  . rw [hrun, startTimes_callback, h]
    rfl
  . rw [hthrew]
    rfl
  . rw [hdone]
    rfl

-- What a step keeps that neither sends a request nor takes a duration.
structure Untimed (s t : InvocationSession) : Prop where
  requests : t.requests = s.requests
  replies : t.replies = s.replies
  istats : t.istats = s.istats
  isInitialized : t.isInitialized = s.isInitialized
  startTimes : t.startTimes = s.startTimes

theorem Untimed.trans (h : Untimed s t) (h' : Untimed t u) : Untimed s u := by
  constructor
  . rw [h'.requests, h.requests]
  . rw [h'.replies, h.replies]
  . rw [h'.istats, h.istats]
  . rw [h'.isInitialized, h.isInitialized]
  . rw [h'.startTimes, h.startTimes]

theorem Kept.untimed (h : Kept s t) (startTimes : t.startTimes = s.startTimes) : Untimed s t :=
  ⟨h.requests, h.replies, h.istats, h.isInitialized, startTimes⟩

theorem sendHttpRequest_startTimes (build : Build) (now : Time) (path payload : CString)
    (keepAlive : Bool) (s : InvocationSession) :
    sendHttpRequest build now path payload keepAlive s = .threw .kassert s
      ∨ ∃ msg t, sendHttpRequest build now path payload keepAlive s = .done t
          ∧ Sent path msg s t ∧ t.startTimes = (recordStart now path s).startTimes := by
  rcases sendHttpRequest_cases build now path payload keepAlive s with hsend | ⟨msg, t, hsend, hsent⟩
  . exact .inl hsend
  . refine .inr ⟨msg, t, hsend, hsent, ?_⟩
    unfold sendHttpRequest at hsend
    split at hsend
    . cases hsend
    . cases hsend
      unfold recordStart
      split
      . rfl
      . split <;> rfl

end InvocationSession

namespace Invoker

open InvocationSession

variable {cfg : SessionConfig} {s t u : InvocationSession} {env : Env} {e : SessionEvent}

section step

theorem startTimes_whenClosed : (whenClosed cfg env s).settle.startTimes = s.startTimes := by
  apply startTimes_andThen startTimes_finish
  intro t
  dsimp only [Outcome.settle]
  split <;> rfl

theorem startTimes_whenAborted : (whenAborted cfg s).settle.startTimes = s.startTimes := by
  apply startTimes_andThen startTimes_finish
  intro t
  rfl

theorem startTimes_receiveFailure {response : CString} :
    (receiveFailure cfg.promises (handlers cfg) env response s).settle.startTimes = s.startTimes := by
  apply startTimes_andThen
  . exact startTimes_setValue (s := { s with reply := response }) fun t => startTimes_whenAborted
  . intro t
    rfl

-- What holds of every session: only the connection and its end are announced in an event of their own.
structure Steady (s : InvocationSession) : Prop where
  flag : s.satisfied .initialized = s.isInitialized
  spawned : ∀ sig, .setValue sig ∈ s.spawned → sig = .connected ∨ sig.ends = true

theorem Steady.quiet (h : Steady s) (hquiet : Quiet s t) : Steady t := by
  constructor
  . rw [hquiet.satisfied, hquiet.isInitialized, h.flag]
  . intro sig hsig
    rw [hquiet.mem_spawned (by simp)] at hsig
    exact h.spawned sig hsig

theorem Steady.timerOnly (h : Steady s) (htimer : TimerOnly s t) : Steady t := by
  constructor
  . rw [htimer.satisfied, htimer.isInitialized, h.flag]
  . rw [htimer.spawned]
    exact h.spawned

theorem Steady.congr (h : Steady s) (satisfied : t.satisfied = s.satisfied)
    (isInitialized : t.isInitialized = s.isInitialized) (spawned : t.spawned = s.spawned) :
    Steady t := by
  constructor
  . rw [satisfied, isInitialized, h.flag]
  . rw [spawned]
    exact h.spawned

theorem Steady.spawn (h : Steady s) {sig : Signal} (hsig : sig = .connected ∨ sig.ends = true) :
    Steady (spawn (.setValue sig) s) := by
  constructor
  . exact h.flag
  . intro other hother
    rw [InvocationSession.spawn, List.mem_append, List.mem_singleton, Spawned.setValue.injEq] at hother
    cases hother with
    | inl hother => exact h.spawned other hother
    | inr hother => rwa [hother]

theorem Steady.unspawn (h : Steady s) (k : Nat) : Steady (s.unspawn k) := by
  constructor
  . exact h.flag
  . intro sig hsig
    exact h.spawned sig (List.mem_of_mem_eraseIdx hsig)

theorem Steady.mark (h : Steady s) {sig : Signal} (hsig : sig ≠ .initialized) :
    Steady (mark sig s) := by
  constructor
  . rw [mark_satisfied_of_ne hsig.symm]
    exact h.flag
  . exact h.spawned

theorem Steady.ending (h : Steady s) {sig : Signal} {status : Bool} (hsig : sig.ends = true)
    (hending : Ending sig status s t) :
    Steady t := by
  have hmark : Steady (InvocationSession.mark sig s) := by
    apply h.mark
    rintro rfl
    cases hsig
  cases hending with
  | again _ hquiet => exact hmark.quiet hquiet
  | finished kept _ hquiet =>
    apply Steady.quiet _ hquiet
    exact (hmark.timerOnly timerOnly_disableTimer).congr rfl rfl rfl

theorem Steady.answered (h : Steady s) {response : CString} :
    Steady (InvocationSession.answered response s) := by
  unfold InvocationSession.answered
  split
  . constructor
    . exact mark_satisfied_self
    . exact h.spawned
  . have hreply : Steady { s with reply := response } := h.congr rfl rfl rfl
    exact hreply.mark (by simp)

theorem Steady.close (h : Steady s) : Steady s.close := by
  apply Steady.spawn _ (.inr rfl)
  exact (h.timerOnly timerOnly_disableTimer).congr rfl rfl rfl

theorem Steady.abort (h : Steady s) : Steady s.abort := by
  apply Steady.spawn _ (.inr rfl)
  exact (h.timerOnly timerOnly_disableTimer).congr rfl rfl rfl

theorem Steady.happens (h : Steady s) (hhappens : Happens cfg env s t e) : Steady t := by
  cases hhappens with
  | connected _ ht =>
    rw [ht]
    apply Steady.spawn _ (.inl rfl)
    apply Steady.timerOnly _ timerOnly_enableTimer
    have hoff : Steady { s with isConnected := true, connecting := false } := h.congr rfl rfl rfl
    exact (hoff.timerOnly timerOnly_disableTimer).congr rfl rfl rfl
  | close ht =>
    rw [ht]
    exact h.close
  | abort ht =>
    rw [ht]
    exact h.abort
  | fire _ _ _ ht =>
    rw [ht]
    unfold fire
    dsimp only
    split
    . have hoff : Steady { s with hook := none, timerSet := false, timeout := 0 } :=
        h.congr rfl rfl rfl
      exact hoff.abort
    . exact h.congr rfl rfl rfl
  | rejected b hquiet => exact h.quiet hquiet
  | received b response _ _ _ hquiet => exact h.answered.quiet hquiet
  | failed b response u _ _ _ hending hquiet =>
    have hreply : Steady { s with reply := response } := h.congr rfl rfl rfl
    have hu : Steady u := hreply.ending rfl hending
    cases hquiet with
    | inl hu' => rwa [hu']
    | inr hquiet => exact hu.answered.quiet hquiet
  | connect k hget ht =>
    rw [ht]
    have hrest := h.unspawn k
    unfold connect
    split
    . exact hrest.congr rfl rfl rfl
    . split
      . exact hrest.congr rfl rfl rfl
      . apply Steady.timerOnly _ timerOnly_enableTimer
        exact hrest.congr rfl rfl rfl
  | opened k sig hget hsig hquiet =>
    apply Steady.quiet _ hquiet
    apply (h.unspawn k).mark
    rintro rfl
    rcases h.spawned _ (List.mem_of_getElem? hget) with hconnected | hends
    . cases hconnected
    . cases hends
  | ended k sig hget hsig hending => exact (h.unspawn k).ending hsig hending
  | halted k hget hquiet => exact h.quiet hquiet

theorem steady_of_reachable {srcPort : UInt16} {istats : InvocationStats}
    (h : (sessionMachine cfg srcPort istats).Reachable s) :
    Steady s := by
  refine Machine.Reachable.invariant (P := Steady) ?_ ?_ h
  . constructor
    . rfl
    . intro sig hsig
      simp [sessionMachine, InvocationSession.new] at hsig
  . intro s e t _ hsteady hstep
    exact hsteady.happens (happens_of_stepSession hstep)

def firstPath (cfg : SessionConfig) : CString :=
  if cfg.code ≠ [] then initPath else runPath

-- What one step of a session does to its start times and to the durations that it reports.
inductive TimedStep (cfg : SessionConfig) (now : Time) (s t : InvocationSession) : Prop where
  | untimed (h : Untimed s t)
  | stopped (stopped : t.stopped ≠ none) (replies : t.replies = s.replies)
  | sent (requests : t.requests = s.requests ++ [firstPath cfg]) (replies : t.replies = s.replies)
      (istats : t.istats = s.istats) (isInitialized : t.isInitialized = s.isInitialized)
      (startTimes : t.startTimes = (recordStart now (firstPath cfg) s).startTimes)
  | initialized (uninitialized : s.isInitialized = false) (isInitialized : t.isInitialized = true)
      (requests : t.requests = s.requests ++ [runPath]) (replies : t.replies = s.replies)
      (initTime : t.istats.exec.initTime = s.getInittime now)
      (startTimes : t.startTimes = (s.initStartTime, now))
  | executed (response : CString) (requests : t.requests = s.requests)
      (replies : t.replies = s.replies ++ [(t.istats, response)])
      (istats : t.istats =
        { s.istats with exec.status := false, exec.runTime := s.getRuntime now })
      (isInitialized : t.isInitialized = s.isInitialized) (startTimes : t.startTimes = s.startTimes)

theorem TimedStep.of_untimed {now : Time} (h : Untimed s u) (hstep : TimedStep cfg now u t) :
    TimedStep cfg now s t := by
  have hstart := h.startTimes
  simp only [startTimes, Prod.mk.injEq] at hstart
  cases hstep with
  | untimed hut => exact .untimed (h.trans hut)
  | stopped stopped replies => exact .stopped stopped (replies.trans h.replies)
  | sent requests replies istats isInitialized hsent =>
    apply TimedStep.sent
    . rw [requests, h.requests]
    . exact replies.trans h.replies
    . exact istats.trans h.istats
    . exact isInitialized.trans h.isInitialized
    . rw [hsent]
      unfold recordStart
      split
      . simp [startTimes, hstart]
      . split <;> simp [startTimes, hstart]
  | initialized uninitialized isInitialized requests replies initTime hrun =>
    apply TimedStep.initialized
    . rw [← h.isInitialized, uninitialized]
    . exact isInitialized
    . rw [requests, h.requests]
    . exact replies.trans h.replies
    . rw [initTime, getInittime, hstart.1, getInittime]
    . rw [hrun, hstart.1]
  | executed response requests replies istats isInitialized hsame =>
    apply TimedStep.executed response
    . rw [requests, h.requests]
    . rw [replies, h.replies]
    . rw [istats, h.istats, getRuntime, hstart.2, getRuntime]
    . exact isInitialized.trans h.isInitialized
    . exact hsame.trans h.startTimes

theorem untimed_threw {stop : Stop} : Untimed s (Outcome.threw stop s).settle :=
  kept_threw.untimed rfl

theorem untimed_emit {e : Effect} (h : e.isQuiet = true) : Untimed s (emit e s) :=
  (kept_emit h).untimed rfl

theorem replies_emit_resolve {istats : InvocationStats} {ret : CString} :
    (emit (.resolve istats ret) s).replies = s.replies ++ [(istats, ret)] :=
  replies_append (l := [.resolve istats ret]) rfl

theorem untimed_mark (sig : Signal) (s : InvocationSession) : Untimed s (mark sig s) := by
  constructor
  . exact requests_emit_of_isQuiet (e := .setValue sig) rfl
  . exact replies_emit_of_isQuiet (e := .setValue sig) rfl
  all_goals rfl

theorem untimed_enableTimer {now : Time} : Untimed s (enableTimer now s) :=
  kept_enableTimer.untimed startTimes_enableTimer

theorem untimed_disableTimer : Untimed s s.disableTimer :=
  kept_disableTimer.untimed startTimes_disableTimer

theorem untimed_of_eq (effects : t.effects = s.effects) (istats : t.istats = s.istats)
    (isInitialized : t.isInitialized = s.isInitialized) (startTimes : t.startTimes = s.startTimes) :
    Untimed s t :=
  ⟨requests_congr effects, replies_congr effects, istats, isInitialized, startTimes⟩

theorem untimed_connect {now : Time} : Untimed s (s.connect now).settle := by
  unfold connect
  split
  . exact untimed_threw
  . split
    . exact untimed_threw
    . apply Untimed.trans _ untimed_enableTimer
      apply Untimed.trans (untimed_emit (e := .connect s.srcPort) rfl)
      apply untimed_of_eq <;> rfl

theorem untimed_rearm {now timeout : Time} :
    Untimed s (enableTimer now { s with timeout := timeout }) := by
  apply Untimed.trans _ untimed_enableTimer
  apply untimed_of_eq <;> rfl

theorem untimed_connected {now : Time} : Untimed s (s.connected now) := by
  have hon : Untimed s { s with isConnected := true, connecting := false } :=
    untimed_of_eq rfl rfl rfl rfl
  have htimer : Untimed s
      (enableTimer now {
        disableTimer { s with isConnected := true, connecting := false } with
        timeout := now + 60 * 1000000000
      }) :=
    (hon.trans untimed_disableTimer).trans untimed_rearm
  exact htimer.trans (untimed_of_eq rfl rfl rfl rfl)

theorem untimed_close : Untimed s s.close :=
  kept_close.untimed startTimes_disableTimer

theorem untimed_abort : Untimed s s.abort :=
  kept_abort.untimed startTimes_disableTimer

theorem untimed_fire {now : Time} : Untimed s (fire now s) :=
  kept_fire.untimed startTimes_fire

theorem timedStep_sendHttpRequest {path payload : CString} {keepAlive : Bool}
    (hpath : path = firstPath cfg) :
    TimedStep cfg env.now s
      (cfg.promises.callback
        (sendHttpRequest cfg.build env.now path payload keepAlive s)).settle := by
  rcases sendHttpRequest_startTimes cfg.build env.now path payload keepAlive s with
    hsend | ⟨msg, t, hsend, hsent, hstart⟩
  . rw [hsend, callback_kassert]
    exact .untimed untimed_threw
  . rw [hsend]
    subst hpath
    apply TimedStep.sent
    . exact requests_append hsent.effects
    . exact (replies_append hsent.effects).trans (List.append_nil _)
    . exact hsent.istats
    . exact hsent.isInitialized
    . exact hstart

theorem timedStep_setValue {sig : Signal}
    (h : TimedStep cfg env.now (mark sig s)
      (cfg.promises.callback (handlers cfg env sig (mark sig s))).settle) :
    TimedStep cfg env.now s (setValue cfg.promises (handlers cfg) env sig s).settle := by
  have hmark := untimed_mark sig s
  rcases setValue_cases cfg.promises (handlers cfg) env sig s with hrun | ⟨_, hthrew | hdone⟩
  . rw [hrun]
    exact .of_untimed hmark h
  . rw [hthrew]
    exact .untimed (hmark.trans untimed_threw)
  . rw [hdone]
    exact .untimed hmark

theorem timedStep_setValue_connected :
    TimedStep cfg env.now s
      (setValue cfg.promises (handlers cfg) env .connected s).settle := by
  apply timedStep_setValue
  simp only [handlers, whenConnected_eq]
  apply timedStep_sendHttpRequest rfl

theorem timedStep_setValue_executed :
    TimedStep cfg env.now s
      (setValue cfg.promises (handlers cfg) env .executed s).settle := by
  apply timedStep_setValue
  apply TimedStep.executed s.reply
  . exact (requests_append rfl).trans (List.append_nil _)
  . apply replies_emit_resolve
  all_goals rfl

theorem timedStep_whenInitialized (hinit : s.isInitialized = false)
    (requests : u.requests = s.requests) (replies : u.replies = s.replies)
    (isInitialized : u.isInitialized = true) (startTimes : u.startTimes = s.startTimes) :
    TimedStep cfg env.now s (cfg.promises.callback (whenInitialized cfg env u)).settle := by
  have hstart := startTimes
  simp only [InvocationSession.startTimes, Prod.mk.injEq] at hstart
  unfold whenInitialized
  rcases sendHttpRequest_startTimes cfg.build env.now runPath cfg.args false
    { u with istats.exec.initTime := u.getInittime env.now } with
    hsend | ⟨msg, t, hsend, hsent, hrun⟩
  . rw [runPath] at hsend
    rw [hsend, callback_kassert]
    apply TimedStep.stopped
    . simp [Outcome.settle]
    . exact replies
  . rw [runPath] at hsend
    rw [hsend]
    apply TimedStep.initialized hinit
    . exact hsent.isInitialized.trans isInitialized
    . refine (requests_append hsent.effects).trans ?_
      exact congrArg (· ++ [runPath]) requests
    . refine (replies_append hsent.effects).trans ?_
      exact (List.append_nil _).trans replies
    . refine (congrArg (·.exec.initTime) hsent.istats).trans ?_
      simp only [getInittime, hstart.1]
    . refine hrun.trans ?_
      unfold recordStart runPath
      rw [if_neg (by decide), if_pos rfl, InvocationSession.startTimes, hstart.1]

theorem timedStep_receiveResponse (hsteady : Steady s) (response : CString) :
    TimedStep cfg env.now s
      (receiveResponse cfg.promises (handlers cfg) env response s).settle := by
  by_cases hinit : response = InvocationSession.initialized ∧ s.isInitialized = false
  . rcases hinit with ⟨hresponse, hinit⟩
    have hunset : s.satisfied .initialized = false := by
      rw [hsteady.flag, hinit]
    rw [receiveResponse_of_initialized hresponse hinit, setValue_of_unsatisfied]
    . have hmark := untimed_mark .initialized { s with isInitialized := true }
      apply timedStep_whenInitialized hinit
      . exact hmark.requests
      . exact hmark.replies
      . rfl
      . rfl
    . exact hunset
  . rw [receiveResponse_of_executed]
    . apply TimedStep.of_untimed _ timedStep_setValue_executed
      constructor <;> rfl
    . rw [not_and, Bool.not_eq_false] at hinit
      by_cases hresponse : response = InvocationSession.initialized
      . exact .inl (hinit hresponse)
      . exact .inr hresponse

theorem timedStep_receive (hsteady : Steady s) (b : MutIOBuf) :
    TimedStep cfg env.now s (s.receive cfg.promises (handlers cfg) env b).settle := by
  unfold receive
  split
  . exact .untimed untimed_threw
  . split
    . exact .untimed untimed_threw
    . next response _ =>
      split
      . have hfailure : Untimed s (receiveFailure cfg.promises (handlers cfg) env response s).settle := by
          have hkept : Kept { s with reply := response }
              (receiveFailure cfg.promises (handlers cfg) env response s).settle := by
            apply kept_andThen (kept_setValue (.inr rfl) fun t => kept_whenAborted)
            intro t
            exact kept_emit rfl
          have huntimed := hkept.untimed startTimes_receiveFailure
          exact ⟨huntimed.requests, huntimed.replies, huntimed.istats, huntimed.isInitialized,
            huntimed.startTimes⟩
        have hreply : Steady { s with reply := response } := hsteady.congr rfl rfl rfl
        have hended := hreply.ending rfl (ending_receiveFailure cfg env response s)
        cases hdone : receiveFailure cfg.promises (handlers cfg) env response s with
        | done u =>
          rw [hdone] at hfailure hended
          exact .of_untimed hfailure (timedStep_receiveResponse hended response)
        | threw stop u =>
          rw [hdone] at hfailure
          exact .untimed hfailure
      . exact timedStep_receiveResponse hsteady response

theorem untimed_runSpawned {e : Spawned} (h : e.opens = false) :
    Untimed s (runSpawned cfg env e s).settle := by
  apply (kept_runSpawned h).untimed
  cases e with
  | connect => cases h
  | setValue sig =>
    cases sig with
    | closed => exact startTimes_setValue fun t => startTimes_whenClosed
    | aborted => exact startTimes_setValue fun t => startTimes_whenAborted
    | connected | executed | initialized => cases h
  | signalHalt => rfl

theorem timedStep_runSpawned {k : Nat} {e : Spawned} (hsteady : Steady s)
    (hget : s.spawned[k]? = some e) :
    TimedStep cfg env.now s (runSpawned cfg env e (s.unspawn k)).settle := by
  have hunspawn : Untimed s (s.unspawn k) := by
    apply untimed_of_eq <;> rfl
  apply TimedStep.of_untimed hunspawn
  cases e with
  | connect => exact .untimed untimed_connect
  | setValue sig =>
    rcases hsteady.spawned sig (List.mem_of_getElem? hget) with rfl | hends
    . exact timedStep_setValue_connected
    . apply TimedStep.untimed
      apply untimed_runSpawned
      cases sig with
      | closed | aborted => rfl
      | connected | executed | initialized => cases hends
  | signalHalt => exact .untimed (untimed_runSpawned rfl)

theorem timedStep_of_stepSession (hsteady : Steady s) (h : stepSession cfg s (env, e) = some t) :
    TimedStep cfg env.now s t := by
  rcases runs_of_stepSession h with ⟨o, ho, rfl⟩
  cases ho with
  | connected hconnecting => exact .untimed untimed_connected
  | receive b => exact timedStep_receive hsteady b
  | close => exact .untimed untimed_close
  | abort => exact .untimed untimed_abort
  | fire deadline hhook hdue =>
    apply TimedStep.untimed
    apply Untimed.trans _ untimed_fire
    apply untimed_of_eq <;> rfl
  | spawned k e hget => exact timedStep_runSpawned hsteady hget

end step

section run

-- A start time: the epoch of the clock before a request was sent, and since then a time of the clock.
def Started (first now start : Time) (sent : Prop) : Prop :=
  sent ∧ first ≤ start ∧ start ≤ now ∨ ¬ sent ∧ start = 0

theorem Started.mono {first now later start : Time} {sent : Prop} (h : Started first now start sent)
    (hlater : now ≤ later) :
    Started first later start sent := by
  refine h.imp_left ?_
  intro ⟨hsent, hfirst, hnow⟩
  exact ⟨hsent, hfirst, le_trans hnow hlater⟩

structure Starts (first now : Time) (s : InvocationSession) : Prop where
  init : Started first now s.initStartTime (initPath ∈ s.requests)
  run : Started first now s.runStartTime (runPath ∈ s.requests)

theorem Starts.mono {first now later : Time} (h : Starts first now s) (hlater : now ≤ later) :
    Starts first later s :=
  ⟨h.init.mono hlater, h.run.mono hlater⟩

theorem Starts.congr {first now : Time} (h : Starts first now s) (requests : t.requests = s.requests)
    (startTimes : t.startTimes = s.startTimes) :
    Starts first now t := by
  simp only [InvocationSession.startTimes, Prod.mk.injEq] at startTimes
  constructor
  . rw [startTimes.1, requests]
    exact h.init
  . rw [startTimes.2, requests]
    exact h.run

theorem Starts.sent {first now : Time} {path : CString} (h : Starts first now s)
    (hfirst : first ≤ now) (hpath : path = initPath ∨ path = runPath)
    (requests : t.requests = s.requests ++ [path])
    (startTimes : t.startTimes = (recordStart now path s).startTimes) :
    Starts first now t := by
  have hne : initPath ≠ runPath := by decide
  have hmem : ∀ other, other ≠ path → (other ∈ t.requests ↔ other ∈ s.requests) := by
    intro other hother
    simp [requests, hother]
  have hsent : path ∈ t.requests := by
    simp [requests]
  simp only [InvocationSession.startTimes, Prod.mk.injEq] at startTimes
  rcases hpath with rfl | rfl
  . constructor
    . exact .inl ⟨hsent, by rw [startTimes.1]; exact ⟨hfirst, le_refl now⟩⟩
    . rw [startTimes.2, hmem runPath hne.symm]
      exact h.run
  . constructor
    . rw [startTimes.1, hmem initPath hne]
      exact h.init
    . exact .inl ⟨hsent, by rw [startTimes.2]; exact ⟨hfirst, le_refl now⟩⟩

/--
What the start times and `init_time` of a session are at `now`, where its first event came at `first` and
`init_time` was `marker` then.
-/
structure Timed (cfg : SessionConfig) (marker : UInt64) (first now : Time) (s : InvocationSession) :
    Prop where
  starts : Starts first now s
  unmeasured : s.isInitialized = false →
    s.istats.exec.initTime = marker ∧ ∀ path ∈ s.requests, path = firstPath cfg
  measured : s.isInitialized = true →
    runPath ∈ s.requests
      ∧ ∃ start stop, s.istats.exec.initTime = millisecondsBetween start stop
        ∧ first ≤ stop ∧ stop ≤ s.runStartTime
        ∧ Started first stop start (s.requests.head? = some initPath)

variable {marker : UInt64} {first now : Time}

theorem firstPath_cases (cfg : SessionConfig) : firstPath cfg = initPath ∨ firstPath cfg = runPath := by
  unfold firstPath
  split
  . exact .inl rfl
  . exact .inr rfl

theorem Timed.mono {later : Time} (h : Timed cfg marker first now s) (hlater : now ≤ later) :
    Timed cfg marker first later s :=
  ⟨h.starts.mono hlater, h.unmeasured, h.measured⟩

theorem Timed.congr (h : Timed cfg marker first now s) (requests : t.requests = s.requests)
    (initTime : t.istats.exec.initTime = s.istats.exec.initTime)
    (isInitialized : t.isInitialized = s.isInitialized) (startTimes : t.startTimes = s.startTimes) :
    Timed cfg marker first now t := by
  refine ⟨h.starts.congr requests startTimes, ?_, ?_⟩
  . rw [isInitialized, initTime, requests]
    exact h.unmeasured
  . simp only [InvocationSession.startTimes, Prod.mk.injEq] at startTimes
    rw [isInitialized, initTime, requests, startTimes.2]
    exact h.measured

theorem Timed.sent (h : Timed cfg marker first now s) (hfirst : first ≤ now)
    (requests : t.requests = s.requests ++ [firstPath cfg]) (istats : t.istats = s.istats)
    (isInitialized : t.isInitialized = s.isInitialized)
    (startTimes : t.startTimes = (recordStart now (firstPath cfg) s).startTimes) :
    Timed cfg marker first now t := by
  have hstarts := h.starts.sent hfirst (firstPath_cases cfg) requests startTimes
  refine ⟨hstarts, ?_, ?_⟩
  . rw [isInitialized, istats, requests]
    intro hinit
    rcases h.unmeasured hinit with ⟨hmarker, hpaths⟩
    refine ⟨hmarker, ?_⟩
    intro path hpath
    rw [List.mem_append, List.mem_singleton] at hpath
    exact hpath.elim (hpaths path) id
  . rw [isInitialized, istats]
    intro hinit
    rcases h.measured hinit with ⟨hrun, start, stop, hinitTime, hstop, hle, hstarted⟩
    have hhead : t.requests.head? = s.requests.head? := by
      rw [requests]
      exact List.head?_append_of_ne_nil _ (List.ne_nil_of_mem hrun)
    refine ⟨?_, start, stop, hinitTime, hstop, ?_, ?_⟩
    . rw [requests]
      exact List.mem_append_left _ hrun
    . -- a later `/run` starts later
      rcases h.starts.run with ⟨_, _, hnow⟩ | ⟨hnot, _⟩
      . simp only [InvocationSession.startTimes, Prod.mk.injEq] at startTimes
        rw [startTimes.2]
        unfold recordStart
        split
        . exact hle
        . split
          . exact le_trans hle hnow
          . exact hle
      . exact absurd hrun hnot
    . rwa [hhead]

theorem Timed.initialized (h : Timed cfg marker first now s) (hfirst : first ≤ now)
    (uninitialized : s.isInitialized = false) (isInitialized : t.isInitialized = true)
    (requests : t.requests = s.requests ++ [runPath])
    (initTime : t.istats.exec.initTime = s.getInittime now)
    (startTimes : t.startTimes = (s.initStartTime, now)) :
    Timed cfg marker first now t := by
  have hrecord : t.startTimes = (recordStart now runPath s).startTimes := startTimes
  refine ⟨h.starts.sent hfirst (.inr rfl) requests hrecord, ?_, ?_⟩
  . rw [isInitialized]
    intro hfalse
    cases hfalse
  . intro _
    simp only [InvocationSession.startTimes, Prod.mk.injEq] at startTimes
    refine ⟨?_, s.initStartTime, now, initTime, hfirst, ?_, ?_⟩
    . simp [requests]
    . rw [startTimes.2]
    . have hpaths := (h.unmeasured uninitialized).2
      have hhead : t.requests.head? = some initPath ↔ initPath ∈ s.requests := by
        rw [requests]
        cases hs : s.requests with
        | nil => decide
        | cons path paths =>
          rw [hs] at hpaths
          have hpath := hpaths path List.mem_cons_self
          constructor
          . intro hhead
            simp only [List.cons_append, List.head?_cons, Option.some.injEq] at hhead
            rw [hhead]
            exact List.mem_cons_self
          . intro hmem
            rw [hpath, ← hpaths initPath hmem]
            rfl
      rw [hhead]
      exact h.starts.init

theorem Timed.step (h : Timed cfg marker first now s) (hfirst : first ≤ now)
    (hstep : TimedStep cfg now s t) (hstopped : t.stopped = none) :
    Timed cfg marker first now t := by
  cases hstep with
  | untimed hst =>
    exact h.congr hst.requests (by rw [hst.istats]) hst.isInitialized hst.startTimes
  | stopped stopped => exact absurd hstopped stopped
  | sent requests _ istats isInitialized startTimes =>
    exact h.sent hfirst requests istats isInitialized startTimes
  | initialized uninitialized isInitialized requests _ initTime startTimes =>
    exact h.initialized hfirst uninitialized isInitialized requests initTime startTimes
  | executed _ requests _ istats isInitialized startTimes =>
    exact h.congr requests (by rw [istats]) isInitialized startTimes

-- The events come in the order of the clock, between two times of it.
structure Clocked (first last : Time) (es : List (Env × SessionEvent)) : Prop where
  sorted : es.Pairwise fun e f => e.1.now ≤ f.1.now
  inside : ∀ e ∈ es, first ≤ e.1.now ∧ e.1.now ≤ last

theorem Clocked.append_left {last : Time} {es fs : List (Env × SessionEvent)}
    (h : Clocked first last (es ++ fs)) :
    Clocked first last es :=
  ⟨(List.pairwise_append.mp h.sorted).1, fun e he => h.inside e (List.mem_append_left _ he)⟩

theorem Clocked.le_of_concat {last : Time} {es : List (Env × SessionEvent)}
    {f : Env × SessionEvent} (h : Clocked first last (es ++ [f])) :
    ∀ e ∈ es, e.1.now ≤ f.1.now := by
  intro e he
  exact (List.pairwise_append.mp h.sorted).2.2 e he f List.mem_cons_self

theorem timed_of_run {srcPort : UInt16} {istats : InvocationStats} {last : Time}
    {es : List (Env × SessionEvent)} (hrun : (sessionMachine cfg srcPort istats).run es = some s)
    (hclock : Clocked first last es) (hnow : ∀ e ∈ es, e.1.now ≤ now) (hstopped : s.stopped = none) :
    Timed cfg istats.exec.initTime first now s := by
  revert hclock hnow hstopped now
  refine Machine.run_induction (sessionMachine cfg srcPort istats)
    (P := fun es s => ∀ {now : Time}, Clocked first last es → (∀ e ∈ es, e.1.now ≤ now) →
      s.stopped = none → Timed cfg istats.exec.initTime first now s) ?_ ?_ hrun
  . intro now _ _ _
    refine ⟨⟨.inr ⟨List.not_mem_nil, rfl⟩, .inr ⟨List.not_mem_nil, rfl⟩⟩, ?_, ?_⟩
    . intro _
      refine ⟨rfl, ?_⟩
      intro path hpath
      cases hpath
    . intro hinit
      cases hinit
  . intro es s e t hs ih hstep now hclock hnow hstopped
    have hsteady := steady_of_reachable ⟨es, hs⟩
    have hrunning : s.stopped = none := (stepSession_eq_some.mp hstep).1
    have htimed := ih hclock.append_left hclock.le_of_concat hrunning
    have hmem : e ∈ es ++ [e] := List.mem_append_right _ List.mem_cons_self
    have hstep' := htimed.step (hclock.inside e hmem).1 (timedStep_of_stepSession hsteady hstep) hstopped
    exact hstep'.mono (hnow e hmem)

end run

end Invoker

namespace Controller

-- `wait_time` is what the durations of the reply leave of the time from the start to the end.
structure Accounted (record : ActivationRecord) (istats : InvocationStats) (endTime : Time) : Prop where
  fits :
    istats.exec.runTime.toNat + istats.exec.initTime.toNat
      ≤
    (millisecondsBetween record.start endTime).toNat
  annotations : ∀ uninit res,
    (completion uninit record istats res endTime).response.annotations
      =
    Controller.annotations
      (.ofNat ((millisecondsBetween record.start endTime).toNat
        - (istats.exec.runTime.toNat + istats.exec.initTime.toNat)))
      istats.exec.initTime

theorem sub_sub_eq_ofNat {total run init : UInt64} (h : run.toNat + init.toNat ≤ total.toNat) :
    total - run - init = .ofNat (total.toNat - (run.toNat + init.toNat)) := by
  have hrun : run ≤ total := by
    rw [UInt64.le_iff_toNat_le]
    omega
  have hinit : init ≤ total - run := by
    rw [UInt64.le_iff_toNat_le, UInt64.toNat_sub_of_le _ _ hrun]
    omega
  have hlt := total.toNat_lt
  rw [← UInt64.toNat_inj, UInt64.toNat_sub_of_le _ _ hinit, UInt64.toNat_sub_of_le _ _ hrun,
    UInt64.toNat_ofNat']
  omega

theorem accounted_iff {record : ActivationRecord} {istats : InvocationStats} {endTime : Time} :
    Accounted record istats endTime
      ↔
    istats.exec.runTime.toNat + istats.exec.initTime.toNat
      ≤
    (millisecondsBetween record.start endTime).toNat := by
  constructor
  . exact Accounted.fits
  . intro h
    refine ⟨h, ?_⟩
    intro uninit res
    simp only [completion, sub_sub_eq_ofNat h]

end Controller

namespace Invoker

open InvocationSession Controller
open Deployment (StartPath)

section reply

variable {cfg : SessionConfig} {build : Build} {promises : Promises} {path : StartPath}
  {i : Invocation} {srcPort : UInt16} {u t : InvocationSession} {env : Env} {e : SessionEvent}

-- what `processHotStart`, `processWarmStart` and `processColdStart` give to `runSession`
def startConfig (build : Build) (promises : Promises) (path : StartPath) (i : Invocation) :
    SessionConfig :=
  match path with
  | .hot | .warm => sessionConfig build promises i []
  | .cold => sessionConfig build promises i i.code

def startStats (path : StartPath) (i : Invocation) : InvocationStats :=
  match path with
  | .hot | .cold => i.info
  | .warm => warmStats i

def startMachine (build : Build) (promises : Promises) (path : StartPath) (i : Invocation)
    (srcPort : UInt16) : Machine InvocationSession (Env × SessionEvent) :=
  sessionMachine (startConfig build promises path i) srcPort (startStats path i)

/--
A reply to a `/run` that was sent, of a session that was not initialized without an `/init` and where the
marker of a warm start does not take the place of a time that the run has used up.
-/
structure Measured (path : StartPath) (start stop now : Time) (u : InvocationSession) : Prop where
  run : runPath ∈ u.requests
  init : u.isInitialized = true → u.requests.head? = some initPath
  marker : path = .warm → u.isInitialized = false →
    millisecondsBetween u.runStartTime now < millisecondsBetween start stop

theorem executed_of_reply {istats : InvocationStats} {ret : CString} (hsteady : Steady u)
    (hstep : stepSession cfg u (env, e) = some t) (hreply : t.replies = u.replies ++ [(istats, ret)]) :
    istats = { u.istats with exec.status := false, exec.runTime := u.getRuntime env.now } := by
  have hne : t.replies ≠ u.replies := by
    simp [hreply]
  cases timedStep_of_stepSession hsteady hstep with
  | untimed h => exact absurd h.replies hne
  | stopped _ replies => exact absurd replies hne
  | sent _ replies => exact absurd replies hne
  | initialized _ _ _ replies => exact absurd replies hne
  | executed response _ replies hstats =>
    rw [hreply, List.append_cancel_left_eq, List.singleton_inj, Prod.mk.injEq] at replies
    rw [replies.1, hstats]

theorem initTime_startStats (hexec : i.info.exec = .zero) :
    (startStats path i).exec.initTime = if path = .warm then 1 else 0 := by
  cases path with
  | hot | cold =>
    simp only [startStats, hexec, ExecStats.zero]
    rfl
  | warm => rfl

variable {marker : UInt64} {first last : Time}

theorem Timed.fits (h : Timed cfg marker first env.now u) (hlast : env.now ≤ last)
    (hinterval : last - first < 2 ^ 63) (hrun : runPath ∈ u.requests)
    (hinit : u.isInitialized = true → u.requests.head? = some initPath)
    (hmarker : u.isInitialized = false →
      (u.getRuntime env.now).toNat + marker.toNat ≤ (millisecondsBetween first last).toNat) :
    (u.getRuntime env.now).toNat + u.istats.exec.initTime.toNat
      ≤
    (millisecondsBetween first last).toNat := by
  cases hinitialized : u.isInitialized with
  | false =>
    rw [(h.unmeasured hinitialized).1]
    exact hmarker hinitialized
  | true =>
    rcases h.starts.run with ⟨_, _, hnow⟩ | ⟨hnot, _⟩
    . rcases h.measured hinitialized with ⟨_, start, stop, hinitTime, _, hle, hstarted⟩
      rcases hstarted with ⟨_, hfirst, hstart⟩ | ⟨hnot, _⟩
      . rw [hinitTime, Nat.add_comm]
        exact millisecondsBetween_add_le hfirst hstart hle hnow hlast hinterval
      . exact absurd (hinit hinitialized) hnot
    . exact absurd hrun hnot

theorem Timed.runTime_le (h : Timed cfg marker first env.now u) (hlast : env.now ≤ last)
    (hinterval : last - first < 2 ^ 63) (hrun : runPath ∈ u.requests) :
    (u.getRuntime env.now).toNat ≤ (millisecondsBetween first last).toNat := by
  rcases h.starts.run with ⟨_, hfirst, hnow⟩ | ⟨hnot, _⟩
  . exact millisecondsBetween_le hfirst hnow hlast hinterval
  . exact absurd hrun hnot

-- A duration from the epoch on is longer than the activation.
theorem Timed.started_of_fits (h : Timed cfg marker first env.now u) (hfirst : first ≤ env.now)
    (hlast : env.now ≤ last) (hpast : last - first + 1000000 ≤ first) (hlt : env.now < 2 ^ 63)
    (hfits : (u.getRuntime env.now).toNat + u.istats.exec.initTime.toNat
      ≤ (millisecondsBetween first last).toNat) :
    runPath ∈ u.requests ∧ (u.isInitialized = true → u.requests.head? = some initPath) := by
  have hepoch : ∀ now, first ≤ now → now ≤ env.now →
      (millisecondsBetween first last).toNat < (millisecondsBetween 0 now).toNat := by
    intro now hle hnow
    exact lt_millisecondsBetween_epoch (le_trans hpast hle) (le_trans hfirst hlast)
      (lt_of_le_of_lt hnow hlt)
  constructor
  . rcases h.starts.run with ⟨hrun, _⟩ | ⟨_, hzero⟩
    . exact hrun
    . have hlong := hepoch env.now hfirst (le_refl _)
      rw [getRuntime, hzero] at hfits
      omega
  . intro hinitialized
    rcases h.measured hinitialized with ⟨hrun, start, stop, hinitTime, hstop, hle, hstarted⟩
    rcases hstarted with ⟨hhead, _⟩ | ⟨_, hzero⟩
    . exact hhead
    . rcases h.starts.run with ⟨_, _, hnow⟩ | ⟨hnot, _⟩
      . have hlong := hepoch stop hstop (le_trans hle hnow)
        rw [hinitTime, hzero] at hfits
        omega
      . exact absurd hrun hnot

/--
The durations of a reply are those of parts of the activation, and what they leave of it is the wait time,
just if a request was sent for each of them and a warm start ran for less than the activation took. The
converse is about a clock of the invoker that has run for longer than the activation takes.
-/
theorem accounted_iff_measured {es : List (Env × SessionEvent)} {e : Env × SessionEvent}
    {istats : InvocationStats} {ret : CString} {record : ActivationRecord} {stop offset : Time}
    (hexec : i.info.exec = .zero)
    (hrun : (startMachine build promises path i srcPort).run es = some u)
    (hstep : (startMachine build promises path i srcPort).step u e = some t)
    (hreply : t.replies = u.replies ++ [(istats, ret)])
    (hclock : Clocked (record.start + offset) (stop + offset) (es ++ [e]))
    (hinterval : stop - record.start < 2 ^ 63) :
    (Measured path record.start stop e.1.now u → Accounted record istats stop)
      ∧ (stop - record.start + 1000000 ≤ record.start + offset → e.1.now < 2 ^ 63 →
        Accounted record istats stop → Measured path record.start stop e.1.now u) := by
  have hsteady := steady_of_reachable ⟨es, hrun⟩
  have hrunning : u.stopped = none := (stepSession_eq_some.mp hstep).1
  have hnow := hclock.inside e (List.mem_append_right _ List.mem_cons_self)
  have htimed := timed_of_run hrun hclock.append_left hclock.le_of_concat hrunning
  rw [initTime_startStats hexec] at htimed
  have hshift : (stop + offset) - (record.start + offset) = stop - record.start :=
    Int.add_sub_add_right _ _ _
  rw [← hshift] at hinterval
  have hiff : Accounted record istats stop ↔
      (u.getRuntime e.1.now).toNat + u.istats.exec.initTime.toNat
        ≤ (millisecondsBetween (record.start + offset) (stop + offset)).toNat := by
    rw [accounted_iff, executed_of_reply hsteady hstep hreply, millisecondsBetween_shift]
  have hone : (1 : UInt64).toNat = 1 := by decide
  rw [hiff]
  constructor
  . intro hmeasured
    apply htimed.fits hnow.2 hinterval hmeasured.run hmeasured.init
    intro hinitialized
    have hle := htimed.runTime_le hnow.2 hinterval hmeasured.run
    split
    . next hwarm =>
      have hlt := hmeasured.marker hwarm hinitialized
      rw [UInt64.lt_iff_toNat_lt] at hlt
      rw [hone, millisecondsBetween_shift]
      exact Nat.succ_le_of_lt hlt
    . exact hle
  . intro hpast hlt hfits
    rw [← hshift] at hpast
    have hstarted := htimed.started_of_fits hnow.1 hnow.2 hpast hlt hfits
    refine ⟨hstarted.1, hstarted.2, ?_⟩
    intro hwarm hinitialized
    rw [(htimed.unmeasured hinitialized).1, if_pos hwarm, hone, millisecondsBetween_shift] at hfits
    rw [UInt64.lt_iff_toNat_lt]
    exact Nat.lt_of_succ_le hfits

end reply

def exampleStart : Invocation where
  info := exampleStats
  code := "code".toList
  args := "\x7b\x7d".toList

def resultAt (now : Time) : Env × SessionEvent :=
  (⟨now, false⟩, .receive (okResponse "\x7b\"a\":1\x7d".toList))

def warmMachine : Machine InvocationSession (Env × SessionEvent) :=
  startMachine .release ⟨.throws, true⟩ .warm exampleStart 49160

theorem warmStart_opened : (warmMachine.run opening).isSome := by
  decide

theorem warmStart_executed :
    (warmMachine.step (Option.get _ warmStart_opened) (resultAt 4)).isSome := by
  decide

theorem clocked_warmStart {last : Time} (hlast : 4 ≤ last) :
    Clocked 0 last (opening ++ [resultAt 4]) := by
  constructor
  . decide
  . intro e he
    simp only [opening, resultAt, List.cons_append, List.nil_append, List.mem_cons,
      List.not_mem_nil, or_false] at he
    rcases he with rfl | rfl | rfl | rfl
    . exact ⟨by decide, le_trans (by decide) hlast⟩
    . exact ⟨by decide, le_trans (by decide) hlast⟩
    . exact ⟨by decide, le_trans (by decide) hlast⟩
    . exact ⟨by decide, hlast⟩

def exampleRecord : ActivationRecord where
  promise := 0
  am := Msg.testActivation "tid".toList "rev".toList
  start := 0

theorem accounted_iff_measured_warm :
    ∃ u t istats ret,
      warmMachine.run opening = some u
        ∧ warmMachine.step u (resultAt 4) = some t
        ∧ t.replies = u.replies ++ [(istats, ret)]
        ∧ Accounted exampleRecord istats 2000000 := by
  have hopen := (Option.some_get warmStart_opened).symm
  have hstep := (Option.some_get warmStart_executed).symm
  refine ⟨_, _, (Option.get _ warmStart_executed).istats, "\x7b\"a\":1\x7d".toList, hopen, hstep,
    by decide, ?_⟩
  have hreplies : (Option.get _ warmStart_executed).replies =
      (Option.get _ warmStart_opened).replies
        ++ [((Option.get _ warmStart_executed).istats, "\x7b\"a\":1\x7d".toList)] := by
    decide
  have hclock : Clocked (exampleRecord.start + 0) (2000000 + 0) (opening ++ [resultAt 4]) :=
    clocked_warmStart (by decide)
  apply (accounted_iff_measured rfl hopen hstep hreplies hclock (by decide)).1
  exact ⟨by decide, by decide, by decide⟩

-- The run and the activation take no whole millisecond, and the marker of the warm start takes one.
theorem warmStart_underflows :
    ∃ u t istats ret,
      warmMachine.run opening = some u
        ∧ warmMachine.step u (resultAt 4) = some t
        ∧ t.replies = u.replies ++ [(istats, ret)]
        ∧ Clocked 0 5 (opening ++ [resultAt 4])
        ∧ ¬ Accounted exampleRecord istats 5
        ∧ ∀ uninit res,
          (completion uninit exampleRecord istats res 5).response.annotations
            =
          annotations 18446744073709551615 1 := by
  have hopen := (Option.some_get warmStart_opened).symm
  have hstep := (Option.some_get warmStart_executed).symm
  refine ⟨_, _, (Option.get _ warmStart_executed).istats, "\x7b\"a\":1\x7d".toList, hopen, hstep,
    by decide, clocked_warmStart (by decide), ?_, ?_⟩
  . intro h
    exact absurd h.fits (by decide)
  . intro uninit res
    have hwait : millisecondsBetween exampleRecord.start 5
        - (Option.get _ warmStart_executed).istats.exec.runTime
        - (Option.get _ warmStart_executed).istats.exec.initTime = 18446744073709551615 := by
      decide
    have hinit : (Option.get _ warmStart_executed).istats.exec.initTime = 1 := by
      decide
    simp only [completion]
    rw [hwait, hinit]

end Invoker
end Seuss
