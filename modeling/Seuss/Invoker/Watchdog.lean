import Seuss.Invoker.SessionEvents

/-!
This module shows that the timer of a session watches over it from `Connect` until `Finish`.
-/

namespace Seuss

-- what a call does to a timer that is armed or not, `none` where it must not be made
def useTimer (armed : Bool) (e : Effect) : Option Bool :=
  match e with
  | .startTimer _ => if armed then none else some true
  | .stopTimer => if armed then some false else none
  | _ => some armed

def replayTimer (armed : Bool) (effects : List Effect) : Option Bool :=
  effects.foldlM useTimer armed

theorem replayTimer_append {armed armed' : Bool} {l l' : List Effect}
    (h : replayTimer armed l = some armed') :
    replayTimer armed (l ++ l') = replayTimer armed' l' := by
  unfold replayTimer at h ⊢
  rw [List.foldlM_append, h]
  rfl

theorem replayTimer_of_isSilent {armed : Bool} {l : List Effect} (h : ∀ e ∈ l, e.isSilent = true) :
    replayTimer armed l = some armed := by
  induction l with
  | nil => rfl
  | cons e l ih =>
    have hsilent := h e (List.mem_cons_self ..)
    have huse : useTimer armed e = some armed := by
      cases e <;> first | rfl | cases hsilent
    rw [replayTimer, List.foldlM_cons, huse]
    exact ih fun e he => h e (List.mem_cons_of_mem _ he)

namespace InvocationSession

variable {s t u : InvocationSession} {armed : Bool}

-- `t` comes from `s` by calls that the timer allows, where it is armed as `armed` says.
def TimedFrom (armed : Bool) (s t : InvocationSession) : Prop :=
  ∃ l, t.effects = s.effects ++ l ∧ replayTimer armed l = some t.hook.isSome

theorem TimedFrom.trans (h : TimedFrom armed s t) (h' : TimedFrom t.hook.isSome t u) :
    TimedFrom armed s u := by
  rcases h with ⟨l, hl, hreplay⟩
  rcases h' with ⟨l', hl', hreplay'⟩
  refine ⟨l ++ l', ?_, ?_⟩
  . rw [hl', hl, List.append_assoc]
  . rw [replayTimer_append hreplay]
    exact hreplay'

theorem timedFrom_of_eq (hhook : t.hook = s.hook) (heffects : t.effects = s.effects) :
    TimedFrom s.hook.isSome s t := by
  refine ⟨[], ?_, ?_⟩
  . rw [heffects, List.append_nil]
  . rw [hhook]
    rfl

theorem timedFrom_concat {e : Effect} (heffects : t.effects = s.effects ++ [e])
    (h : useTimer s.hook.isSome e = some t.hook.isSome) : TimedFrom s.hook.isSome s t := by
  refine ⟨[e], heffects, ?_⟩
  simp only [replayTimer, List.foldlM_cons, List.foldlM_nil, h]
  rfl

theorem Quiet.timedFrom (h : Quiet s t) : TimedFrom s.hook.isSome s t := by
  rcases h.effects with ⟨l, hl, hsilent⟩
  refine ⟨l, hl, ?_⟩
  rw [replayTimer_of_isSilent hsilent, h.hook]

theorem Quiet.mem_connect (h : Quiet s t) {p : UInt16} (hp : .connect p ∈ t.effects) :
    .connect p ∈ s.effects := by
  rcases h.effects with ⟨l, hl, hsilent⟩
  rw [hl, List.mem_append] at hp
  cases hp with
  | inl hp => exact hp
  | inr hp => cases hsilent _ hp

structure Armed (s : InvocationSession) : Prop where
  timerSet : s.timerSet = s.hook.isSome
  deadline : ∀ d, s.hook = some d → d = s.timeout ∧ s.timeout ≠ 0

theorem disableTimer_hook (h : Armed s) : s.disableTimer.hook = none := by
  unfold disableTimer stopTimer
  split
  . rfl
  . next hset =>
    rw [h.timerSet, Bool.not_eq_true, Option.isSome_eq_false_iff, Option.isNone_iff_eq_none] at hset
    exact hset

theorem armed_of_disarmed (hset : s.timerSet = false) (hhook : s.hook = none) : Armed s := by
  refine ⟨?_, ?_⟩
  . rw [hset, hhook]
    rfl
  . intro d hd
    rw [hhook] at hd
    cases hd

theorem armed_disableTimer (h : Armed s) : Armed s.disableTimer :=
  armed_of_disarmed rfl (disableTimer_hook h)

theorem timedFrom_disableTimer (h : Armed s) : TimedFrom s.hook.isSome s s.disableTimer := by
  have hhook := disableTimer_hook h
  cases hset : s.timerSet with
  | true =>
    apply timedFrom_concat (e := .stopTimer)
    . simp [disableTimer, stopTimer, hset, emit]
    . rw [← h.timerSet, hset, hhook]
      rfl
  | false =>
    apply timedFrom_of_eq
    . simp [disableTimer, stopTimer, hset]
    . simp [disableTimer, stopTimer, hset]

theorem enableTimer_eq {now duration : Int} (hset : s.timerSet = false) (hpos : 0 < duration)
    (hexact : Int.tdiv duration 1000 * 1000 = duration) :
    enableTimer now { s with timeout := now + duration }
      =
    emit (.startTimer (Int.tdiv duration 1000)) {
      s with
      timeout := now + duration
      hook := some (now + duration)
      timerSet := true
    } := by
  have hlt : ¬ now ≥ now + duration := by
    omega
  have hsub : now + duration - now = duration := by
    omega
  simp only [enableTimer, hset, hlt, Bool.false_eq_true, or_self, ↓reduceIte, hsub, hexact]

theorem disableTimer_timerSet (s : InvocationSession) : s.disableTimer.timerSet = false := by
  rfl

theorem armed_enableTimer {now duration : Int} (hset : s.timerSet = false) (hnow : 0 ≤ now)
    (hpos : 0 < duration) (hexact : Int.tdiv duration 1000 * 1000 = duration) :
    Armed (enableTimer now { s with timeout := now + duration })
      ∧ (enableTimer now { s with timeout := now + duration }).hook.isSome = true := by
  rw [enableTimer_eq hset hpos hexact]
  refine ⟨⟨rfl, ?_⟩, rfl⟩
  intro d hd
  cases hd
  refine ⟨rfl, ?_⟩
  have hne : now + duration ≠ 0 := by
    omega
  exact hne

theorem timedFrom_enableTimer {now duration : Int} (h : Armed s) (hhook : s.hook = none)
    (hpos : 0 < duration) (hexact : Int.tdiv duration 1000 * 1000 = duration) :
    TimedFrom s.hook.isSome s (enableTimer now { s with timeout := now + duration }) := by
  have hset : s.timerSet = false := by
    rw [h.timerSet, hhook]
    rfl
  rw [enableTimer_eq hset hpos hexact]
  apply timedFrom_concat (e := .startTimer (Int.tdiv duration 1000)) rfl
  rw [hhook]
  rfl

/--
What the watchdog rests on, besides what it is for.
-/
structure Sound (s : InvocationSession) : Prop where
  armed : Armed s
  unconnected : .connect ∈ s.spawned → s.hook = none ∧ s.connecting = false
  connectOnce : s.spawned.count .connect ≤ 1
  unfinished : ∀ sig, sig.ends = true → s.whenFinished = none → s.satisfied sig = false

def EndPending (s : InvocationSession) : Prop :=
  ∃ sig, Signal.ends sig = true ∧ .setValue sig ∈ s.spawned

structure Watched (s : InvocationSession) : Prop extends Sound s where
  watched : (∃ p, .connect p ∈ s.effects) → s.whenFinished = none →
    s.hook.isSome = true ∨ EndPending s

theorem EndPending.quiet (h : EndPending s) (hquiet : Quiet s t) : EndPending t := by
  rcases h with ⟨sig, hsig, hmem⟩
  exact ⟨sig, hsig, (hquiet.mem_spawned (by simp)).mpr hmem⟩

theorem Armed.congr (h : Armed s) (timerSet : t.timerSet = s.timerSet)
    (timeout : t.timeout = s.timeout) (hook : t.hook = s.hook) : Armed t := by
  refine ⟨?_, ?_⟩
  . rw [timerSet, hook]
    exact h.timerSet
  . rw [hook, timeout]
    exact h.deadline

theorem Sound.quiet (h : Sound s) (hquiet : Quiet s t) : Sound t := by
  refine ⟨?_, ?_, ?_, ?_⟩
  . exact h.armed.congr hquiet.timerSet hquiet.timeout hquiet.hook
  . rw [hquiet.mem_spawned (by simp), hquiet.hook, hquiet.connecting]
    exact h.unconnected
  . rw [hquiet.count_spawned (by simp)]
    exact h.connectOnce
  . rw [hquiet.whenFinished, hquiet.satisfied]
    exact h.unfinished

theorem Watched.quiet (h : Watched s) (hquiet : Quiet s t) : Watched t := by
  refine ⟨h.toSound.quiet hquiet, ?_⟩
  rintro ⟨p, hp⟩ hunfinished
  rw [hquiet.whenFinished] at hunfinished
  rw [hquiet.hook]
  exact (h.watched ⟨p, hquiet.mem_connect hp⟩ hunfinished).imp_right fun h => h.quiet hquiet

theorem watched_of_finished (h : Sound s) (hfinished : s.whenFinished ≠ none) : Watched s := by
  refine ⟨h, ?_⟩
  intro _ hunfinished
  exact absurd hunfinished hfinished

theorem Sound.unspawn (h : Sound s) (k : Nat) : Sound (s.unspawn k) := by
  refine ⟨h.armed.congr rfl rfl rfl, ?_, ?_, h.unfinished⟩
  . intro hmem
    exact h.unconnected (List.mem_of_mem_eraseIdx hmem)
  . exact Nat.le_trans ((List.eraseIdx_sublist _ _).count_le _) h.connectOnce

theorem Sound.mark (h : Sound s) {sig : Signal} (hsig : sig.ends = true → s.whenFinished ≠ none) :
    Sound (mark sig s) := by
  refine ⟨h.armed.congr rfl rfl rfl, h.unconnected, h.connectOnce, ?_⟩
  intro other hother hunfinished
  have hne : other ≠ sig := by
    rintro rfl
    exact hsig hother hunfinished
  rw [mark_satisfied_of_ne hne]
  exact h.unfinished other hother hunfinished

theorem timedFrom_mark {sig : Signal} : TimedFrom s.hook.isSome s (mark sig s) :=
  timedFrom_concat rfl rfl

theorem mem_connect_mark {sig : Signal} {p : UInt16} (hp : .connect p ∈ (mark sig s).effects) :
    .connect p ∈ s.effects := by
  simpa [mark] using hp

theorem Watched.mark (h : Watched s) {sig : Signal} (hsig : sig.ends = false) :
    Watched (mark sig s) := by
  refine ⟨h.toSound.mark (by simp [hsig]), ?_⟩
  rintro ⟨p, hp⟩
  exact h.watched ⟨p, mem_connect_mark hp⟩

theorem Sound.ended (h : Sound s) {sig : Signal} {status kept : Bool} :
    Sound (ended status kept (InvocationSession.mark sig s)) := by
  have hfields : (InvocationSession.mark sig s).disableTimer.spawned = s.spawned
      ∧ (InvocationSession.mark sig s).disableTimer.connecting = s.connecting := by
    unfold disableTimer stopTimer
    split <;> exact ⟨rfl, rfl⟩
  have harmed : Armed (InvocationSession.mark sig s) := h.armed.congr rfl rfl rfl
  refine ⟨(armed_disableTimer harmed).congr rfl rfl rfl, ?_, ?_, ?_⟩
  . simp only [InvocationSession.ended, emit, hfields]
    intro hmem
    exact ⟨disableTimer_hook harmed, (h.unconnected hmem).2⟩
  . simp only [InvocationSession.ended, emit, hfields]
    exact h.connectOnce
  . intro _ _ hunfinished
    cases hunfinished

theorem timedFrom_ended (h : Armed s) {status kept : Bool} :
    TimedFrom s.hook.isSome s (ended status kept s) := by
  apply (timedFrom_disableTimer h).trans
  exact timedFrom_concat rfl rfl

theorem Sound.ending (h : Sound s) {sig : Signal} {status : Bool} (hsig : sig.ends = true)
    (hending : Ending sig status s t) :
    Sound t ∧ t.whenFinished ≠ none ∧ TimedFrom s.hook.isSome s t := by
  cases hending with
  | again hsatisfied hquiet =>
    have hfinished : s.whenFinished ≠ none := by
      intro hunfinished
      rw [h.unfinished sig hsig hunfinished] at hsatisfied
      cases hsatisfied
    refine ⟨(h.mark fun _ => hfinished).quiet hquiet, ?_, timedFrom_mark.trans hquiet.timedFrom⟩
    rw [hquiet.whenFinished]
    exact hfinished
  | finished kept hkept hquiet =>
    have harmed : Armed (InvocationSession.mark sig s) := h.armed.congr rfl rfl rfl
    refine ⟨h.ended.quiet hquiet, ?_, ?_⟩
    . rw [hquiet.whenFinished]
      simp [InvocationSession.ended]
    . apply timedFrom_mark.trans
      exact (timedFrom_ended harmed).trans hquiet.timedFrom

-- a session whose timer is off and for which an end is spawned
theorem Sound.watched_of_disarmed (h : Sound s) (harmed : Armed t) (hhook : t.hook = none)
    (hconnecting : t.connecting = s.connecting) (hfinished : t.whenFinished = s.whenFinished)
    (hsatisfied : t.satisfied = s.satisfied) (sig : Signal) (hsig : sig.ends = true)
    (hspawned : t.spawned = s.spawned ++ [.setValue sig]) :
    Watched t := by
  refine ⟨⟨harmed, ?_, ?_, ?_⟩, ?_⟩
  . intro hmem
    rw [hspawned] at hmem
    rw [hconnecting]
    exact ⟨hhook, (h.unconnected (by simpa using hmem)).2⟩
  . rw [hspawned]
    simpa using h.connectOnce
  . rw [hfinished, hsatisfied]
    exact h.unfinished
  . intro _ _
    refine .inr ⟨sig, hsig, ?_⟩
    simp [hspawned]

theorem Sound.close (h : Sound s) : Watched s.close ∧ TimedFrom s.hook.isSome s s.close := by
  have hhook : s.close.hook = none := disableTimer_hook h.armed
  refine ⟨h.watched_of_disarmed (armed_of_disarmed rfl hhook) hhook timerOnly_disableTimer.connecting
    timerOnly_disableTimer.whenFinished timerOnly_disableTimer.satisfied .closed rfl ?_, ?_⟩
  . simp only [InvocationSession.close, spawn, emit, timerOnly_disableTimer.spawned]
  . apply (timedFrom_disableTimer h.armed).trans
    exact timedFrom_concat rfl rfl

theorem Sound.abort (h : Sound s) : Watched s.abort ∧ TimedFrom s.hook.isSome s s.abort := by
  have hhook : s.abort.hook = none := disableTimer_hook h.armed
  refine ⟨h.watched_of_disarmed (armed_of_disarmed rfl hhook) hhook timerOnly_disableTimer.connecting
    timerOnly_disableTimer.whenFinished timerOnly_disableTimer.satisfied .aborted rfl ?_, ?_⟩
  . simp only [InvocationSession.abort, spawn, timerOnly_disableTimer.spawned]
  . apply (timedFrom_disableTimer h.armed).trans
    exact timedFrom_of_eq rfl rfl

theorem Sound.fired (h : Sound s) {now deadline : Time} (hhook : s.hook = some deadline)
    (hdue : deadline ≤ now) :
    Watched (fire now { s with hook := none })
      ∧ TimedFrom false s (fire now { s with hook := none }) := by
  rcases h.armed.deadline deadline hhook with ⟨rfl, htimeout⟩
  have hfire : fire now { s with hook := none }
      =
    InvocationSession.abort { s with hook := none, timerSet := false, timeout := 0 } := by
    unfold fire
    exact if_pos ⟨htimeout, hdue⟩
  have hsound : Sound { s with hook := none, timerSet := false, timeout := 0 } := by
    refine ⟨armed_of_disarmed rfl rfl, ?_, h.connectOnce, h.unfinished⟩
    intro hmem
    exact ⟨rfl, (h.unconnected hmem).2⟩
  rw [hfire]
  exact hsound.abort

-- a session whose timer is on, after `Connect`
theorem Sound.watched_of_armed (h : Sound s) (harmed : Armed t) (hhook : t.hook.isSome = true)
    (hspawned : t.spawned.count .connect = 0) (hfinished : t.whenFinished = s.whenFinished)
    (hsatisfied : t.satisfied = s.satisfied) :
    Watched t := by
  refine ⟨⟨harmed, ?_, ?_, ?_⟩, ?_⟩
  . intro hmem
    exact absurd hmem (List.count_eq_zero.mp hspawned)
  . rw [hspawned]
    exact Nat.zero_le 1
  . rw [hfinished, hsatisfied]
    exact h.unfinished
  . intro _ _
    exact .inl hhook

theorem Sound.connected (h : Sound s) {now : Time} (hnow : 0 ≤ now)
    (hconnecting : s.connecting = true) :
    Watched (s.connected now) ∧ TimedFrom s.hook.isSome s (s.connected now) := by
  have harmed : Armed { s with isConnected := true, connecting := false } :=
    h.armed.congr rfl rfl rfl
  have hoff := disableTimer_hook harmed
  have hpos : (0 : Int) < 60 * 1000000000 := by
    decide
  have hexact : Int.tdiv (60 * 1000000000) 1000 * 1000 = 60 * 1000000000 := by
    decide
  rcases armed_enableTimer (disableTimer_timerSet { s with isConnected := true, connecting := false })
    hnow hpos hexact with ⟨hon, hhook⟩
  have hconnect : s.spawned.count .connect = 0 := by
    rw [List.count_eq_zero]
    intro hmem
    rw [(h.unconnected hmem).2] at hconnecting
    cases hconnecting
  refine ⟨h.watched_of_armed (hon.congr rfl rfl rfl) hhook ?_ ?_ ?_, ?_⟩
  . simp only [InvocationSession.connected, spawn, timerOnly_enableTimer.spawned,
      timerOnly_disableTimer.spawned]
    simpa using hconnect
  . simp only [InvocationSession.connected, spawn, timerOnly_enableTimer.whenFinished,
      timerOnly_disableTimer.whenFinished]
  . simp only [InvocationSession.connected, spawn, timerOnly_enableTimer.satisfied,
      timerOnly_disableTimer.satisfied]
  . apply (timedFrom_disableTimer harmed).trans
    exact timedFrom_enableTimer (armed_disableTimer harmed) hoff hpos hexact

theorem Watched.unspawn (h : Watched s) {k : Nat} {e : Spawned} (hget : s.spawned[k]? = some e)
    (he : e.closes = false) :
    Watched (s.unspawn k) := by
  refine ⟨h.toSound.unspawn k, ?_⟩
  intro hconnect hunfinished
  rcases h.watched hconnect hunfinished with hhook | ⟨sig, hsig, hmem⟩
  . exact .inl hhook
  . refine .inr ⟨sig, hsig, (Pool.mem_take_of_ne hget ?_).mpr hmem⟩
    rintro rfl
    rw [Spawned.closes_setValue, hsig] at he
    cases he

theorem Watched.connect (h : Watched s) {now : Time} (hnow : 0 ≤ now) {k : Nat}
    (hget : s.spawned[k]? = some .connect) :
    Watched (connect now (s.unspawn k)).settle
      ∧ TimedFrom s.hook.isSome s (connect now (s.unspawn k)).settle := by
  have hstopped : ∀ stop, Watched (Outcome.threw stop (s.unspawn k)).settle
      ∧ TimedFrom s.hook.isSome s (Outcome.threw stop (s.unspawn k)).settle := by
    intro stop
    refine ⟨(h.unspawn hget rfl).quiet ?_, timedFrom_of_eq rfl rfl⟩
    apply quiet_of_eq <;> rfl
  unfold InvocationSession.connect
  split
  . exact hstopped .kbugon
  . split
    . exact hstopped .kbugon
    . have hoff := (h.unconnected (List.mem_of_getElem? hget)).1
      have hset : s.timerSet = false := by
        rw [h.armed.timerSet, hoff]
        rfl
      have hpos : (0 : Int) < 5000 * 1000000 := by
        decide
      have hexact : Int.tdiv (5000 * 1000000) 1000 * 1000 = 5000 * 1000000 := by
        decide
      have hconnect : (s.unspawn k).spawned.count .connect = 0 := by
        have htake := Pool.count_take id hget .connect
        have honce := h.connectOnce
        simp only [List.map_id, id_eq, ↓reduceIte] at htake
        simp only [InvocationSession.unspawn]
        omega
      have hstart : Armed (emit (.connect s.srcPort) { s.unspawn k with connecting := true }) :=
        h.armed.congr rfl rfl rfl
      rcases armed_enableTimer (s := emit (.connect s.srcPort) { s.unspawn k with connecting := true })
        hset hnow hpos hexact with ⟨hon, hhook⟩
      refine ⟨(h.toSound.unspawn k).watched_of_armed hon hhook ?_ ?_ ?_, ?_⟩
      . rw [Outcome.settle, timerOnly_enableTimer.spawned]
        exact hconnect
      . rw [Outcome.settle, timerOnly_enableTimer.whenFinished]
        rfl
      . rw [Outcome.settle, timerOnly_enableTimer.satisfied]
        rfl
      . refine TimedFrom.trans ?_ (timedFrom_enableTimer hstart hoff hpos hexact)
        exact timedFrom_concat rfl rfl

theorem Watched.answered (h : Watched s) (response : CString) :
    Watched (answered response s) ∧ TimedFrom s.hook.isSome s (answered response s) := by
  unfold InvocationSession.answered
  split
  . have hinit : Watched { s with isInitialized := true } :=
      ⟨⟨h.armed.congr rfl rfl rfl, h.unconnected, h.connectOnce, h.unfinished⟩, h.watched⟩
    refine ⟨hinit.mark rfl, ?_⟩
    exact (timedFrom_of_eq rfl rfl).trans timedFrom_mark
  . have hreply : Watched { s with reply := response } :=
      ⟨⟨h.armed.congr rfl rfl rfl, h.unconnected, h.connectOnce, h.unfinished⟩, h.watched⟩
    refine ⟨hreply.mark rfl, ?_⟩
    exact (timedFrom_of_eq rfl rfl).trans timedFrom_mark

end InvocationSession

namespace Invoker

open InvocationSession

variable {cfg : SessionConfig} {s t : InvocationSession} {env : Env} {e : SessionEvent}

-- the hook in `ebbrt::timer` as the event finds it: `Fire` runs when it has gone off
def armedAt (s : InvocationSession) (e : SessionEvent) : Bool :=
  match e with
  | .fire => false
  | _ => s.hook.isSome

theorem watched_of_happens (h : Watched s) (hnow : 0 ≤ env.now) (hstep : Happens cfg env s t e) :
    Watched t ∧ TimedFrom (armedAt s e) s t := by
  cases hstep with
  | connected hconnecting ht =>
    subst ht
    exact h.toSound.connected hnow hconnecting
  | close ht =>
    subst ht
    exact h.toSound.close
  | abort ht =>
    subst ht
    exact h.toSound.abort
  | fire deadline hhook hdue ht =>
    subst ht
    exact h.toSound.fired hhook hdue
  | rejected b hquiet => exact ⟨h.quiet hquiet, hquiet.timedFrom⟩
  | received b response hchained hresponse hstatus hquiet =>
    rcases h.answered response with ⟨hwatched, htimed⟩
    exact ⟨hwatched.quiet hquiet, htimed.trans hquiet.timedFrom⟩
  | failed b response u hchained hresponse hstatus hending hrest =>
    have hreply : Sound { s with reply := response } :=
      ⟨h.armed.congr rfl rfl rfl, h.unconnected, h.connectOnce, h.unfinished⟩
    rcases hreply.ending rfl hending with ⟨hsound, hfinished, htimed⟩
    have hwatched := watched_of_finished hsound hfinished
    cases hrest with
    | inl ht =>
      subst ht
      exact ⟨hwatched, htimed⟩
    | inr hquiet =>
      rcases hwatched.answered response with ⟨hanswered, hanswer⟩
      exact ⟨hanswered.quiet hquiet, htimed.trans (hanswer.trans hquiet.timedFrom)⟩
  | connect k hget ht =>
    subst ht
    exact h.connect hnow hget
  | opened k sig hget hsig hquiet =>
    have hunspawn := h.unspawn hget (by rw [Spawned.closes_setValue, hsig])
    refine ⟨(hunspawn.mark hsig).quiet hquiet, ?_⟩
    exact (timedFrom_of_eq rfl rfl).trans (timedFrom_mark.trans hquiet.timedFrom)
  | ended k sig hget hsig hending =>
    rcases (h.toSound.unspawn k).ending hsig hending with ⟨hsound, hfinished, htimed⟩
    exact ⟨watched_of_finished hsound hfinished, htimed⟩
  | halted k hget hquiet => exact ⟨h.quiet hquiet, hquiet.timedFrom⟩

-- `ebbrt::clock::Wall` counts from the epoch.
def FromEpoch (_s : InvocationSession) (e : Env × SessionEvent) : Prop :=
  0 ≤ e.1.now

instance (s : InvocationSession) (e : Env × SessionEvent) : Decidable (FromEpoch s e) := by
  unfold FromEpoch
  infer_instance

theorem watched_of_reachable {srcPort : UInt16} {istats : InvocationStats}
    (h : ((sessionMachine cfg srcPort istats).restrict FromEpoch).Reachable s) :
    Watched s := by
  refine h.invariant (P := Watched) ?_ ?_
  . refine ⟨⟨armed_of_disarmed rfl rfl, fun _ => ⟨rfl, rfl⟩, Nat.le_refl 1, fun _ _ _ => rfl⟩, ?_⟩
    rintro ⟨p, hp⟩
    cases hp
  . intro s e t _ hwatched hstep
    rcases Machine.restrict_step.mp hstep with ⟨hnow, hstep⟩
    exact (watched_of_happens hwatched hnow (happens_of_stepSession hstep)).1

structure Watchdog (cfg : SessionConfig) (s : InvocationSession) : Prop where
  timerSet_iff : s.timerSet = true ↔ ∃ deadline, s.hook = some deadline
  timer : ∀ env e t, 0 ≤ env.now → stepSession cfg s (env, e) = some t →
    replayTimer (armedAt s e) (effectsSince s t) = some t.hook.isSome
  watched : (∃ p, .connect p ∈ s.effects) → s.whenFinished = none →
    (s.timerSet = true ∧ (∃ deadline, s.hook = some deadline) ∧ s.timeout ≠ 0)
      ∨ .setValue .closed ∈ s.spawned ∨ .setValue .aborted ∈ s.spawned
  ends : ∀ k sig env t, sig = .closed ∨ sig = .aborted → s.spawned[k]? = some (.setValue sig) →
    stepSession cfg s (env, .spawned k) = some t → t.whenFinished ≠ none

theorem finishes_of_watched (h : Watched s) {k : Nat} {sig : Signal} (hsig : sig.ends = true)
    (hget : s.spawned[k]? = some (.setValue sig))
    (hstep : stepSession cfg s (env, .spawned k) = some t) :
    t.whenFinished ≠ none := by
  have hending : Ending sig (endStatus sig) (s.unspawn k) t := by
    rw [stepSession_eq_some] at hstep
    rcases hstep with ⟨_, o, ho, rfl⟩
    simp only [runSessionEvent, hget, Option.map_some, Option.some.injEq] at ho
    subst ho
    exact ending_setValue_of_ends hsig
  exact ((h.toSound.unspawn k).ending hsig hending).2.1

/--
The timer is used as it must be, and a session that was connected and has not finished is watched by
it or about to finish.
-/
theorem watchdog_of_reachable {srcPort : UInt16} {istats : InvocationStats}
    (h : ((sessionMachine cfg srcPort istats).restrict FromEpoch).Reachable s) :
    Watchdog cfg s := by
  have hwatched := watched_of_reachable h
  refine ⟨?_, ?_, ?_, ?_⟩
  . rw [hwatched.armed.timerSet, Option.isSome_iff_exists]
  . intro env e t hnow hstep
    rcases (watched_of_happens hwatched hnow (happens_of_stepSession hstep)).2 with
      ⟨l, hl, hreplay⟩
    rw [effectsSince_append hl]
    exact hreplay
  . intro hconnect hunfinished
    rcases hwatched.watched hconnect hunfinished with hhook | ⟨sig, hsig, hmem⟩
    . rcases Option.isSome_iff_exists.mp hhook with ⟨deadline, hdeadline⟩
      refine .inl ⟨?_, ⟨deadline, hdeadline⟩, (hwatched.armed.deadline deadline hdeadline).2⟩
      rw [hwatched.armed.timerSet]
      exact hhook
    . cases sig with
      | closed => exact .inr (.inl hmem)
      | aborted => exact .inr (.inr hmem)
      | connected | executed | initialized => cases hsig
  . rintro k sig env t (rfl | rfl) hget hstep
    . exact finishes_of_watched hwatched rfl hget hstep
    . exact finishes_of_watched hwatched rfl hget hstep

def watchedConfig : SessionConfig :=
  exampleConfig { second := .throws, captures := true } []

theorem opening_fromEpoch :
    (((sessionMachine watchedConfig 49160 exampleStats).restrict FromEpoch).run
      opening).isSome := by
  decide

theorem watchdog_of_reachable_opening :
    ∃ s, ((sessionMachine watchedConfig 49160 exampleStats).restrict FromEpoch).run opening = some s
      ∧ (s.timerSet, s.timeout) = (true, 60000000002)
      ∧ Watchdog watchedConfig s := by
  have hrun := (Option.some_get opening_fromEpoch).symm
  exact ⟨_, hrun, by decide, watchdog_of_reachable ⟨_, hrun⟩⟩

end Invoker
end Seuss
