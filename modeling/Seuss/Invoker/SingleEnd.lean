import Seuss.Invoker.SessionEvents

/-!
This module contains the runs of a session in which at most one of the callbacks of the connection,
the timer and a failed response starts to end it, and what is set and finished in them.
-/

namespace Seuss

def Effect.signal? (e : Effect) : Option Signal :=
  match e with
  | .setValue sig => some sig
  | _ => none

def Effect.finish? (e : Effect) : Option Bool :=
  match e with
  | .finish status => some status
  | _ => none

namespace InvocationSession

variable {s t u : InvocationSession}

def signals (s : InvocationSession) : List Signal :=
  s.effects.filterMap Effect.signal?

def finishes (s : InvocationSession) : List Bool :=
  s.effects.filterMap Effect.finish?

-- settings of `when_closed_` and `when_aborted_` that are spawned, and those that were made
def pendingEnds (s : InvocationSession) : Nat :=
  s.spawned.count (.setValue .closed) + s.spawned.count (.setValue .aborted)

def endings (s : InvocationSession) : Nat :=
  s.signals.count .closed + s.signals.count .aborted

def connections (s : InvocationSession) : Nat :=
  s.spawned.count .connect + (if s.connecting then 1 else 0)
    + s.spawned.count (.setValue .connected) + s.signals.count .connected

structure Tally (s : InvocationSession) : Prop where
  ends : s.pendingEnds + s.endings ≤ 1
  finishes : s.finishes.length = s.endings
  whenFinished : s.whenFinished = none ↔ s.endings = 0
  signals : ∀ sig, s.signals.count sig = if s.satisfied sig then 1 else 0
  connections : s.connections ≤ 1
  spawned : ∀ sig, s.spawned.count (.setValue sig) = 0 ∨ sig = .connected ∨ sig.ends = true

structure SameTally (s t : InvocationSession) : Prop where
  signals : t.signals = s.signals
  finishes : t.finishes = s.finishes
  whenFinished : t.whenFinished = s.whenFinished
  satisfied : t.satisfied = s.satisfied
  connecting : t.connecting = s.connecting
  spawned : ∀ e, e ≠ .signalHalt → t.spawned.count e = s.spawned.count e

theorem SameTally.endings (h : SameTally s t) : t.endings = s.endings := by
  rw [InvocationSession.endings, h.signals, InvocationSession.endings]

theorem SameTally.pendingEnds (h : SameTally s t) : t.pendingEnds = s.pendingEnds := by
  rw [InvocationSession.pendingEnds, h.spawned _ (by simp), h.spawned _ (by simp),
    InvocationSession.pendingEnds]

theorem SameTally.connections (h : SameTally s t) : t.connections = s.connections := by
  rw [InvocationSession.connections, h.signals, h.connecting, h.spawned _ (by simp),
    h.spawned _ (by simp), InvocationSession.connections]

theorem Tally.congr (h : Tally s) (hsame : SameTally s t) : Tally t := by
  refine ⟨?_, ?_, ?_, ?_, ?_, ?_⟩
  . rw [hsame.pendingEnds, hsame.endings]
    exact h.ends
  . rw [hsame.finishes, hsame.endings]
    exact h.finishes
  . rw [hsame.whenFinished, hsame.endings]
    exact h.whenFinished
  . rw [hsame.signals, hsame.satisfied]
    exact h.signals
  . rw [hsame.connections]
    exact h.connections
  . intro sig
    rw [hsame.spawned _ (by simp)]
    exact h.spawned sig

theorem sameTally_of_effects {l : List Effect} (heffects : t.effects = s.effects ++ l)
    (hl : ∀ e ∈ l, e.signal? = none ∧ e.finish? = none) :
    t.signals = s.signals ∧ t.finishes = s.finishes := by
  have hsignals : l.filterMap Effect.signal? = [] := by
    rw [List.filterMap_eq_nil_iff]
    exact fun e he => (hl e he).1
  have hfinishes : l.filterMap Effect.finish? = [] := by
    rw [List.filterMap_eq_nil_iff]
    exact fun e he => (hl e he).2
  simp only [InvocationSession.signals, InvocationSession.finishes, heffects, List.filterMap_append,
    hsignals, hfinishes, List.append_nil, and_self]

theorem Quiet.sameTally (h : Quiet s t) : SameTally s t := by
  rcases h.effects with ⟨l, hl, hsilent⟩
  have hnone : ∀ e ∈ l, e.signal? = none ∧ e.finish? = none := by
    intro e he
    have hsilent := hsilent e he
    cases e <;> first | exact ⟨rfl, rfl⟩ | cases hsilent
  rcases sameTally_of_effects hl hnone with ⟨hsignals, hfinishes⟩
  exact ⟨hsignals, hfinishes, h.whenFinished, h.satisfied, h.connecting,
    fun e he => h.count_spawned he⟩

theorem TimerOnly.sameTally (h : TimerOnly s t) : SameTally s t := by
  rcases h.effects with ⟨l, hl, htimer⟩
  have hnone : ∀ e ∈ l, e.signal? = none ∧ e.finish? = none := by
    intro e he
    rcases htimer e he with ⟨duration, rfl⟩ | rfl
    . exact ⟨rfl, rfl⟩
    . exact ⟨rfl, rfl⟩
  rcases sameTally_of_effects hl hnone with ⟨hsignals, hfinishes⟩
  refine ⟨hsignals, hfinishes, h.whenFinished, h.satisfied, h.connecting, ?_⟩
  intro e _
  rw [h.spawned]

theorem signals_mark {sig : Signal} : (mark sig s).signals = s.signals ++ [sig] := by
  simp [InvocationSession.signals, mark, Effect.signal?]

theorem finishes_mark {sig : Signal} : (mark sig s).finishes = s.finishes := by
  simp [InvocationSession.finishes, mark, Effect.finish?]

theorem count_signals_mark (h : ∀ sig, s.signals.count sig = if s.satisfied sig then 1 else 0)
    {sig : Signal} (hsig : s.satisfied sig = false) (other : Signal) :
    (mark sig s).signals.count other = if (mark sig s).satisfied other then 1 else 0 := by
  rw [signals_mark, List.count_append]
  by_cases heq : other = sig
  . subst heq
    rw [mark_satisfied_self, h other, hsig]
    simp
  . rw [mark_satisfied_of_ne heq, ← h other]
    simp [Ne.symm heq]

theorem Tally.satisfied_of_count (h : Tally s) {sig : Signal} (hcount : s.signals.count sig = 0) :
    s.satisfied sig = false := by
  have hsig := h.signals sig
  rw [hcount] at hsig
  by_contra hsatisfied
  rw [Bool.not_eq_false] at hsatisfied
  simp [hsatisfied] at hsig

theorem count_signals_mark_ne {sig other : Signal} (hne : sig ≠ other) :
    (mark sig s).signals.count other = s.signals.count other := by
  rw [signals_mark, List.count_append]
  simp [hne]

theorem Tally.mark (h : Tally s) {sig : Signal} (hends : sig.ends = false)
    (hsig : s.satisfied sig = false) (hconnections : (mark sig s).connections ≤ 1) :
    Tally (mark sig s) := by
  have hclosed : sig ≠ .closed := by
    rintro rfl
    cases hends
  have haborted : sig ≠ .aborted := by
    rintro rfl
    cases hends
  have hendings : (InvocationSession.mark sig s).endings = s.endings := by
    rw [endings, count_signals_mark_ne hclosed, count_signals_mark_ne haborted, endings]
  refine ⟨?_, ?_, ?_, count_signals_mark h.signals hsig, hconnections, h.spawned⟩
  . rw [hendings]
    exact h.ends
  . rw [hendings, finishes_mark]
    exact h.finishes
  . rw [hendings]
    exact h.whenFinished

theorem Tally.mark_of_ne_connected (h : Tally s) {sig : Signal} (hends : sig.ends = false)
    (hsig : s.satisfied sig = false) (hconnected : sig ≠ .connected) :
    Tally (InvocationSession.mark sig s) := by
  apply h.mark hends hsig
  rw [InvocationSession.connections, count_signals_mark_ne hconnected]
  exact h.connections

theorem Tally.unspawn (h : Tally s) (k : Nat) : Tally (s.unspawn k) := by
  have hle : ∀ e, (s.unspawn k).spawned.count e ≤ s.spawned.count e :=
    fun e => (List.eraseIdx_sublist _ _).count_le _
  refine ⟨?_, h.finishes, h.whenFinished, h.signals, ?_, ?_⟩
  . have hclosed := hle (.setValue .closed)
    have haborted := hle (.setValue .aborted)
    have hends := h.ends
    have hendings : (s.unspawn k).endings = s.endings := rfl
    simp only [pendingEnds, hendings] at hends ⊢
    omega
  . have hconnect := hle .connect
    have hconnected := hle (.setValue .connected)
    have hconnections := h.connections
    have hsignals : (s.unspawn k).signals = s.signals := rfl
    have hconnecting : (s.unspawn k).connecting = s.connecting := rfl
    simp only [InvocationSession.connections, hsignals, hconnecting] at hconnections ⊢
    omega
  . intro sig
    refine (h.spawned sig).imp_left fun hzero => ?_
    exact Nat.eq_zero_of_le_zero (hzero ▸ hle (.setValue sig))

-- what the session after `Finish` has, over the one before
theorem sameTally_ended (status kept : Bool) (s : InvocationSession) :
    (ended status kept s).signals = s.signals
      ∧ (ended status kept s).finishes = s.finishes ++ [status]
      ∧ (ended status kept s).satisfied = s.satisfied
      ∧ (ended status kept s).connecting = s.connecting
      ∧ (ended status kept s).spawned = s.spawned := by
  have htimer : TimerOnly s s.disableTimer := timerOnly_disableTimer
  have hsame := htimer.sameTally
  refine ⟨?_, ?_, htimer.satisfied, htimer.connecting, htimer.spawned⟩
  . rw [← hsame.signals]
    simp [InvocationSession.signals, ended, emit, Effect.signal?]
  . rw [← hsame.finishes]
    simp [InvocationSession.finishes, ended, emit, Effect.finish?]

theorem endings_mark {sig : Signal} (hends : sig.ends = true) :
    (mark sig s).endings = s.endings + 1 := by
  rw [endings, endings, signals_mark, List.count_append, List.count_append]
  cases sig with
  | closed => simp; omega
  | aborted => simp; omega
  | connected | executed | initialized => cases hends

theorem Tally.ended (h : Tally s) {sig : Signal} (hends : sig.ends = true)
    (hpending : s.pendingEnds = 0) (hendings : s.endings = 0) (status kept : Bool) :
    Tally (ended status kept (InvocationSession.mark sig s)) := by
  rcases sameTally_ended status kept (InvocationSession.mark sig s) with
    ⟨hsignals, hfinishes, hsatisfied, hconnecting, hspawned⟩
  have hone : (InvocationSession.ended status kept (InvocationSession.mark sig s)).endings = 1 := by
    have hmark := endings_mark (s := s) hends
    rw [endings] at hmark ⊢
    rw [hsignals, hmark, hendings]
  have hsig : s.satisfied sig = false := by
    apply h.satisfied_of_count
    cases sig with
    | closed => exact Nat.eq_zero_of_add_eq_zero_right hendings
    | aborted => exact Nat.eq_zero_of_add_eq_zero_left hendings
    | connected | executed | initialized => cases hends
  refine ⟨?_, ?_, ?_, ?_, ?_, ?_⟩
  . rw [hone, pendingEnds, hspawned]
    rw [pendingEnds] at hpending
    exact Nat.le_of_eq (congrArg (· + 1) hpending)
  . rw [hone, hfinishes, finishes_mark, List.length_append, h.finishes, hendings]
    rfl
  . rw [hone]
    simp [InvocationSession.ended]
  . rw [hsignals, hsatisfied]
    exact count_signals_mark h.signals hsig
  . have hne : sig ≠ .connected := by
      rintro rfl
      cases hends
    rw [InvocationSession.connections, hsignals, hconnecting, hspawned, count_signals_mark_ne hne]
    exact h.connections
  . rw [hspawned]
    exact h.spawned

theorem SameTally.trans (h : SameTally s t) (h' : SameTally t u) : SameTally s u := by
  refine ⟨?_, ?_, ?_, ?_, ?_, ?_⟩
  . rw [h'.signals, h.signals]
  . rw [h'.finishes, h.finishes]
  . rw [h'.whenFinished, h.whenFinished]
  . rw [h'.satisfied, h.satisfied]
  . rw [h'.connecting, h.connecting]
  . intro e he
    rw [h'.spawned e he, h.spawned e he]

theorem sameTally_of_eq (effects : t.effects = s.effects) (whenFinished : t.whenFinished = s.whenFinished)
    (satisfied : t.satisfied = s.satisfied) (connecting : t.connecting = s.connecting)
    (spawned : t.spawned = s.spawned) :
    SameTally s t := by
  refine ⟨?_, ?_, whenFinished, satisfied, connecting, ?_⟩
  . rw [InvocationSession.signals, effects, InvocationSession.signals]
  . rw [InvocationSession.finishes, effects, InvocationSession.finishes]
  . intro e _
    rw [spawned]

theorem connections_spawn (e : Spawned) (s : InvocationSession) :
    (spawn e s).connections
      =
    s.connections + ([e].count .connect + [e].count (.setValue .connected)) := by
  change (s.spawned ++ [e]).count .connect + (if s.connecting then 1 else 0)
    + (s.spawned ++ [e]).count (.setValue .connected) + s.signals.count .connected = _
  rw [List.count_append, List.count_append, InvocationSession.connections]
  omega

theorem pendingEnds_spawn (e : Spawned) (s : InvocationSession) :
    (spawn e s).pendingEnds
      =
    s.pendingEnds + ([e].count (.setValue .closed) + [e].count (.setValue .aborted)) := by
  change (s.spawned ++ [e]).count (.setValue .closed)
    + (s.spawned ++ [e]).count (.setValue .aborted) = _
  rw [List.count_append, List.count_append, InvocationSession.pendingEnds]
  omega

theorem connections_unspawn {k : Nat} {e : Spawned} (hget : s.spawned[k]? = some e) :
    s.connections
      =
    (s.unspawn k).connections + ([e].count .connect + [e].count (.setValue .connected)) := by
  have hconnect := Pool.count_take id hget .connect
  have hconnected := Pool.count_take id hget (.setValue .connected)
  simp only [List.map_id, id_eq] at hconnect hconnected
  rw [InvocationSession.connections, hconnect, hconnected]
  change _ = (s.spawned.eraseIdx k).count .connect + (if s.connecting then 1 else 0)
    + (s.spawned.eraseIdx k).count (.setValue .connected) + s.signals.count .connected + _
  simp only [List.count_singleton, beq_iff_eq]
  omega

theorem pendingEnds_unspawn {k : Nat} {e : Spawned} (hget : s.spawned[k]? = some e) :
    s.pendingEnds
      =
    (s.unspawn k).pendingEnds
      + ([e].count (.setValue .closed) + [e].count (.setValue .aborted)) := by
  have hclosed := Pool.count_take id hget (.setValue .closed)
  have haborted := Pool.count_take id hget (.setValue .aborted)
  simp only [List.map_id, id_eq] at hclosed haborted
  rw [InvocationSession.pendingEnds, hclosed, haborted]
  change _ = (s.spawned.eraseIdx k).count (.setValue .closed)
    + (s.spawned.eraseIdx k).count (.setValue .aborted) + _
  simp only [List.count_singleton, beq_iff_eq]
  omega

theorem connections_mark : (mark .connected s).connections = s.connections + 1 := by
  have hsignals : (mark .connected s).signals = s.signals ++ [.connected] := signals_mark
  change s.spawned.count .connect + (if s.connecting then 1 else 0)
    + s.spawned.count (.setValue .connected) + (mark .connected s).signals.count .connected = _
  rw [hsignals, List.count_append, InvocationSession.connections, List.count_singleton_self]
  omega

-- a connection that is being established counts
theorem connections_connecting (h : s.connecting = true) (isConnected : Bool) :
    s.connections
      =
    InvocationSession.connections { s with isConnected := isConnected, connecting := false } + 1 := by
  change _ = s.spawned.count .connect + 0 + s.spawned.count (.setValue .connected)
    + s.signals.count .connected + 1
  rw [InvocationSession.connections, if_pos h]
  omega

theorem Tally.spawn (h : Tally s) {sig : Signal} (hsig : sig = .connected ∨ sig.ends = true)
    (hends : (spawn (.setValue sig) s).pendingEnds + s.endings ≤ 1)
    (hconnections : (spawn (.setValue sig) s).connections ≤ 1) :
    Tally (spawn (.setValue sig) s) := by
  refine ⟨hends, h.finishes, h.whenFinished, h.signals, hconnections, ?_⟩
  intro other
  by_cases heq : other = sig
  . rw [heq]
    exact .inr hsig
  . refine (h.spawned other).imp_left fun hzero => ?_
    simp [InvocationSession.spawn, hzero, Ne.symm heq]

theorem Tally.spawn_end (h : Tally s) {sig : Signal} (hends : sig.ends = true)
    (hpending : s.pendingEnds = 0) (hendings : s.endings = 0) :
    Tally (InvocationSession.spawn (.setValue sig) s) := by
  apply h.spawn (.inr hends)
  . rw [pendingEnds_spawn, hpending, hendings]
    cases sig with
    | closed | aborted => decide
    | connected | executed | initialized => cases hends
  . rw [connections_spawn]
    cases sig with
    | closed | aborted => exact h.connections
    | connected | executed | initialized => cases hends

theorem Tally.close (h : Tally s) (hpending : s.pendingEnds = 0) (hendings : s.endings = 0) :
    Tally s.close := by
  have hsame : SameTally s (emit .disconnect { disableTimer s with isConnected := false }) := by
    have htimer : TimerOnly s s.disableTimer := timerOnly_disableTimer
    apply htimer.sameTally.trans
    apply SameTally.trans _ (quiet_emit rfl).sameTally
    apply sameTally_of_eq <;> rfl
  apply (h.congr hsame).spawn_end rfl
  . rw [hsame.pendingEnds, hpending]
  . rw [hsame.endings, hendings]

theorem Tally.abort (h : Tally s) (hpending : s.pendingEnds = 0) (hendings : s.endings = 0) :
    Tally s.abort := by
  have hsame : SameTally s { disableTimer s with isConnected := false } := by
    have htimer : TimerOnly s s.disableTimer := timerOnly_disableTimer
    apply htimer.sameTally.trans
    apply sameTally_of_eq <;> rfl
  apply (h.congr hsame).spawn_end rfl
  . rw [hsame.pendingEnds, hpending]
  . rw [hsame.endings, hendings]

theorem Tally.connected (h : Tally s) (hconnecting : s.connecting = true) (now : Time) :
    Tally (s.connected now) := by
  have hconnections := h.connections
  rw [connections_connecting hconnecting true] at hconnections
  have hless : Tally { s with isConnected := true, connecting := false } :=
    ⟨h.ends, h.finishes, h.whenFinished, h.signals, Nat.le_of_succ_le hconnections, h.spawned⟩
  have hsame : SameTally { s with isConnected := true, connecting := false }
      (enableTimer now {
        disableTimer { s with isConnected := true, connecting := false } with
        timeout := now + 60 * 1000000000
      }) := by
    have hoff : TimerOnly { s with isConnected := true, connecting := false } _ :=
      timerOnly_disableTimer
    apply hoff.sameTally.trans
    apply SameTally.trans _ timerOnly_enableTimer.sameTally
    apply sameTally_of_eq <;> rfl
  apply (hless.congr hsame).spawn (.inl rfl)
  . rw [pendingEnds_spawn, hsame.pendingEnds, hsame.endings]
    exact h.ends
  . rw [connections_spawn, hsame.connections]
    exact hconnections

theorem Tally.connect (h : Tally s) {k : Nat} (hget : s.spawned[k]? = some .connect) (now : Time) :
    Tally (connect now (s.unspawn k)).settle := by
  have hless := h.unspawn k
  have hstopped : SameTally (s.unspawn k) (Outcome.threw .kbugon (s.unspawn k)).settle := by
    apply sameTally_of_eq <;> rfl
  unfold InvocationSession.connect
  split
  . exact hless.congr hstopped
  . split
    . exact hless.congr hstopped
    . have hconnections := h.connections
      rw [connections_unspawn hget] at hconnections
      have hconnecting : Tally { s.unspawn k with connecting := true } := by
        refine ⟨hless.ends, hless.finishes, hless.whenFinished, hless.signals, ?_, hless.spawned⟩
        rw [InvocationSession.connections] at hconnections
        change (s.unspawn k).spawned.count .connect + 1
          + (s.unspawn k).spawned.count (.setValue .connected)
          + (s.unspawn k).signals.count .connected ≤ 1
        simp only [List.count_singleton_self] at hconnections
        omega
      refine hconnecting.congr (SameTally.trans ?_ timerOnly_enableTimer.sameTally)
      refine ⟨?_, ?_, rfl, rfl, rfl, fun _ _ => rfl⟩
      . simp [InvocationSession.signals, emit, Effect.signal?]
      . simp [InvocationSession.finishes, emit, Effect.finish?]

end InvocationSession

namespace Invoker

open InvocationSession

variable {cfg : SessionConfig} {s t : InvocationSession} {env : Env} {e : SessionEvent}

-- the events that start to end a session
def StartsEnd (s : InvocationSession) (e : Env × SessionEvent) : Prop :=
  match e.2 with
  | .close | .abort => True
  | .fire => s.timeout ≠ 0 ∧ e.1.now ≥ s.timeout
  | .receive b =>
    b.isChained = false ∧ (responseOf b.data).isSome = true ∧ httpStatusOf b.data ≠ httpOk
  | .connected | .spawned _ => False

def EndStarted (s : InvocationSession) : Prop :=
  s.whenFinished ≠ none ∨ .setValue .closed ∈ s.spawned ∨ .setValue .aborted ∈ s.spawned

-- a response that `Receive` takes for the result of the run
def IsResult (s : InvocationSession) (e : SessionEvent) : Prop :=
  match e with
  | .receive b =>
    b.isChained = false ∧ ∃ response ∈ responseOf b.data,
      ¬ (response = initialized ∧ s.isInitialized = false)
  | _ => False

structure EndsOnce (s : InvocationSession) (e : Env × SessionEvent) : Prop where
  ends : StartsEnd s e → ¬ EndStarted s
  executes : IsResult s e.2 → s.satisfied .executed = false

instance (s : InvocationSession) (e : Env × SessionEvent) : Decidable (StartsEnd s e) := by
  unfold StartsEnd
  split <;> infer_instance

instance (s : InvocationSession) : Decidable (EndStarted s) := by
  unfold EndStarted
  infer_instance

instance (s : InvocationSession) (e : SessionEvent) : Decidable (IsResult s e) := by
  unfold IsResult
  split <;> infer_instance

instance (s : InvocationSession) (e : Env × SessionEvent) : Decidable (EndsOnce s e) :=
  decidable_of_iff
    ((StartsEnd s e → ¬ EndStarted s) ∧ (IsResult s e.2 → s.satisfied .executed = false))
    ⟨fun h => ⟨h.1, h.2⟩, fun h => ⟨h.ends, h.executes⟩⟩

theorem not_started_of_tally (h : Tally s) (hstarted : ¬ EndStarted s) :
    s.pendingEnds = 0 ∧ s.endings = 0 := by
  simp only [EndStarted, not_or, Ne, not_not] at hstarted
  rcases hstarted with ⟨hfinished, hclosed, haborted⟩
  refine ⟨?_, h.whenFinished.mp hfinished⟩
  rw [pendingEnds, List.count_eq_zero.mpr hclosed, List.count_eq_zero.mpr haborted]

structure Counted (s : InvocationSession) : Prop extends Tally s where
  flag : s.satisfied .initialized = s.isInitialized

theorem Counted.new (srcPort : UInt16) (istats : InvocationStats) :
    Counted (.new srcPort istats) where
  ends := Nat.zero_le 1
  finishes := rfl
  whenFinished := ⟨fun _ => rfl, fun _ => rfl⟩
  signals := fun _ => rfl
  connections := Nat.le_refl 1
  spawned := fun _ => .inl rfl
  flag := rfl

theorem Counted.quiet (h : Counted s) (hquiet : Quiet s t) : Counted t := by
  refine ⟨h.toTally.congr hquiet.sameTally, ?_⟩
  rw [hquiet.satisfied, hquiet.isInitialized]
  exact h.flag

theorem Counted.answered (h : Counted s) {response : CString}
    (hresult : ¬ (response = initialized ∧ s.isInitialized = false) →
      s.satisfied .executed = false) :
    Counted (answered response s) := by
  unfold InvocationSession.answered
  split
  . next hinit =>
    have hnot : s.isInitialized = false := by
      simpa using hinit.2
    have hsame : Tally { s with isInitialized := true } :=
      ⟨h.ends, h.finishes, h.whenFinished, h.signals, h.connections, h.spawned⟩
    have hsatisfied : s.satisfied .initialized = false := by
      rw [h.flag, hnot]
    exact ⟨hsame.mark_of_ne_connected rfl hsatisfied (by simp), mark_satisfied_self⟩
  . next hinit =>
    have hsame : Tally { s with reply := response } :=
      ⟨h.ends, h.finishes, h.whenFinished, h.signals, h.connections, h.spawned⟩
    have hsatisfied : s.satisfied .executed = false := by
      apply hresult
      simpa using hinit
    refine ⟨hsame.mark_of_ne_connected rfl hsatisfied (by simp), ?_⟩
    rw [mark_satisfied_of_ne (by simp)]
    exact h.flag

-- The promise was not set, so the first setting of it calls `Finish`.
theorem Counted.ending (h : Counted s) {sig : Signal} {status : Bool} (hends : sig.ends = true)
    (hpending : s.pendingEnds = 0) (hendings : s.endings = 0) (hending : Ending sig status s t) :
    Counted t ∧ t.satisfied .executed = s.satisfied .executed
      ∧ t.isInitialized = s.isInitialized := by
  have hinit : sig ≠ .initialized := by
    rintro rfl
    cases hends
  have hexec : sig ≠ .executed := by
    rintro rfl
    cases hends
  cases hending with
  | again hsatisfied hquiet =>
    have hsig : s.satisfied sig = false := by
      apply h.satisfied_of_count
      rw [endings] at hendings
      cases sig with
      | closed => omega
      | aborted => omega
      | connected | executed | initialized => cases hends
    rw [hsig] at hsatisfied
    cases hsatisfied
  | finished kept hkept hquiet =>
    rcases sameTally_ended status kept (mark sig s) with ⟨_, _, hsatisfied, _, _⟩
    have hflag : (ended status kept (mark sig s)).isInitialized = s.isInitialized :=
      timerOnly_disableTimer.isInitialized
    refine ⟨Counted.quiet ⟨h.toTally.ended hends hpending hendings status kept, ?_⟩ hquiet, ?_, ?_⟩
    . rw [hsatisfied, mark_satisfied_of_ne hinit.symm, hflag]
      exact h.flag
    . rw [hquiet.satisfied, hsatisfied, mark_satisfied_of_ne hexec.symm]
    . rw [hquiet.isInitialized, hflag]

theorem Counted.connected (h : Counted s) (hconnecting : s.connecting = true) (now : Time) :
    Counted (s.connected now) := by
  refine ⟨h.toTally.connected hconnecting now, ?_⟩
  simp only [InvocationSession.connected, spawn, timerOnly_enableTimer.satisfied,
    timerOnly_disableTimer.satisfied, timerOnly_enableTimer.isInitialized,
    timerOnly_disableTimer.isInitialized]
  exact h.flag

theorem Counted.close (h : Counted s) (hpending : s.pendingEnds = 0) (hendings : s.endings = 0) :
    Counted s.close := by
  refine ⟨h.toTally.close hpending hendings, ?_⟩
  simp only [InvocationSession.close, spawn, emit, timerOnly_disableTimer.satisfied,
    timerOnly_disableTimer.isInitialized]
  exact h.flag

theorem Counted.abort (h : Counted s) (hpending : s.pendingEnds = 0) (hendings : s.endings = 0) :
    Counted s.abort := by
  refine ⟨h.toTally.abort hpending hendings, ?_⟩
  simp only [InvocationSession.abort, spawn, timerOnly_disableTimer.satisfied,
    timerOnly_disableTimer.isInitialized]
  exact h.flag

theorem Counted.fire (h : Counted s) (now : Time)
    (hends : s.timeout ≠ 0 ∧ now ≥ s.timeout → s.pendingEnds = 0 ∧ s.endings = 0) :
    Counted (fire now { s with hook := none }) := by
  unfold InvocationSession.fire
  dsimp only
  split
  . next hexpired =>
    have hsame : Counted { s with hook := none, timerSet := false, timeout := 0 } :=
      ⟨⟨h.ends, h.finishes, h.whenFinished, h.signals, h.connections, h.spawned⟩, h.flag⟩
    exact hsame.abort (hends hexpired).1 (hends hexpired).2
  . exact ⟨⟨h.ends, h.finishes, h.whenFinished, h.signals, h.connections, h.spawned⟩, h.flag⟩

theorem Counted.connect (h : Counted s) {k : Nat} (hget : s.spawned[k]? = some .connect)
    (now : Time) :
    Counted (connect now (s.unspawn k)).settle := by
  refine ⟨h.toTally.connect hget now, ?_⟩
  unfold InvocationSession.connect
  split
  . exact h.flag
  . split
    . exact h.flag
    . rw [Outcome.settle, timerOnly_enableTimer.satisfied, timerOnly_enableTimer.isInitialized]
      exact h.flag

-- The setting of `when_connected_` was counted while it was spawned, so it is the first one.
theorem Counted.opened (h : Counted s) {k : Nat}
    (hget : s.spawned[k]? = some (.setValue .connected)) :
    Counted (mark .connected (s.unspawn k)) := by
  have hless := h.toTally.unspawn k
  have hconnections := h.connections
  rw [connections_unspawn hget] at hconnections
  have hcount : (s.unspawn k).signals.count .connected = 0 := by
    rw [InvocationSession.connections] at hconnections
    simp only [List.count_singleton_self] at hconnections
    omega
  refine ⟨hless.mark rfl (hless.satisfied_of_count hcount) ?_, ?_⟩
  . rw [connections_mark]
    exact hconnections
  . rw [mark_satisfied_of_ne (by simp)]
    exact h.flag

theorem Counted.unspawned (h : Counted s) {k : Nat} {sig : Signal}
    (hget : s.spawned[k]? = some (.setValue sig)) (hsig : sig.ends = true) :
    Counted (s.unspawn k) ∧ (s.unspawn k).pendingEnds = 0 ∧ (s.unspawn k).endings = 0 := by
  have hpending := pendingEnds_unspawn hget
  have hone : [Spawned.setValue sig].count (.setValue .closed)
      + [Spawned.setValue sig].count (.setValue .aborted) = 1 := by
    cases sig with
    | closed | aborted => decide
    | connected | executed | initialized => cases hsig
  have hends := h.ends
  rw [hpending, hone] at hends
  have hendings : (s.unspawn k).endings = s.endings := rfl
  exact ⟨⟨h.toTally.unspawn k, h.flag⟩, by omega, by omega⟩

theorem counted_of_happens (h : Counted s) (honce : EndsOnce s (env, e))
    (hstep : Happens cfg env s t e) :
    Counted t := by
  cases hstep with
  | connected hconnecting ht =>
    subst ht
    exact h.connected hconnecting env.now
  | close ht =>
    subst ht
    rcases not_started_of_tally h.toTally (honce.ends trivial) with ⟨hpending, hendings⟩
    exact h.close hpending hendings
  | abort ht =>
    subst ht
    rcases not_started_of_tally h.toTally (honce.ends trivial) with ⟨hpending, hendings⟩
    exact h.abort hpending hendings
  | fire deadline hhook hdue ht =>
    subst ht
    apply h.fire
    intro hexpired
    exact not_started_of_tally h.toTally (honce.ends hexpired)
  | rejected b hquiet => exact h.quiet hquiet
  | received b response hchained hresponse hstatus hquiet =>
    refine (h.answered fun hresult => ?_).quiet hquiet
    exact honce.executes ⟨hchained, response, hresponse, hresult⟩
  | failed b response u hchained hresponse hstatus hending hrest =>
    have hstarts : StartsEnd s (env, .receive b) := ⟨hchained, by simp [hresponse], hstatus⟩
    rcases not_started_of_tally h.toTally (honce.ends hstarts) with ⟨hpending, hendings⟩
    have hreply : Counted { s with reply := response } :=
      ⟨⟨h.ends, h.finishes, h.whenFinished, h.signals, h.connections, h.spawned⟩, h.flag⟩
    rcases hreply.ending rfl hpending hendings hending with ⟨hcounted, hexecuted, hflag⟩
    cases hrest with
    | inl ht =>
      subst ht
      exact hcounted
    | inr hquiet =>
      refine (hcounted.answered fun hresult => ?_).quiet hquiet
      rw [hexecuted]
      rw [hflag] at hresult
      exact honce.executes ⟨hchained, response, hresponse, hresult⟩
  | connect k hget ht =>
    subst ht
    exact h.connect hget env.now
  | opened k sig hget hsig hquiet =>
    have hconnected : sig = .connected := by
      rcases h.spawned sig with hzero | hconnected | hends
      . exact absurd (List.mem_of_getElem? hget) (List.count_eq_zero.mp hzero)
      . exact hconnected
      . rw [hends] at hsig
        cases hsig
    subst hconnected
    exact (h.opened hget).quiet hquiet
  | ended k sig hget hsig hending =>
    rcases h.unspawned hget hsig with ⟨hcounted, hpending, hendings⟩
    exact (hcounted.ending hsig hpending hendings hending).1
  | halted k hget hquiet => exact h.quiet hquiet

structure EndedOnce (s : InvocationSession) : Prop where
  finishes : s.finishes.length ≤ 1
  signals : ∀ sig, s.signals.count sig ≤ 1
  notBoth : ¬ (.closed ∈ s.signals ∧ .aborted ∈ s.signals)
  finished : s.whenFinished ≠ none → .closed ∈ s.signals ∨ .aborted ∈ s.signals

theorem Counted.endedOnce (h : Counted s) : EndedOnce s := by
  have hends := h.ends
  refine ⟨?_, ?_, ?_, ?_⟩
  . rw [h.finishes]
    omega
  . intro sig
    rw [h.signals sig]
    split <;> decide
  . rintro ⟨hclosed, haborted⟩
    rw [← List.count_pos_iff] at hclosed haborted
    rw [endings] at hends
    omega
  . intro hfinished
    rw [Ne, h.whenFinished, endings] at hfinished
    by_contra hneither
    rw [not_or, ← List.count_eq_zero, ← List.count_eq_zero] at hneither
    omega

/--
Where no second event starts to end a session and there is one result of the run, the session ends
once.
-/
theorem endedOnce_of_endsOnce {srcPort : UInt16} {istats : InvocationStats}
    (h : ((sessionMachine cfg srcPort istats).restrict EndsOnce).Reachable s) :
    EndedOnce s := by
  have hcounted : Counted s := by
    refine h.invariant (P := Counted) (Counted.new srcPort istats) ?_
    intro s e t _ hcounted hstep
    rcases Machine.restrict_step.mp hstep with ⟨honce, hstep⟩
    exact counted_of_happens hcounted honce (happens_of_stepSession hstep)
  exact hcounted.endedOnce

def throwingConfig : SessionConfig :=
  exampleConfig { second := .throws, captures := true } []

-- The watchdog gives up on the run and the instance dies, in this order.
def timedOut : List (Env × SessionEvent) :=
  opening ++ [(⟨60000000002, false⟩, .fire), (⟨60000000003, false⟩, .spawned 0)]

theorem timedOut_run :
    (((sessionMachine throwingConfig 49160 exampleStats).restrict EndsOnce).run timedOut).isSome := by
  decide

theorem endedOnce_of_endsOnce_timedOut :
    ∃ s, ((sessionMachine throwingConfig 49160 exampleStats).restrict EndsOnce).run timedOut = some s
      ∧ s.finishes = [false]
      ∧ EndedOnce s := by
  have hrun := (Option.some_get timedOut_run).symm
  exact ⟨_, hrun, by decide, endedOnce_of_endsOnce ⟨_, hrun⟩⟩

-- `Fire` aborts without disconnecting, so the peer's close comes through as well.
def closedAfterTimeout : List (Env × SessionEvent) :=
  opening ++ [
    (⟨60000000002, false⟩, .fire),
    (⟨60000000003, false⟩, .close),
    (⟨60000000003, false⟩, .spawned 0),
    (⟨60000000003, false⟩, .spawned 0)
  ]

theorem closedAfterTimeout_run :
    ((sessionMachine throwingConfig 49160 exampleStats).run closedAfterTimeout).isSome := by
  decide

theorem closedAfterTimeout_ends_twice :
    ∃ s, (sessionMachine throwingConfig 49160 exampleStats).run closedAfterTimeout = some s
      ∧ s.finishes = [false, true]
      ∧ s.signals = [.connected, .aborted, .closed]
      ∧ ¬ EndedOnce s := by
  refine ⟨_, (Option.some_get closedAfterTimeout_run).symm, by decide, by decide, ?_⟩
  intro h
  exact absurd h.finishes (by decide)

end Invoker
end Seuss
