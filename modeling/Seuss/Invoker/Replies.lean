import Mathlib.Logic.Function.Iterate
import Seuss.Invoker.Invoke
import Seuss.Invoker.Pairing
import Seuss.Invoker.SessionEvents

/-!
This module contains how many replies an invocation gets. The status of a start path comes from the
end of its connection and the reply from a response, so the two agree only where the connection
ends as the protocol of the instance has it. Once it ends, the path returns.
-/

namespace Seuss
namespace Invoker

open InvocationSession

variable {cfg : SessionConfig} {srcPort : UInt16} {istats : InvocationStats}
variable {s t : InvocationSession} {env : Env} {es : List (Env × SessionEvent)}

def dueAfter (code : CString) (n : Nat) : Due :=
  Due.next^[n] (firstDue code)

def endsByClose (e : Env × SessionEvent) : Bool :=
  match e.2 with
  | .close => true
  | _ => false

def endsByFailure (e : Env × SessionEvent) : Bool :=
  match e.2 with
  | .abort => true
  | .fire => true
  | _ => false

def asked (cfg : SessionConfig) (srcPort : UInt16) (istats : InvocationStats)
    (es : List (Env × SessionEvent)) (k : Nat) : Bool :=
  match es[k]?, (sessionMachine cfg srcPort istats).run (es.take k) with
  | some (_, .receive _), some s => (received (es.take k)).length < s.requests.length
  | _, _ => true

-- A session whose instance answers what it is asked, closes the connection when it has answered
-- everything, and is given up only before that.
structure Orderly (cfg : SessionConfig) (srcPort : UInt16) (istats : InvocationStats)
    (es : List (Env × SessionEvent)) : Prop where
  ok : ∀ b ∈ received es, IsOk b
  asked : ∀ k < es.length, asked cfg srcPort istats es k
  inTurn : ∀ n b, (received es)[n]? = some b → (dueAfter cfg.code n).Meets b
  closed : (∃ e ∈ es, endsByClose e) → dueAfter cfg.code (received es).length = .nothing
  failed : (∃ e ∈ es, endsByFailure e) → dueAfter cfg.code (received es).length ≠ .nothing

theorem Orderly.asked_of_prefix (h : Orderly cfg srcPort istats es)
    {es₀ : List (Env × SessionEvent)} {b : MutIOBuf} (hes : es₀ ++ [(env, .receive b)] <+: es)
    (hrun : (sessionMachine cfg srcPort istats).run es₀ = some s) :
    (received es₀).length < s.requests.length := by
  rcases hes with ⟨gs, rfl⟩
  have hasked := h.asked es₀.length (by simp)
  simpa [Invoker.asked, hrun] using hasked

theorem received_append {es fs : List (Env × SessionEvent)} :
    received (es ++ fs) = received es ++ received fs := by
  apply List.filterMap_append

section ending

theorem closing_of_run (hrun : (sessionMachine cfg srcPort istats).run es = some s)
    (h : Closing s) :
    ∃ e ∈ es, endsByClose e := by
  revert h
  refine Machine.run_induction (sessionMachine cfg srcPort istats)
    (P := fun es s => Closing s → ∃ e ∈ es, endsByClose e) ?_ ?_ hrun
  . rintro (hfinished | hspawned)
    . cases hfinished
    . simp [sessionMachine, InvocationSession.new] at hspawned
  . rintro es s ⟨env, e⟩ t _ ih hstep hclosing
    cases (endStep_of_stepSession hstep).closing hclosing with
    | inl hclosing =>
      rcases ih hclosing with ⟨e', hmem, he'⟩
      exact ⟨e', List.mem_append_left _ hmem, he'⟩
    | inr hclose =>
      subst hclose
      exact ⟨_, List.mem_append_right _ (List.mem_singleton_self _), rfl⟩

theorem aborting_of_run (hrun : (sessionMachine cfg srcPort istats).run es = some s)
    (hok : ∀ b ∈ received es, IsOk b) (h : Aborting s) :
    ∃ e ∈ es, endsByFailure e := by
  revert h hok
  refine Machine.run_induction (sessionMachine cfg srcPort istats)
    (P := fun es s => (∀ b ∈ received es, IsOk b) → Aborting s → ∃ e ∈ es, endsByFailure e)
    ?_ ?_ hrun
  . rintro _ (hfinished | hspawned)
    . cases hfinished
    . simp [sessionMachine, InvocationSession.new] at hspawned
  . rintro es s ⟨env, e⟩ t _ ih hstep hok haborting
    rw [received_append, List.forall_mem_append] at hok
    rcases (endStep_of_stepSession hstep).aborting haborting with h | rfl | rfl | ⟨b, rfl, hstatus⟩
    . rcases ih hok.1 h with ⟨e', hmem, he'⟩
      exact ⟨e', List.mem_append_left _ hmem, he'⟩
    . exact ⟨_, List.mem_append_right _ (List.mem_singleton_self _), rfl⟩
    . exact ⟨_, List.mem_append_right _ (List.mem_singleton_self _), rfl⟩
    . exact absurd (hok.2 b (List.mem_singleton_self _)).status hstatus

end ending

section endings

-- `Close()`, `Abort()` or `Fire()` has spawned the end of the session, which has not been run.
def EndSpawned (s : InvocationSession) : Prop :=
  ∃ e ∈ s.spawned, Spawned.closes e = true

instance : Decidable (EndSpawned s) := by
  unfold EndSpawned
  infer_instance

-- The end of the session is spawned at some time, and in the end it has been run.
structure Ends (cfg : SessionConfig) (srcPort : UInt16) (istats : InvocationStats)
    (es : List (Env × SessionEvent)) : Prop where
  spawned : ∃ k, ∃ s ∈ (sessionMachine cfg srcPort istats).run (es.take k), EndSpawned s
  handled : ∃ s ∈ (sessionMachine cfg srcPort istats).run es, ¬ EndSpawned s

def EndRecorded (s : InvocationSession) : Prop :=
  ∀ sig, Signal.ends sig = true → s.satisfied sig = true → s.whenFinished ≠ none

-- The session goes on, with every end that is spawned.
structure GoesOn (s t : InvocationSession) : Prop where
  whenFinished : t.whenFinished = s.whenFinished
  satisfied : ∀ sig, Signal.ends sig = true → t.satisfied sig = s.satisfied sig
  spawned : EndSpawned s → EndSpawned t

theorem GoesOn.trans {u : InvocationSession} (h : GoesOn s t) (h' : GoesOn t u) : GoesOn s u where
  whenFinished := h'.whenFinished.trans h.whenFinished
  satisfied sig hsig := (h'.satisfied sig hsig).trans (h.satisfied sig hsig)
  spawned hs := h'.spawned (h.spawned hs)

theorem endSpawned_of_mem (h : ∀ e ∈ s.spawned, e.closes = true → e ∈ t.spawned) (hs : EndSpawned s) :
    EndSpawned t := by
  rcases hs with ⟨e, hmem, he⟩
  exact ⟨e, h e hmem he, he⟩

theorem goesOn_of_fields (whenFinished : t.whenFinished = s.whenFinished)
    (satisfied : t.satisfied = s.satisfied) (spawned : t.spawned = s.spawned) : GoesOn s t where
  whenFinished := whenFinished
  satisfied _ _ := by
    rw [satisfied]
  spawned := by
    unfold EndSpawned
    rw [spawned]
    exact id

theorem goesOn_of_quiet (h : Quiet s t) : GoesOn s t where
  whenFinished := h.whenFinished
  satisfied _ _ := by
    rw [h.satisfied]
  spawned := by
    apply endSpawned_of_mem
    intro e hmem he
    rw [h.mem_spawned]
    . exact hmem
    . rintro rfl
      cases he

theorem goesOn_mark {sig : Signal} (hsig : sig.ends = false) : GoesOn s (mark sig s) where
  whenFinished := rfl
  satisfied other hother := by
    apply mark_satisfied_of_ne
    rintro rfl
    rw [hsig] at hother
    cases hother
  spawned := id

theorem goesOn_answered {response : CString} : GoesOn s (InvocationSession.answered response s) := by
  unfold InvocationSession.answered
  split
  . apply GoesOn.trans _ (goesOn_mark rfl)
    apply goesOn_of_fields <;> rfl
  . apply GoesOn.trans _ (goesOn_mark rfl)
    apply goesOn_of_fields <;> rfl

theorem goesOn_unspawn {k : Nat} {e : Spawned} (hget : s.spawned[k]? = some e)
    (he : e.closes = false) :
    GoesOn s (s.unspawn k) where
  whenFinished := rfl
  satisfied _ _ := rfl
  spawned := by
    apply endSpawned_of_mem
    intro e' hmem he'
    have hne : e' ≠ e := by
      rintro rfl
      rw [he] at he'
      cases he'
    exact (Pool.mem_take_of_ne hget hne).mpr hmem

theorem goesOn_disableTimer : GoesOn s s.disableTimer :=
  goesOn_of_fields timerOnly_disableTimer.whenFinished timerOnly_disableTimer.satisfied
    timerOnly_disableTimer.spawned

theorem goesOn_enableTimer {now : Time} : GoesOn s (enableTimer now s) :=
  goesOn_of_fields timerOnly_enableTimer.whenFinished timerOnly_enableTimer.satisfied
    timerOnly_enableTimer.spawned

theorem goesOn_spawn (e : Spawned) : GoesOn s (spawn e s) where
  whenFinished := rfl
  satisfied _ _ := rfl
  spawned := endSpawned_of_mem fun _ hmem _ => List.mem_append_left _ hmem

theorem goesOn_connected {now : Time} : GoesOn s (s.connected now) := by
  unfold connected
  apply GoesOn.trans _ (goesOn_spawn _)
  apply GoesOn.trans _ goesOn_enableTimer
  apply GoesOn.trans (t := { s with isConnected := true, connecting := false }.disableTimer)
  . apply GoesOn.trans _ goesOn_disableTimer
    apply goesOn_of_fields <;> rfl
  . apply goesOn_of_fields <;> rfl

theorem goesOn_close : GoesOn s s.close := by
  unfold close
  apply GoesOn.trans _ (goesOn_spawn _)
  apply goesOn_disableTimer.trans
  apply goesOn_of_fields <;> rfl

theorem goesOn_abort : GoesOn s s.abort := by
  unfold abort
  apply GoesOn.trans _ (goesOn_spawn _)
  apply goesOn_disableTimer.trans
  apply goesOn_of_fields <;> rfl

theorem goesOn_fire {now : Time} : GoesOn s (fire now { s with hook := none }) := by
  unfold fire
  dsimp only
  split
  . apply GoesOn.trans _ goesOn_abort
    apply goesOn_of_fields <;> rfl
  . apply goesOn_of_fields <;> rfl

theorem goesOn_connect {now : Time} : GoesOn s (s.connect now).settle := by
  unfold connect
  split
  . apply goesOn_of_fields <;> rfl
  . split
    . apply goesOn_of_fields <;> rfl
    . apply GoesOn.trans _ goesOn_enableTimer
      apply goesOn_of_fields <;> rfl

theorem finished_of_ending (h : EndRecorded s) {sig : Signal} {status : Bool} (hsig : sig.ends = true)
    (hending : Ending sig status s t) :
    t.whenFinished ≠ none := by
  cases hending with
  | again hsatisfied hquiet =>
    rw [hquiet.whenFinished]
    exact h sig hsig hsatisfied
  | finished kept hkept hquiet =>
    rw [hquiet.whenFinished]
    exact Option.some_ne_none kept

-- one event of a session
theorem goesOn_or_finished (h : EndRecorded s) {e : SessionEvent} (hhappens : Happens cfg env s t e) :
    GoesOn s t ∨ t.whenFinished ≠ none := by
  cases hhappens with
  | connected hconnecting ht => exact .inl (ht ▸ goesOn_connected)
  | close ht => exact .inl (ht ▸ goesOn_close)
  | abort ht => exact .inl (ht ▸ goesOn_abort)
  | fire deadline hhook hdue ht => exact .inl (ht ▸ goesOn_fire)
  | rejected b hquiet => exact .inl (goesOn_of_quiet hquiet)
  | received b response hchained hresponse hstatus hquiet =>
    exact .inl (goesOn_answered.trans (goesOn_of_quiet hquiet))
  | failed b response u hchained hresponse hstatus hending ht =>
    have hu : u.whenFinished ≠ none := finished_of_ending (s := { s with reply := response }) h rfl hending
    right
    rcases ht with rfl | hquiet
    . exact hu
    . rw [(goesOn_answered.trans (goesOn_of_quiet hquiet)).whenFinished]
      exact hu
  | connect k hget ht => exact .inl (ht ▸ (goesOn_unspawn hget rfl).trans goesOn_connect)
  | opened k sig hget hsig hquiet =>
    have hcloses : (Spawned.setValue sig).closes = false := (Spawned.closes_setValue sig).trans hsig
    exact .inl ((goesOn_unspawn hget hcloses).trans ((goesOn_mark hsig).trans (goesOn_of_quiet hquiet)))
  | ended k sig hget hsig hending =>
    exact .inr (finished_of_ending (s := s.unspawn k) h hsig hending)
  | halted k hget hquiet => exact .inl (goesOn_of_quiet hquiet)

theorem EndRecorded.step (h : EndRecorded s) (hgoes : GoesOn s t ∨ t.whenFinished ≠ none) :
    EndRecorded t := by
  intro sig hsig hsatisfied
  rcases hgoes with hgoes | hfinished
  . rw [hgoes.whenFinished]
    rw [hgoes.satisfied sig hsig] at hsatisfied
    exact h sig hsig hsatisfied
  . exact hfinished

theorem endRecorded_of_reachable (h : (sessionMachine cfg srcPort istats).Reachable s) :
    EndRecorded s := by
  refine h.invariant (P := EndRecorded) ?_ ?_
  . intro sig _ hsatisfied
    cases hsatisfied
  . rintro s ⟨env, e⟩ t _ hrecorded hstep
    exact hrecorded.step (goesOn_or_finished hrecorded (happens_of_stepSession hstep))

-- An end that is spawned stays so until it is run, which finishes the session.
theorem endSpawned_of_runFrom (h : (sessionMachine cfg srcPort istats).Reachable s)
    (hs : EndSpawned s ∨ s.whenFinished ≠ none)
    (hrun : (sessionMachine cfg srcPort istats).runFrom s es = some t) :
    EndSpawned t ∨ t.whenFinished ≠ none := by
  induction es generalizing s with
  | nil =>
    cases hrun
    exact hs
  | cons e es ih =>
    rw [Machine.runFrom_cons] at hrun
    rcases hrun with ⟨u, hstep, hrun⟩
    refine ih (h.step hstep) ?_ hrun
    rcases goesOn_or_finished (endRecorded_of_reachable h) (happens_of_stepSession hstep) with hgoes | hu
    . rw [hgoes.whenFinished]
      exact hs.imp_left hgoes.spawned
    . exact .inr hu

theorem Ends.finished (h : Ends cfg srcPort istats es) :
    ∃ s, (sessionMachine cfg srcPort istats).run es = some s ∧ s.whenFinished ≠ none := by
  rcases h.spawned with ⟨k, u, hu, hspawned⟩
  rcases h.handled with ⟨s, hs, hhandled⟩
  refine ⟨s, hs, ?_⟩
  have hrest : (sessionMachine cfg srcPort istats).runFrom u (es.drop k) = some s := by
    have hrun : (sessionMachine cfg srcPort istats).run (es.take k ++ es.drop k) = some s := by
      rw [List.take_append_drop]
      exact hs
    rcases (Machine.runFrom_append _).mp hrun with ⟨u', hu', hrest⟩
    cases hu'.symm.trans hu
    exact hrest
  exact (endSpawned_of_runFrom ⟨_, hu⟩ (.inl hspawned) hrest).resolve_left hhandled

end endings

section proceeds

def Proceeds (cfg : SessionConfig) (tid : UInt64) (es : List (Env × SessionEvent))
    (s : InvocationSession) : Prop :=
  received es = [] ∧ Opened cfg tid s
    ∨ AtDue tid (dueAfter cfg.code (received es).length) (received es).length s
    ∨ dueAfter cfg.code (received es).length ≠ .nothing ∧ s.replies = [] ∧ s.stopped ≠ none

theorem dueAfter_succ {code : CString} {n : Nat} : dueAfter code (n + 1) = (dueAfter code n).next := by
  apply Function.iterate_succ_apply'

theorem firstDue_ne_nothing {code : CString} : firstDue code ≠ .nothing := by
  unfold firstDue
  split <;> simp

theorem Proceeds.atDue {tid : UInt64} (h : Proceeds cfg tid es s) (hstopped : s.stopped = none)
    (hrequests : s.requests ≠ []) :
    AtDue tid (dueAfter cfg.code (received es).length) (received es).length s := by
  rcases h with ⟨hreceived, hopened⟩ | hdue | hended
  . rw [hreceived]
    rcases hopened with h | h | h
    . exact absurd h.requests hrequests
    . exact absurd h.1 hrequests
    . exact h
  . exact hdue
  . exact absurd hstopped hended.2.2

theorem AtDue.replies_nil {tid : UInt64} {due : Due} {i : Nat} (h : AtDue tid due i s)
    (hdue : due ≠ .nothing) :
    s.replies = [] := by
  cases h.phase with
  | init _ replies => exact replies
  | runOnly _ replies => exact replies
  | run _ replies => exact replies
  | nothing => exact absurd rfl hdue

theorem Proceeds.receive {tid : UInt64} {b : MutIOBuf} (h : Proceeds cfg tid es s) (hok : IsOk b)
    (hasked : (received es).length < s.requests.length)
    (hmeets : (dueAfter cfg.code (received es).length).Meets b)
    (hstep : stepSession cfg s (env, .receive b) = some t) :
    Proceeds cfg tid (es ++ [(env, .receive b)]) t := by
  have hrequests : s.requests ≠ [] := by
    rw [← List.length_pos_iff]
    omega
  have hdue := h.atDue (stepSession_eq_some.mp hstep).1 hrequests
  have hreceived : (received (es ++ [(env, .receive b)])).length = (received es).length + 1 := by
    simp [received]
  right
  rw [hreceived, dueAfter_succ]
  generalize dueAfter cfg.code (received es).length = due at *
  cases (handled_of_step hdue hok hstep).next hmeets with
  | inl hstopped =>
    rcases hstopped with ⟨hrun, hreplies, hstopped⟩
    right
    cases due with
    | init => exact ⟨by simp [Due.next], hreplies.trans (hdue.replies_nil (by simp)), hstopped⟩
    | run withCode => exact absurd rfl (hrun withCode)
    | nothing =>
      cases hdue.phase
      omega
  | inr hnext => exact .inl hnext

theorem Proceeds.other {tid : UInt64} {e : SessionEvent} (h : Proceeds cfg tid es s)
    (hreceive : ∀ b, e ≠ .receive b) (hstep : stepSession cfg s (env, e) = some t) :
    Proceeds cfg tid (es ++ [(env, e)]) t := by
  have hreceived : received (es ++ [(env, e)]) = received es := by
    rw [received_append, received_cons_of_ne hreceive]
    apply List.append_nil
  unfold Proceeds
  rw [hreceived]
  rcases h with ⟨hnil, hopened⟩ | hdue | hended
  . exact .inl ⟨hnil, opened_step hopened hreceive hstep⟩
  . exact .inr (.inl (hdue.kept (kept_of_atDue hdue hreceive hstep)))
  . exact absurd (stepSession_eq_some.mp hstep).1 hended.2.2

theorem proceeds_of_run (h : Orderly cfg srcPort istats es)
    (hrun : (sessionMachine cfg srcPort istats).run es = some s) :
    Proceeds cfg istats.transactionId es s := by
  have hprefix : ∀ fs s, (sessionMachine cfg srcPort istats).run fs = some s → fs <+: es →
      Proceeds cfg istats.transactionId fs s := by
    intro fs s hfs
    refine Machine.run_induction (sessionMachine cfg srcPort istats)
      (P := fun fs s => fs <+: es → Proceeds cfg istats.transactionId fs s) ?_ ?_ hfs
    . intro _
      have hreceived : received [] = [] := rfl
      exact .inl ⟨hreceived, opened_of_run (Machine.runFrom_nil _ _) hreceived⟩
    . rintro fs s ⟨env, e⟩ t hfs ih hstep hfses
      have hproceeds := ih ((List.prefix_append _ _).trans hfses)
      by_cases hreceive : ∃ b, e = .receive b
      . rcases hreceive with ⟨b, rfl⟩
        have hmem : (received es)[(received fs).length]? = some b := by
          rcases hfses with ⟨gs, rfl⟩
          simp [received]
        apply hproceeds.receive
        . exact h.ok b (List.mem_of_getElem? hmem)
        . exact h.asked_of_prefix hfses hfs
        . exact h.inTurn _ _ hmem
        . exact hstep
      . rw [not_exists] at hreceive
        exact hproceeds.other hreceive hstep
  exact hprefix es s hrun (List.prefix_refl es)

theorem Proceeds.replies {tid : UInt64} (h : Proceeds cfg tid es s) :
    (dueAfter cfg.code (received es).length = .nothing →
        s.replies.map (·.1.transactionId) = [tid])
      ∧ (dueAfter cfg.code (received es).length ≠ .nothing → s.replies = []) := by
  rcases h with ⟨hreceived, hopened⟩ | hdue | hended
  . rw [hreceived]
    have hreplies : s.replies = [] := by
      rcases hopened with h | h | h
      . exact h.replies
      . exact h.2.1
      . exact h.replies_nil firstDue_ne_nothing
    exact ⟨fun h => absurd h firstDue_ne_nothing, fun _ => hreplies⟩
  . refine ⟨?_, hdue.replies_nil⟩
    intro hnothing
    rw [hnothing] at hdue
    cases hdue.phase with
    | nothing _ _ _ replies => exact replies
  . exact ⟨fun h => absurd h hended.1, fun _ => hended.2.1⟩

end proceeds

section attempt

variable {build : Build} {promises : Promises} {script : Script} {attempt : Attempt}

def Attempt.RepliesOnce (tid : UInt64) (attempt : Attempt) : Prop :=
  attempt.replies.map (·.1.transactionId) = if attempt.status then [tid] else []

theorem repliesOnce_unavailable {tid : UInt64} : Attempt.unavailable.RepliesOnce tid := by
  rfl

theorem finished_of_runSession (h : runSession cfg istats script = .ok attempt) :
    ∃ s status, (sessionMachine cfg script.srcPort istats).run script.events = some s
      ∧ s.whenFinished = some status
      ∧ attempt = { status := status, replies := s.replies } := by
  unfold runSession at h
  split at h
  . cases h
  . next s hrun =>
    split at h
    . next status hfinished =>
      cases h
      exact ⟨s, status, hrun, hfinished, rfl⟩
    . cases h
    . cases h

theorem runSession_of_ends (h : Ends cfg script.srcPort istats script.events) :
    ∃ attempt, runSession cfg istats script = .ok attempt := by
  rcases h.finished with ⟨s, hrun, hfinished⟩
  rcases Option.ne_none_iff_exists'.mp hfinished with ⟨status, hstatus⟩
  refine ⟨{ status := status, replies := s.replies }, ?_⟩
  simp only [runSession, hrun, hstatus]

theorem repliesOnce_of_runSession
    (horderly : Orderly cfg script.srcPort istats script.events)
    (h : runSession cfg istats script = .ok attempt) :
    attempt.RepliesOnce istats.transactionId := by
  rcases finished_of_runSession h with ⟨s, status, hrun, hfinished, rfl⟩
  have hreplies := (proceeds_of_run horderly hrun).replies
  unfold Attempt.RepliesOnce
  cases status with
  | true =>
    exact hreplies.1 (horderly.closed (closing_of_run hrun (.inl hfinished)))
  | false =>
    have hfailed := aborting_of_run hrun horderly.ok (.inl hfinished)
    simp [hreplies.2 (horderly.failed hfailed)]

theorem repliesOnce_hot {managed : UmiId → Bool} {c : HotInstances} {i : Invocation}
    (horderly : Orderly (sessionConfig build promises i []) script.srcPort i.info script.events)
    (h : processHotStart build promises managed c i script = .ok attempt) :
    attempt.RepliesOnce i.info.transactionId := by
  unfold processHotStart at h
  split at h
  . cases h
  . cases h
    apply repliesOnce_unavailable
  . exact repliesOnce_of_runSession horderly h

theorem repliesOnce_warm {root : InvokerRoot} {i : Invocation}
    (horderly : Orderly (sessionConfig build promises i []) script.srcPort (warmStats i)
      script.events)
    (h : processWarmStart build promises root i script = .ok attempt) :
    attempt.RepliesOnce i.info.transactionId := by
  unfold processWarmStart at h
  split at h
  . cases h
  . cases h
    apply repliesOnce_unavailable
  . have hreplies := repliesOnce_of_runSession horderly h
    exact hreplies

theorem repliesOnce_cold {root : InvokerRoot} {i : Invocation}
    (horderly : Orderly (sessionConfig build promises i i.code) script.srcPort i.info
      script.events)
    (h : processColdStart build promises root i script = .ok attempt) :
    attempt.RepliesOnce i.info.transactionId := by
  unfold processColdStart at h
  split at h
  . cases h
  . exact repliesOnce_of_runSession horderly h

theorem processHotStart_of_ends {managed : UmiId → Bool} {c : HotInstances} {i : Invocation}
    (hends : Ends (sessionConfig build promises i []) script.srcPort i.info script.events) :
    ∃ attempt, processHotStart build promises managed c i script = .ok attempt := by
  unfold processHotStart
  rcases HotInstances.takeHotInstance_cases managed c i.info.functionId with hmiss | ⟨u, _, htake⟩
  . rw [hmiss]
    exact ⟨_, rfl⟩
  . rw [htake]
    split
    . next heq => cases heq
    . exact ⟨_, rfl⟩
    . exact runSession_of_ends hends

theorem processWarmStart_of_ends {root : InvokerRoot} {i : Invocation}
    (hroot : root.isBootstrapped = true)
    (hends : Ends (sessionConfig build promises i []) script.srcPort (warmStats i) script.events) :
    ∃ attempt, processWarmStart build promises root i script = .ok attempt := by
  unfold processWarmStart InvokerRoot.getSnapshot
  rw [hroot, Build.kassert_true]
  dsimp only [bind, Except.bind]
  cases root.snapmap.find? i.info.functionId with
  | none => exact ⟨_, rfl⟩
  | some sv => exact runSession_of_ends hends

theorem processColdStart_of_ends {root : InvokerRoot} {i : Invocation}
    (hroot : root.isBootstrapped = true)
    (hends : Ends (sessionConfig build promises i i.code) script.srcPort i.info script.events) :
    ∃ attempt, processColdStart build promises root i script = .ok attempt := by
  unfold processColdStart InvokerRoot.getBaseSV
  rw [hroot, Build.kassert_true]
  exact runSession_of_ends hends

end attempt

section invoke

variable {build : Build} {promises : Promises} {surroundings : Surroundings} {i : Invocation}

theorem invoke_of_paths {hot warm cold : Attempt}
    (hhot : processHotStart build promises surroundings.managed surroundings.hotInstances i
      surroundings.hotScript = .ok hot)
    (hwarm : processWarmStart build promises surroundings.root i surroundings.warmScript = .ok warm)
    (hcold : processColdStart build promises surroundings.root i surroundings.coldScript = .ok cold) :
    ∃ out, invoke build promises surroundings i = .ok out := by
  unfold invoke
  rw [hhot, hwarm, hcold]
  dsimp only [bind, Except.bind]
  split
  . exact ⟨_, rfl⟩
  . split <;> exact ⟨_, rfl⟩

-- what the paths that `invoke` takes have sent
theorem replies_of_invoke {out : Invoked} (h : invoke build promises surroundings i = .ok out)
    (hhot : ∀ attempt, processHotStart build promises surroundings.managed surroundings.hotInstances i
      surroundings.hotScript = .ok attempt → attempt.RepliesOnce i.info.transactionId)
    (hwarm : ∀ attempt, processWarmStart build promises surroundings.root i surroundings.warmScript
      = .ok attempt → attempt.RepliesOnce i.info.transactionId)
    (hcold : ∀ attempt, processColdStart build promises surroundings.root i surroundings.coldScript
      = .ok attempt → attempt.RepliesOnce i.info.transactionId) :
    out.replies.map (·.1.transactionId) = if out.kaborted then [] else [i.info.transactionId] := by
  rcases ok_of_bind h with ⟨hot, hhot', h⟩
  have hhot := hhot hot hhot'
  unfold Attempt.RepliesOnce at hhot
  split at h
  . next hstatus =>
    cases h
    simpa [hstatus] using hhot
  . next hstatus =>
    rw [if_neg hstatus] at hhot
    rcases ok_of_bind h with ⟨warm, hwarm', h⟩
    have hwarm := hwarm warm hwarm'
    unfold Attempt.RepliesOnce at hwarm
    split at h
    . next hstatus =>
      cases h
      simpa [hstatus, hhot] using hwarm
    . next hstatus =>
      rw [if_neg hstatus] at hwarm
      rcases ok_of_bind h with ⟨cold, hcold', h⟩
      have hcold := hcold cold hcold'
      unfold Attempt.RepliesOnce at hcold
      cases h
      cases hstatus : cold.status <;> simpa [hstatus, hhot, hwarm] using hcold

/--
Where every session is orderly, a start path has sent one reply if it succeeds and none if it
fails. So once the sessions have ended, an invocation has got exactly one reply, or none where all three
paths fail and the node is stopped.
-/
theorem invoke_replies_once (surroundings : Surroundings) (i : Invocation)
    (hhot : Orderly (sessionConfig build promises i []) surroundings.hotScript.srcPort i.info
      surroundings.hotScript.events)
    (hwarm : Orderly (sessionConfig build promises i []) surroundings.warmScript.srcPort
      (warmStats i) surroundings.warmScript.events)
    (hcold : Orderly (sessionConfig build promises i i.code) surroundings.coldScript.srcPort i.info
      surroundings.coldScript.events) :
    (∀ attempt, processHotStart build promises surroundings.managed surroundings.hotInstances i
        surroundings.hotScript = .ok attempt → attempt.RepliesOnce i.info.transactionId)
      ∧ (∀ attempt, processWarmStart build promises surroundings.root i surroundings.warmScript
          = .ok attempt → attempt.RepliesOnce i.info.transactionId)
      ∧ (∀ attempt, processColdStart build promises surroundings.root i surroundings.coldScript
          = .ok attempt → attempt.RepliesOnce i.info.transactionId)
      ∧ (∀ out, invoke build promises surroundings i = .ok out →
          out.replies.map (·.1.transactionId)
            = if out.kaborted then [] else [i.info.transactionId])
      ∧ (surroundings.root.isBootstrapped = true →
          Ends (sessionConfig build promises i []) surroundings.hotScript.srcPort i.info
            surroundings.hotScript.events →
          Ends (sessionConfig build promises i []) surroundings.warmScript.srcPort (warmStats i)
            surroundings.warmScript.events →
          Ends (sessionConfig build promises i i.code) surroundings.coldScript.srcPort i.info
            surroundings.coldScript.events →
          ∃ out, invoke build promises surroundings i = .ok out) := by
  refine ⟨fun _ => repliesOnce_hot hhot, fun _ => repliesOnce_warm hwarm,
    fun _ => repliesOnce_cold hcold, ?_, ?_⟩
  . intro out h
    exact replies_of_invoke h (fun _ => repliesOnce_hot hhot) (fun _ => repliesOnce_warm hwarm)
      fun _ => repliesOnce_cold hcold
  . intro hroot hhotEnds hwarmEnds hcoldEnds
    rcases processHotStart_of_ends hhotEnds with ⟨hot, hhot'⟩
    rcases processWarmStart_of_ends hroot hwarmEnds with ⟨warm, hwarm'⟩
    rcases processColdStart_of_ends hroot hcoldEnds with ⟨cold, hcold'⟩
    exact invoke_of_paths hhot' hwarm' hcold'

end invoke

section examples

def exampleResult : CString := "\x7b\"a\":1\x7d".toList

def exampleRequest : Invocation where
  info := exampleStats
  code := "code".toList
  args := "\x7b\x7d".toList

def answered (responses : List CString) : Script where
  srcPort := 49160
  events := opening ++ responses.map (fun body => (⟨4, false⟩, .receive (okResponse body)))
    ++ [(⟨5, false⟩, .close), (⟨6, true⟩, .spawned 0)]

def lost (responses : List CString) : Script where
  srcPort := 49160
  events := opening ++ responses.map (fun body => (⟨4, false⟩, .receive (okResponse body)))
    ++ [(⟨5, false⟩, .abort), (⟨6, false⟩, .spawned 0)]

def exampleSurroundings (hotScript coldScript : Script) : Surroundings where
  managed := fun _ => true
  hotInstances := { HotInstances.new 1 300 with stalledInstanceMap := AList.singleton 7 3 }
  root := .bootstrapped
  hotScript := hotScript
  warmScript := lost []
  coldScript := coldScript

theorem asked_of_no_response (h : received es = []) (k : Nat) :
    asked cfg srcPort istats es k := by
  unfold asked
  split
  . next env b _ hget _ =>
    have hmem : b ∈ received es :=
      List.mem_filterMap.mpr ⟨(env, .receive b), List.mem_of_getElem? hget, rfl⟩
    rw [h] at hmem
    cases hmem
  . rfl

theorem orderly_lost (cfg : SessionConfig) (istats : InvocationStats) :
    Orderly cfg (lost []).srcPort istats (lost []).events := by
  constructor
  . simp [lost, opening, received]
  . intro k _
    apply asked_of_no_response rfl
  . intro n b hb
    have hnone : received (lost []).events = [] := rfl
    rw [hnone] at hb
    cases hb
  . simp [lost, opening, endsByClose]
  . intro _
    exact firstDue_ne_nothing

theorem orderly_answered :
    Orderly (sessionConfig .release ⟨.throws, true⟩ exampleRequest exampleRequest.code)
      (answered [InvocationSession.initialized, exampleResult]).srcPort exampleStats
      (answered [InvocationSession.initialized, exampleResult]).events := by
  constructor
  . simp [answered, opening, received, isOk_okResponse]
  . decide
  . intro n b hb
    match n with
    | 0 =>
      cases hb
      exact .inl (by decide)
    | 1 =>
      cases hb
      exact ⟨exampleResult, by decide, by decide⟩
    | n + 2 => cases hb
  . decide
  . decide

theorem invoke_replies_once_fallback :
    ∃ out, invoke .release ⟨.throws, true⟩
        (exampleSurroundings (lost []) (answered [InvocationSession.initialized, exampleResult]))
        exampleRequest = .ok out
      ∧ out.kaborted = false
      ∧ out.replies.map (·.1.transactionId) = [1] := by
  rcases invoke_replies_once (exampleSurroundings (lost [])
      (answered [InvocationSession.initialized, exampleResult])) exampleRequest (orderly_lost _ _)
      (orderly_lost _ _) orderly_answered with ⟨_, _, _, hreplies, hends⟩
  rcases hends rfl ⟨⟨4, by decide⟩, by decide⟩ ⟨⟨4, by decide⟩, by decide⟩ ⟨⟨6, by decide⟩, by decide⟩
    with ⟨out, hout⟩
  have hkaborted : (invoke .release ⟨.throws, true⟩
      (exampleSurroundings (lost []) (answered [InvocationSession.initialized, exampleResult]))
      exampleRequest).map Invoked.kaborted = .ok false := by
    decide
  rw [hout] at hkaborted
  have hkaborted := Except.ok.inj hkaborted
  have hreplies := hreplies out hout
  rw [hkaborted] at hreplies
  exact ⟨out, hout, hkaborted, hreplies⟩

def Invoked.summary (out : Invoked) : Bool × List CString :=
  (out.kaborted, out.replies.map (·.2))

-- Closed without a response: success without a reply. Lost after the response: two replies. Lost
-- before it, with no snapshot and a cold start that is lost as well: no reply and `kabort`.
theorem invoke_replies_not_once :
    (invoke .release ⟨.throws, true⟩ (exampleSurroundings (answered []) (lost []))
        exampleRequest).map Invoked.summary = .ok (false, [])
      ∧ (invoke .release ⟨.throws, true⟩ (exampleSurroundings (lost [exampleResult])
          (answered [InvocationSession.initialized, exampleResult])) exampleRequest).map
            Invoked.summary = .ok (false, [exampleResult, exampleResult])
      ∧ (invoke .release ⟨.throws, true⟩ (exampleSurroundings (lost []) (lost []))
          exampleRequest).map Invoked.summary = .ok (true, []) := by
  decide

end examples

end Invoker
end Seuss
