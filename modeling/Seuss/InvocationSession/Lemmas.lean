import Seuss.InvocationSession.Basic

/-!
This module contains what the methods of a session leave alone: what was sent and replied, which
response it waits for and how far its connection has come.
-/

namespace Seuss

-- The spawned events that come before the first request, and the promises that are never spawned.
def Spawned.opens (e : Spawned) : Bool :=
  match e with
  | .connect => true
  | .setValue .closed => false
  | .setValue .aborted => false
  | .setValue _ => true
  | .signalHalt => false

def Spawned.closes (e : Spawned) : Bool :=
  match e with
  | .setValue .closed => true
  | .setValue .aborted => true
  | _ => false

def Effect.isQuiet (e : Effect) : Bool :=
  match e with
  | .send .. => false
  | .resolve .. => false
  | _ => true

namespace InvocationSession

variable {s t u : InvocationSession}

section append

variable {l : List Effect}

theorem requests_append (h : t.effects = s.effects ++ l) :
    t.requests = s.requests ++ l.filterMap Effect.path? := by
  rw [requests, h, List.filterMap_append, requests]

theorem replies_append (h : t.effects = s.effects ++ l) :
    t.replies = s.replies ++ l.filterMap Effect.reply? := by
  rw [replies, h, List.filterMap_append, replies]

theorem effectsSince_append (h : t.effects = s.effects ++ l) : effectsSince s t = l := by
  rw [effectsSince, h, List.drop_left]

end append

theorem requests_emit_of_isQuiet {e : Effect} (h : e.isQuiet) :
    (emit e s).requests = s.requests := by
  rw [requests_append rfl]
  cases e <;> simp_all [Effect.isQuiet, Effect.path?]

theorem replies_emit_of_isQuiet {e : Effect} (h : e.isQuiet) :
    (emit e s).replies = s.replies := by
  rw [replies_append rfl]
  cases e <;> simp_all [Effect.isQuiet, Effect.reply?]

theorem requests_congr (h : t.effects = s.effects) : t.requests = s.requests := by
  rw [requests, requests, h]

theorem replies_congr (h : t.effects = s.effects) : t.replies = s.replies := by
  rw [replies, replies, h]

structure Kept (s t : InvocationSession) : Prop where
  effects : s.effects <+: t.effects
  requests : t.requests = s.requests
  replies : t.replies = s.replies
  reply : t.reply = s.reply
  istats : t.istats = s.istats
  isInitialized : t.isInitialized = s.isInitialized
  connecting : t.connecting = s.connecting
  openers : t.spawned.filter Spawned.opens = s.spawned.filter Spawned.opens
  satisfied : ∀ sig, sig ≠ .closed → sig ≠ .aborted → t.satisfied sig = s.satisfied sig

theorem Kept.trans (h : Kept s t) (h' : Kept t u) : Kept s u := by
  constructor
  . exact h.effects.trans h'.effects
  . rw [h'.requests, h.requests]
  . rw [h'.replies, h.replies]
  . rw [h'.reply, h.reply]
  . rw [h'.istats, h.istats]
  . rw [h'.isInitialized, h.isInitialized]
  . rw [h'.connecting, h.connecting]
  . rw [h'.openers, h.openers]
  . intro sig hclosed haborted
    rw [h'.satisfied sig hclosed haborted, h.satisfied sig hclosed haborted]

theorem Kept.initialized (h : Kept s t) : t.satisfied .initialized = s.satisfied .initialized :=
  h.satisfied .initialized (by decide) (by decide)

theorem Kept.executed (h : Kept s t) : t.satisfied .executed = s.satisfied .executed :=
  h.satisfied .executed (by decide) (by decide)

theorem kept_of_fields (effects : t.effects = s.effects) (reply : t.reply = s.reply)
    (istats : t.istats = s.istats) (isInitialized : t.isInitialized = s.isInitialized)
    (connecting : t.connecting = s.connecting)
    (openers : t.spawned.filter Spawned.opens = s.spawned.filter Spawned.opens)
    (satisfied : ∀ sig, sig ≠ .closed → sig ≠ .aborted → t.satisfied sig = s.satisfied sig) :
    Kept s t := by
  constructor
  . simp [effects]
  . apply requests_congr effects
  . apply replies_congr effects
  . exact reply
  . exact istats
  . exact isInitialized
  . exact connecting
  . exact openers
  . exact satisfied

theorem kept_of_eq (effects : t.effects = s.effects) (reply : t.reply = s.reply)
    (istats : t.istats = s.istats) (isInitialized : t.isInitialized = s.isInitialized)
    (connecting : t.connecting = s.connecting) (spawned : t.spawned = s.spawned)
    (satisfied : t.satisfied = s.satisfied) :
    Kept s t := by
  apply kept_of_fields effects reply istats isInitialized connecting
  . rw [spawned]
  . intro sig _ _
    rw [satisfied]

theorem kept_emit {e : Effect} (h : e.isQuiet) : Kept s (emit e s) := by
  constructor
  . apply List.prefix_append
  . apply requests_emit_of_isQuiet h
  . apply replies_emit_of_isQuiet h
  all_goals simp [emit]

theorem kept_spawn {e : Spawned} (h : e.opens = false) : Kept s (spawn e s) := by
  constructor <;> simp [spawn, h, requests, replies]

theorem kept_enableTimer {now : Time} : Kept s (enableTimer now s) := by
  unfold enableTimer
  split
  . apply kept_of_eq <;> rfl
  . apply Kept.trans _ (kept_emit rfl)
    apply kept_of_eq <;> rfl

theorem kept_stopTimer : Kept s s.stopTimer := by
  unfold stopTimer
  split
  . apply Kept.trans _ (kept_emit rfl)
    apply kept_of_eq <;> rfl
  . apply kept_of_eq <;> rfl

theorem kept_disableTimer : Kept s s.disableTimer := by
  apply kept_stopTimer.trans
  apply kept_of_eq <;> rfl

theorem kept_close : Kept s s.close := by
  unfold close
  apply Kept.trans _ (kept_spawn rfl)
  apply Kept.trans _ (kept_emit rfl)
  apply kept_disableTimer.trans
  apply kept_of_eq <;> rfl

theorem kept_abort : Kept s s.abort := by
  unfold abort
  apply Kept.trans _ (kept_spawn rfl)
  apply kept_disableTimer.trans
  apply kept_of_eq <;> rfl

theorem kept_fire {now : Time} : Kept s (fire now s) := by
  unfold fire
  dsimp only
  split
  . apply Kept.trans _ kept_abort
    apply kept_of_eq <;> rfl
  . apply kept_of_eq <;> rfl

structure Sent (path msg : CString) (s t : InvocationSession) : Prop where
  effects : t.effects = s.effects ++ [.send path msg]
  reply : t.reply = s.reply
  istats : t.istats = s.istats
  isInitialized : t.isInitialized = s.isInitialized
  connecting : t.connecting = s.connecting
  spawned : t.spawned = s.spawned
  satisfied : t.satisfied = s.satisfied

theorem sendHttpRequest_cases (build : Build) (now : Time) (path payload : CString)
    (keepAlive : Bool) (s : InvocationSession) :
    sendHttpRequest build now path payload keepAlive s = .threw .kassert s
      ∨ ∃ msg t, sendHttpRequest build now path payload keepAlive s = .done t
          ∧ Sent path msg s t := by
  unfold sendHttpRequest
  split
  . exact .inl rfl
  . refine .inr ⟨httpPostRequest path payload keepAlive, _, rfl, ?_⟩
    unfold recordStart
    split
    . constructor <;> rfl
    . split <;> constructor <;> rfl

section outcome

variable {promises : Promises} {handlers : Env → Signal → InvocationSession → Outcome}

theorem kept_done : Kept s (Outcome.done s).settle := by
  apply kept_of_eq <;> rfl

theorem kept_threw {stop : Stop} : Kept s (Outcome.threw stop s).settle := by
  apply kept_of_eq <;> rfl

theorem kept_andThen {o : Outcome} {f : InvocationSession → Outcome} (ho : Kept s o.settle)
    (hf : ∀ t, Kept t (f t).settle) :
    Kept s (o.andThen f).settle := by
  cases o with
  | done t => exact ho.trans (hf t)
  | threw stop t => exact ho

-- What becomes of an exception shows in `stopped` only.
theorem settle_callback (promises : Promises) (o : Outcome) :
    ∃ stopped, (promises.callback o).settle = { o.settle with stopped := stopped } := by
  cases o with
  | done t => exact ⟨t.stopped, rfl⟩
  | threw stop t =>
    unfold Promises.callback
    dsimp only
    split
    . exact ⟨t.stopped, rfl⟩
    . exact ⟨some stop, rfl⟩

theorem callback_kassert :
    promises.callback (.threw .kassert s) = .threw .kassert s := by
  simp [Promises.callback, Stop.isException]

theorem kept_callback {o : Outcome} (h : Kept s o.settle) :
    Kept s (promises.callback o).settle := by
  rcases settle_callback promises o with ⟨stopped, hsettle⟩
  rw [hsettle]
  apply h.trans
  apply kept_of_eq <;> rfl

theorem kept_finish {status : Bool} : Kept s (finish promises status s).settle := by
  have hfinish : Kept s (emit (.finish status) s.disableTimer) := by
    apply kept_disableTimer.trans
    apply kept_emit rfl
  unfold finish
  dsimp only
  split <;>
  . apply hfinish.trans
    apply kept_of_eq <;> rfl

theorem kept_setValue {env : Env} {sig : Signal} (hsig : sig = .closed ∨ sig = .aborted)
    (h : ∀ t, Kept t (handlers env sig t).settle) :
    Kept s (setValue promises handlers env sig s).settle := by
  have hemit : Kept s (emit (.setValue sig) s) := kept_emit rfl
  unfold setValue
  dsimp only
  split
  . apply kept_callback
    apply Kept.trans _ (h _)
    apply hemit.trans
    refine kept_of_fields rfl rfl rfl rfl rfl rfl ?_
    intro other hclosed haborted
    have hne : other ≠ sig := by
      rintro rfl
      cases hsig <;> contradiction
    simp [Function.update_of_ne hne]
  . apply hemit.trans kept_threw
  . exact hemit
  . apply kept_callback
    apply hemit.trans (h _)

end outcome

structure EndKept (s t : InvocationSession) : Prop where
  whenFinished : t.whenFinished = s.whenFinished
  aborted : t.satisfied .aborted = s.satisfied .aborted
  closers : t.spawned.filter Spawned.closes = s.spawned.filter Spawned.closes

theorem EndKept.trans (h : EndKept s t) (h' : EndKept t u) : EndKept s u := by
  constructor
  . rw [h'.whenFinished, h.whenFinished]
  . rw [h'.aborted, h.aborted]
  . rw [h'.closers, h.closers]

theorem endKept_of_eq (whenFinished : t.whenFinished = s.whenFinished)
    (satisfied : t.satisfied = s.satisfied) (spawned : t.spawned = s.spawned) :
    EndKept s t := by
  constructor
  . exact whenFinished
  . rw [satisfied]
  . rw [spawned]

theorem mem_spawned_of_closers (h : t.spawned.filter Spawned.closes = s.spawned.filter Spawned.closes)
    {e : Spawned} (he : e.closes = true) :
    e ∈ t.spawned ↔ e ∈ s.spawned := by
  have := congrArg (e ∈ ·) h
  simpa [he] using this

theorem EndKept.mem_spawned (h : EndKept s t) {e : Spawned} (he : e.closes = true) :
    e ∈ t.spawned ↔ e ∈ s.spawned :=
  mem_spawned_of_closers h.closers he

theorem endKept_spawn {e : Spawned} (h : e.closes = false) : EndKept s (spawn e s) := by
  constructor <;> simp [spawn, h]

theorem endKept_enableTimer {now : Time} : EndKept s (enableTimer now s) := by
  unfold enableTimer
  split <;> apply endKept_of_eq <;> rfl

theorem endKept_disableTimer : EndKept s s.disableTimer := by
  unfold disableTimer stopTimer
  split <;> apply endKept_of_eq <;> rfl

theorem endKept_sendHttpRequest {build : Build} {now : Time} {path payload : CString}
    {keepAlive : Bool} :
    EndKept s (sendHttpRequest build now path payload keepAlive s).settle := by
  unfold sendHttpRequest recordStart
  split
  . apply endKept_of_eq <;> rfl
  . dsimp only
    split
    . apply endKept_of_eq <;> rfl
    . split <;> apply endKept_of_eq <;> rfl

-- The session has ended with success, or an event that ends it so is spawned.
def Closing (s : InvocationSession) : Prop :=
  s.whenFinished = some true ∨ .setValue .closed ∈ s.spawned

def Aborting (s : InvocationSession) : Prop :=
  s.whenFinished = some false ∨ .setValue .aborted ∈ s.spawned

def FailedOnlyByAbort (s : InvocationSession) : Prop :=
  s.whenFinished = some false → s.satisfied .aborted = true

theorem EndKept.closing_iff (h : EndKept s t) : Closing t ↔ Closing s := by
  rw [Closing, Closing, h.whenFinished, h.mem_spawned rfl]

theorem EndKept.aborting_iff (h : EndKept s t) : Aborting t ↔ Aborting s := by
  rw [Aborting, Aborting, h.whenFinished, h.mem_spawned rfl]

theorem EndKept.failedOnlyByAbort_iff (h : EndKept s t) :
    FailedOnlyByAbort t ↔ FailedOnlyByAbort s := by
  rw [FailedOnlyByAbort, FailedOnlyByAbort, h.whenFinished, h.aborted]

section ending

variable {promises : Promises} {handlers : Env → Signal → InvocationSession → Outcome}

theorem endKept_callback {o : Outcome} (h : EndKept s o.settle) :
    EndKept s (promises.callback o).settle := by
  rcases settle_callback promises o with ⟨stopped, hsettle⟩
  rw [hsettle]
  apply h.trans
  apply endKept_of_eq <;> rfl

theorem endKept_setValue {env : Env} {sig : Signal} (hsig : sig ≠ .aborted)
    (h : ∀ t, EndKept t (handlers env sig t).settle) :
    EndKept s (setValue promises handlers env sig s).settle := by
  unfold setValue
  dsimp only
  split
  . apply endKept_callback
    apply EndKept.trans _ (h _)
    constructor
    . rfl
    . simp [emit, Function.update_of_ne hsig.symm]
    . rfl
  . apply endKept_of_eq <;> rfl
  . apply endKept_of_eq <;> rfl
  . apply endKept_callback
    apply EndKept.trans _ (h _)
    apply endKept_of_eq <;> rfl

structure EndsWith (status : Bool) (s t : InvocationSession) : Prop where
  whenFinished : t.whenFinished = s.whenFinished ∨ t.whenFinished = some status
  closers : t.spawned.filter Spawned.closes = s.spawned.filter Spawned.closes

theorem EndsWith.whenFinished_of_ne {status other : Bool} (h : EndsWith status s t)
    (hne : status ≠ other) (ht : t.whenFinished = some other) :
    s.whenFinished = some other := by
  cases h.whenFinished with
  | inl hkept => rw [← hkept, ht]
  | inr hends =>
    rw [hends, Option.some.injEq] at ht
    exact absurd ht hne

theorem EndsWith.aborting_of (h : EndsWith true s t) (ht : Aborting t) : Aborting s := by
  cases ht with
  | inl ht => exact .inl (h.whenFinished_of_ne (by decide) ht)
  | inr ht => exact .inr ((mem_spawned_of_closers h.closers rfl).mp ht)

theorem EndsWith.closing_of (h : EndsWith false s t) (ht : Closing t) : Closing s := by
  cases ht with
  | inl ht => exact .inl (h.whenFinished_of_ne (by decide) ht)
  | inr ht => exact .inr ((mem_spawned_of_closers h.closers rfl).mp ht)

theorem EndsWith.trans_endKept {status : Bool} (h : EndsWith status s t) (h' : EndKept t u) :
    EndsWith status s u := by
  constructor
  . rw [h'.whenFinished]
    exact h.whenFinished
  . rw [h'.closers, h.closers]

theorem EndKept.trans_endsWith {status : Bool} (h : EndKept s t) (h' : EndsWith status t u) :
    EndsWith status s u := by
  constructor
  . rw [← h.whenFinished]
    exact h'.whenFinished
  . rw [h'.closers, h.closers]

theorem endsWith_finish {status : Bool} :
    EndsWith status s (finish promises status s).settle := by
  have hfinish : EndKept s (emit (.finish status) s.disableTimer) := by
    apply endKept_disableTimer.trans
    apply endKept_of_eq <;> rfl
  apply hfinish.trans_endsWith
  unfold finish
  dsimp only
  split <;> constructor <;> simp [Outcome.settle]

theorem finish_eq_threw {status : Bool} {stop : Stop}
    (h : finish promises status s = .threw stop t) :
    promises.second = .throws ∧ s.whenFinished ≠ none ∧ t.whenFinished = s.whenFinished := by
  have hkept : s.disableTimer.whenFinished = s.whenFinished := endKept_disableTimer.whenFinished
  unfold finish at h
  dsimp only at h
  split at h
  . cases h
  . next hfinished hsecond =>
    cases h
    rw [emit, hkept] at hfinished
    refine ⟨hsecond, ?_, hkept⟩
    simp [hfinished]
  . cases h
  . cases h

theorem callback_eq_threw {o : Outcome} {stop : Stop} (h : promises.callback o = .threw stop t) :
    o = .threw stop t := by
  unfold Promises.callback at h
  split at h
  . cases h
  . split at h
    . cases h
    . exact h

theorem andThen_eq_threw {o : Outcome} {f : InvocationSession → Outcome} {stop : Stop}
    (h : o.andThen f = .threw stop t) (hf : ∀ u, ∃ v, f u = .done v) :
    o = .threw stop t := by
  cases o with
  | done u =>
    rcases hf u with ⟨v, hv⟩
    rw [Outcome.andThen, hv] at h
    cases h
  | threw stop' u => exact h

theorem satisfied_finish {status : Bool} :
    (finish promises status s).settle.satisfied = s.satisfied := by
  unfold finish disableTimer stopTimer
  dsimp only
  split <;> split <;> rfl

theorem endsWith_andThen {status : Bool} {o : Outcome} {f : InvocationSession → Outcome}
    (ho : EndsWith status s o.settle) (hf : ∀ t, EndKept t (f t).settle) :
    EndsWith status s (o.andThen f).settle := by
  cases o with
  | done t => exact ho.trans_endKept (hf t)
  | threw stop t => exact ho

theorem endsWith_callback {status : Bool} {o : Outcome} (h : EndsWith status s o.settle) :
    EndsWith status s (promises.callback o).settle := by
  rcases settle_callback promises o with ⟨stopped, hsettle⟩
  rw [hsettle]
  apply h.trans_endKept
  apply endKept_of_eq <;> rfl

theorem satisfied_callback {o : Outcome} :
    (promises.callback o).settle.satisfied = o.settle.satisfied := by
  rcases settle_callback promises o with ⟨stopped, hsettle⟩
  rw [hsettle]

theorem endsWith_setValue {status : Bool} {env : Env} {sig : Signal}
    (h : ∀ t, EndsWith status t (handlers env sig t).settle) :
    EndsWith status s (setValue promises handlers env sig s).settle := by
  unfold setValue
  dsimp only
  split
  . apply endsWith_callback
    have := h {
      emit (.setValue sig) s with
      satisfied := Function.update (emit (.setValue sig) s).satisfied sig true
    }
    exact ⟨this.whenFinished, this.closers⟩
  . exact ⟨.inl rfl, rfl⟩
  . exact ⟨.inl rfl, rfl⟩
  . apply endsWith_callback
    have := h (emit (.setValue sig) s)
    exact ⟨this.whenFinished, this.closers⟩

theorem satisfied_setValue {env : Env} {sig : Signal}
    (h : ∀ t, (handlers env sig t).settle.satisfied = t.satisfied) :
    (setValue promises handlers env sig s).settle.satisfied
      =
    Function.update s.satisfied sig true := by
  have hupdate : s.satisfied sig = true → Function.update s.satisfied sig true = s.satisfied := by
    intro hsig
    rw [← hsig, Function.update_eq_self]
  unfold setValue
  dsimp only
  split
  . rw [satisfied_callback, h]
    rfl
  . next hsig _ => exact (hupdate hsig).symm
  . next hsig _ => exact (hupdate hsig).symm
  . next hsig _ =>
    rw [satisfied_callback, h, hupdate hsig]
    rfl

end ending

end InvocationSession
end Seuss
